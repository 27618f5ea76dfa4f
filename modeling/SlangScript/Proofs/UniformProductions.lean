import SlangScript.Proofs.Counterparts

/-! What the parser makes of corresponding tokens: each production does alike with them, and so does the
whole program. -/
namespace SlangScript

/-- The same complaint at the same index. -/
structure SyntaxError.Corresponds (V : String → String → Prop) (W : Span → Span → Prop)
    (e e' : SyntaxError) : Prop where
  index : e'.index = e.index
  mismatch : e.mismatch.Corresponds V W e'.mismatch

structure ParseOutcome.Corresponds (V : String → String → Prop) (W : Span → Span → Prop)
    (o o' : ParseOutcome) : Prop where
  tree : o.tree.Corresponds V o'.tree
  errors : List.Forall₂ (SyntaxError.Corresponds V W) o.errors o'.errors

variable {V : String → String → Prop} {W : Span → Span → Prop}

/-! ### Expressions -/

namespace Tree
variable {t u : Tree} {ts us : List Tree}

theorem Corresponds.binary (op : Operator) {left left' right right' : Tree}
    (hl : left.Corresponds V left') (hr : right.Corresponds V right') :
    (binary op left right).Corresponds V (binary op left' right') :=
  .fixed rfl (.cons hl (.cons hr .nil))

/-- Operands that correspond, with the same operators before them. -/
theorem Corresponds.foldOperands {first first' : Tree} {more more' : List (Operator × Tree)}
    (h : first.Corresponds V first')
    (hmore : List.Forall₂ (fun x y => y.1 = x.1 ∧ x.2.Corresponds V y.2) more more') :
    (first.foldOperands more).Corresponds V (first'.foldOperands more') := by
  induction hmore generalizing first first' with
  | nil => exact h
  | cons hnext hmore ih =>
    obtain ⟨hop, hnext⟩ := hnext
    apply ih
    dsimp only
    rw [hop]
    exact h.binary _ hnext

end Tree

namespace Production
variable {p group array inner : Production Tree}

theorem literal_parallel {tag : Tag} {s s' : String}
    (h : (Tree.leaf tag s).Corresponds V (.leaf tag s')) :
    Parallel V W (Tree.Corresponds V) (literal tag s) (literal tag s') := by
  apply Parallel.skip.bind_eq
  intro _
  apply (Parallel.accept? fun t u ht => by
    rw [Token.incDecOperator?, Token.incDecOperator?, ht.operator?]).bind_eq
  intro op
  cases op with
  | none => exact .pure h
  | some op => exact .pure (.fixed rfl (.cons h .nil))

theorem operand_uniform (hg : Uniform V W group) (ha : Uniform V W array) :
    Uniform V W (operand group array) := by
  apply Parallel.current.bind
  rintro _ _ (ht | _)
  · rename_i t u
    dsimp only
    rw [ht.kind]
    cases hk : t.kind with
    | bracket b =>
      cases b with
      | openParen => exact hg
      | openBracket => exact ha
      | _ => exact .fail (.expression (.some ht))
    | integer | floatNumber | string | identifier =>
      exact literal_parallel (ht.operand (by rw [hk]; rfl))
    | _ => exact .fail (.expression (.some ht))
  · exact .fail (.expression .none)

theorem chain_uniform (h : Uniform V W p) : Uniform V W (chain p) := by
  apply h.bind
  intro first first' hfirst
  apply Parallel.bind (.many (A := fun x y => y.1 = x.1 ∧ x.2.Corresponds V y.2) ?_)
  · intro more more' hmore
    exact .pure (hfirst.foldOperands hmore)
  · apply (Parallel.accept? fun t u ht => by
      rw [Token.binaryOperator?, Token.binaryOperator?, ht.operator?]).bind_eq
    intro op
    cases op with
    | none => exact .pure .none
    | some op => exact h.bind fun next next' hnext => .pure (.some ⟨rfl, hnext⟩)

theorem commaSeparated_parallel (h : Uniform V W p) :
    Parallel V W (List.Forall₂ (Tree.Corresponds V)) (commaSeparated p) (commaSeparated p) := by
  apply h.bind
  intro first first' hfirst
  apply Parallel.bind (.many (A := Tree.Corresponds V) ?_)
  · intro more more' hmore
    exact .pure (.cons hfirst hmore)
  · apply (Parallel.skipIf _).bind_eq
    intro found
    cases found with
    | false => exact .pure .none
    | true => exact h.bind fun next next' hnext => .pure (.some hnext)

theorem listUntil_parallel (close : Bracket) (h : Uniform V W p) :
    Parallel V W (List.Forall₂ (Tree.Corresponds V)) (listUntil close p) (listUntil close p) := by
  rw [listUntil_eq]
  apply (Parallel.atKind _).bind_eq
  intro found
  apply Parallel.bind (A := List.Forall₂ (Tree.Corresponds V))
  · cases found with
    | false => exact commaSeparated_parallel h
    | true => exact .pure .nil
  · intro items items' hitems
    exact (Parallel.expect _).bind fun _ _ _ => .pure hitems

theorem call_uniform (h : Uniform V W inner) : Uniform V W (call inner) := by
  apply (Parallel.expect _).bind
  rintro name name' ⟨hname, hkind⟩
  apply (Parallel.expect _).bind
  intro _ _ _
  apply (listUntil_parallel _ h).bind
  intro arguments arguments' harguments
  exact .pure (.free rfl (hname.free (by rw [hkind]; rfl)) harguments)

theorem grouped_uniform (h : Uniform V W inner) : Uniform V W (grouped inner) := by
  apply Parallel.skip.bind_eq
  intro _
  apply h.bind
  intro e e' he
  exact (Parallel.expect _).bind fun _ _ _ => .pure he

theorem arrayOf_uniform (h : Uniform V W inner) : Uniform V W (arrayOf inner) := by
  have helement : Uniform V W (element inner) := by
    apply (Parallel.atKind _).bind_eq
    intro found
    cases found with
    | false => exact h
    | true => exact call_uniform h
  apply (Parallel.expect _).bind
  intro _ _ _
  exact (listUntil_parallel _ helement).bind fun _ _ helements => .pure (.fixed rfl helements)

theorem expression_uniform (limit room : Nat) : Uniform V W (expression limit room) := by
  induction room with
  | zero => exact chain_uniform (operand_uniform (.fail (.tooDeep limit)) (.fail (.tooDeep limit)))
  | succ room ih => exact chain_uniform (operand_uniform (grouped_uniform ih) (arrayOf_uniform ih))

theorem arrayLiteral_uniform (limit room : Nat) : Uniform V W (arrayLiteral limit room) := by
  cases room with
  | zero => exact .fail (.tooDeep limit)
  | succ room => exact arrayOf_uniform (expression_uniform limit room)

end Production

/-! ### Statements -/

namespace Level
open Production
variable {l : Level}

/-- The productions of a level do alike with corresponding tokens. -/
structure IsUniform (V : String → String → Prop) (W : Span → Span → Prop) (l : Level) : Prop where
  expression : Uniform V W l.expression
  array : Uniform V W l.array
  braces : Uniform V W l.braces

theorem terminated_uniform {p : Production Tree} (h : Uniform V W p) :
    Uniform V W (terminated p) := by
  apply h.bind
  intro t t' ht
  exact (Parallel.skipIf _).bind_eq fun _ => .pure ht

/-- The name that a production asks for is a leaf of the tree. -/
theorem expect_identifier : Parallel V W
    (fun t u => (Tree.leaf .identifier t.lexeme).Corresponds V (.leaf .identifier u.lexeme))
    (expect .identifier) (expect .identifier) :=
  (Parallel.expect .identifier).mono fun _ _ ht => ht.1.operand (by rw [ht.2]; rfl)

theorem parameter?_parallel :
    Parallel V W (Option.Rel (Tree.Corresponds V)) parameter? parameter? := by
  apply Parallel.current.bind
  rintro _ _ (ht | _)
  · rename_i t u
    dsimp only
    rw [ht.isBracket, ht.kind]
    split
    · exact .pure .none
    · split
      · rename_i hword
        apply Parallel.skip.bind_eq
        intro _
        apply expect_identifier.bind
        intro name name' hname
        rw [ht.fixed (by cases hk : t.kind <;> simp [hk, TokenKind.isWord] at hword <;> rfl)]
        exact .pure (.some (.fixed rfl (.cons (.fixed rfl .nil) (.cons hname .nil))))
      · exact .fail (.parameterType ht)
  · exact .pure .none

theorem parameters_uniform : Uniform V W parameters := by
  apply parameter?_parallel.bind
  rintro _ _ (hfirst | _)
  · apply Parallel.bind (.many (A := Tree.Corresponds V) ?_)
    · intro more more' hmore
      exact .pure (.fixed rfl (.cons hfirst hmore))
    · apply (Parallel.skipIf _).bind_eq
      intro found
      cases found with
      | false => exact .pure .none
      | true => exact parameter?_parallel
  · exact .pure (.fixed rfl .nil)

theorem input_uniform : Uniform V W input := by
  apply Parallel.skip.bind_eq
  intro _
  apply (Parallel.expect _).bind
  intro _ _ _
  apply expect_identifier.bind
  intro name name' hname
  exact (Parallel.expect _).bind fun _ _ _ => .pure (.fixed rfl (.cons hname .nil))

theorem lineList_uniform : Uniform V W lineList := by
  have hnumber : Uniform V W (do
      let n ← expect .integer
      pure (Tree.leaf .integer n.lexeme)) := by
    apply (Parallel.expect _).bind
    rintro n n' ⟨hn, hkind⟩
    exact .pure (hn.operand (by rw [hkind]; rfl))
  apply Parallel.skip.bind_eq
  intro _
  apply Parallel.skip.bind_eq
  intro _
  apply (Parallel.expect _).bind
  intro _ _ _
  exact (listUntil_parallel _ hnumber).bind fun _ _ hnumbers => .pure (.fixed rfl hnumbers)

section Uniform
variable (h : l.IsUniform V W)
include h

theorem condition_uniform : Uniform V W l.condition := by
  apply (Parallel.expect _).bind
  intro _ _ _
  apply h.expression.bind
  intro e e' he
  exact (Parallel.expect _).bind fun _ _ _ => .pure he

theorem block_uniform : Uniform V W l.block :=
  h.braces.bind fun _ _ hlist => .pure (.fixed rfl (.cons hlist .nil))

theorem guarded_uniform {tag : Tag} (htag : tag.hasFreeText = false) :
    Uniform V W (l.guarded tag) := by
  apply (condition_uniform h).bind
  intro c c' hc
  exact (block_uniform h).bind fun _ _ hbody => .pure (.fixed htag (.cons hc (.cons hbody .nil)))

theorem declaration_uniform (word : String) : Uniform V W (l.declaration word) := by
  apply Parallel.skip.bind_eq
  intro _
  apply expect_identifier.bind
  intro name name' hname
  apply (Parallel.accept? fun t u ht => by rw [ht.operator?]).bind_eq
  intro op
  cases op with
  | none => exact .pure (.fixed rfl (.cons hname .nil))
  | some op =>
    apply h.expression.bind
    intro value value' hvalue
    exact .pure (.fixed rfl (.cons (.fixed rfl (.cons hname (.cons hvalue .nil))) .nil))

theorem elseIf?_parallel :
    Parallel V W (Option.Rel (Tree.Corresponds V)) l.elseIf? l.elseIf? := by
  have hlook : Parallel V W Eq atElseIf atElseIf := by
    apply Parallel.look
    intro ts us hts
    cases hts with
    | nil => rfl
    | cons ht hts =>
      cases hts with
      | nil => rfl
      | cons hnext hts => simp only [ht.isWord, hnext.isWord]
  apply hlook.bind_eq
  intro found
  cases found with
  | false => exact .pure .none
  | true =>
    apply Parallel.skip.bind_eq
    intro _
    apply Parallel.skip.bind_eq
    intro _
    exact (guarded_uniform h rfl).bind fun _ _ hbranch => .pure (.some hbranch)

theorem else?_parallel :
    Parallel V W (Option.Rel (Tree.Corresponds V)) l.else? l.else? := by
  apply (Parallel.accept? fun t u ht => by rw [ht.isWord]).bind_eq
  intro found
  cases found with
  | none => exact .pure .none
  | some _ => exact h.braces.bind fun _ _ hlist => .pure (.some (.fixed rfl (.cons hlist .nil)))

theorem ifChain_uniform : Uniform V W l.ifChain := by
  apply Parallel.skip.bind_eq
  intro _
  apply (guarded_uniform h rfl).bind
  intro first first' hfirst
  apply (elseIf?_parallel h).many.bind
  intro further further' hfurther
  apply (else?_parallel h).bind
  rintro _ _ (hlast | _)
  · exact .pure (.fixed rfl (.cons hfirst (List.rel_append hfurther (.cons hlast .nil))))
  · exact .pure (.fixed rfl (.cons hfirst (List.rel_append hfurther .nil)))

theorem forLoop_uniform : Uniform V W l.forLoop := by
  apply Parallel.skip.bind_eq
  intro _
  apply (Parallel.expect _).bind
  intro _ _ _
  apply h.expression.bind
  intro start start' hstart
  apply (Parallel.expect _).bind
  intro _ _ _
  apply h.expression.bind
  intro test test' htest
  apply (Parallel.expect _).bind
  intro _ _ _
  apply h.expression.bind
  intro step step' hstep
  apply (Parallel.expect _).bind
  intro _ _ _
  apply (block_uniform h).bind
  intro body body' hbody
  exact .pure (.fixed rfl (.cons hstart (.cons htest (.cons hstep (.cons hbody .nil)))))

theorem print_uniform : Uniform V W l.print := by
  apply Parallel.skip.bind_eq
  intro _
  exact (condition_uniform h).bind fun _ _ he => .pure (.fixed rfl (.cons he .nil))

theorem definition_uniform : Uniform V W l.definition := by
  apply Parallel.skip.bind_eq
  intro _
  apply (Parallel.expect _).bind
  rintro name name' ⟨hname, hkind⟩
  apply (Parallel.expect _).bind
  intro _ _ _
  apply parameters_uniform.bind
  intro params params' hparams
  apply (Parallel.expect _).bind
  intro _ _ _
  apply (block_uniform h).bind
  intro body body' hbody
  exact .pure (.free rfl (hname.free (by rw [hkind]; rfl)) (.cons hparams (.cons hbody .nil)))

theorem reply_uniform : Uniform V W l.reply := by
  apply Parallel.skip.bind_eq
  intro _
  exact h.expression.bind fun _ _ he => .pure (.fixed rfl (.cons he .nil))

theorem assigned_uniform : Uniform V W l.assigned := by
  apply (Parallel.atKind _).bind_eq
  intro found
  cases found with
  | false => exact h.expression
  | true => exact h.array

theorem named_uniform : Uniform V W l.named := by
  apply expect_identifier.bind
  intro name name' hname
  apply (Parallel.accept? fun t u ht => by rw [ht.operator?]).bind_eq
  intro op
  cases op with
  | none => exact .pure (.fixed rfl (.cons (.fixed rfl (.cons hname .nil)) .nil))
  | some op =>
    dsimp only
    split
    · apply (assigned_uniform h).bind
      intro value value' hvalue
      exact .pure (.fixed rfl (.cons (.fixed rfl (.cons hname (.cons hvalue .nil))) .nil))
    · exact .pure (.fixed rfl (.cons (.fixed rfl (.cons hname .nil)) .nil))

theorem statementOf_uniform (o : Opening) : Uniform V W (l.statementOf o) := by
  cases o with
  | declaration word => exact terminated_uniform (declaration_uniform h word)
  | construct c =>
    cases c with
    | print => exact terminated_uniform (print_uniform h)
    | input => exact terminated_uniform input_uniform
    | conditional => exact ifChain_uniform h
    | whileLoop => exact Parallel.skip.bind_eq fun _ => guarded_uniform h rfl
    | switch => exact Parallel.skip.bind_eq fun _ => guarded_uniform h rfl
    | forLoop => exact forLoop_uniform h
  | definition => exact definition_uniform h
  | reply => exact terminated_uniform (reply_uniform h)
  | call => exact terminated_uniform (call_uniform h.expression)
  | lineList => exact terminated_uniform lineList_uniform
  | name => exact terminated_uniform (named_uniform h)
  | block => exact block_uniform h

theorem statement_uniform : Uniform V W l.statement := by
  apply (Parallel.look fun ts us hts => hts.opening.symm).bind_eq
  intro o
  cases o with
  | some o => exact statementOf_uniform h o
  | none => exact Parallel.current.bind fun _ _ ht => .fail (.statement ht)

end Uniform

end Level

namespace Production
variable {p : Production Tree}

theorem statement?_parallel (h : Uniform V W p) :
    Parallel V W (Option.Rel (Tree.Corresponds V)) (statement? p) (statement? p) := by
  apply (Parallel.look fun ts us hts => by rw [hts.opening]).bind_eq
  intro found
  cases found with
  | false => exact .pure .none
  | true => exact h.bind fun _ _ hs => .pure (.some hs)

theorem braced_uniform (h : Uniform V W p) : Uniform V W (braced p) := by
  apply (Parallel.expect _).bind
  intro _ _ _
  apply (statement?_parallel h).many.bind
  intro list list' hlist
  exact (Parallel.expect _).bind fun _ _ _ => .pure (.fixed rfl hlist)

theorem statement_uniform (limit room : Nat) : Uniform V W (statement limit room) := by
  induction room with
  | zero =>
    rw [statement_eq]
    exact Level.statement_uniform
      ⟨expression_uniform limit 0, arrayLiteral_uniform limit 0, .fail (.tooDeep limit)⟩
  | succ room ih =>
    rw [statement_eq]
    exact Level.statement_uniform ⟨expression_uniform limit (room + 1),
      arrayLiteral_uniform limit (room + 1), braced_uniform ih⟩

end Production

/-! ### Programs -/

section Programs
variable {limit : Nat} {ts us : List Token}

theorem leftoverFailure?_corresponds {ss ss' : List Tree} {rest rest' : List Token}
    (hss : List.Forall₂ (Tree.Corresponds V) ss ss') (h : Counterparts V W rest rest') :
    Option.Rel (Failure.Corresponds V W) (leftoverFailure? ss rest) (leftoverFailure? ss' rest') := by
  cases hss with
  | nil => exact .some ⟨.emptyProgram, h⟩
  | cons hs hss =>
    cases h with
    | nil => exact .none
    | cons ht h => exact .some ⟨.leftover ht, .cons ht h⟩

theorem failureOf?_corresponds {ss ss' : List Tree} {stop stop' : Except Failure (List Token)}
    (hss : List.Forall₂ (Tree.Corresponds V) ss ss') (h : StopsAlike V W stop stop') :
    Option.Rel (Failure.Corresponds V W) (failureOf? ss stop) (failureOf? ss' stop') := by
  cases h with
  | ok h => exact leftoverFailure?_corresponds hss h
  | error h => exact .some h

/-- The same number of tokens is left of two programs of the same length, so the index is the same. -/
theorem toError_corresponds {failure failure' : Option Failure} (total : Nat)
    (h : Option.Rel (Failure.Corresponds V W) failure failure') :
    List.Forall₂ (SyntaxError.Corresponds V W) (failure.toList.map (·.toError total))
      (failure'.toList.map (·.toError total)) := by
  cases h with
  | none => exact .nil
  | some hf =>
    refine .cons ⟨?_, hf.mismatch⟩ .nil
    simp only [Failure.toError, hf.rest.length_eq]

/-- Programs that correspond have trees that correspond, and the same complaint at the same index if
there is one. -/
theorem parseWithin_corresponds (limit : Nat) (h : Counterparts V W ts us) :
    (parseWithin limit ts).Corresponds V W (parseWithin limit us) := by
  obtain ⟨hitems, hstop⟩ :=
    (Production.statement?_parallel (Production.statement_uniform limit limit)).gather h
  rw [parseWithin_eq rfl, parseWithin_eq rfl, ← h.length_eq]
  exact ⟨.fixed rfl (.cons (.fixed rfl hitems) .nil),
    toError_corresponds _ (failureOf?_corresponds hitems hstop)⟩

end Programs

end SlangScript
