import SlangScript.Proofs.ExpressionRules

/-! Every production of statements reads by the rule of its part. -/
namespace SlangScript

namespace Opening

/-- What the tokens ahead of a sort of statement look like. -/
def Begins : Opening → List Token → Prop
  | .declaration word => Ahead (fun t => t.declares ∧ t.lexeme = word) Anything
  | .construct c => Ahead (fun t => t.isWord c.keyword = true) Anything
  | .definition => Ahead (fun t => t.isWord "trend" = true) Anything
  | .reply => Ahead (fun t => t.isWord "reply" = true) Anything
  | .call => Ahead (fun t => t.kind = .function) Anything
  | .lineList => Ahead Token.isLine (Ahead (fun t => t.operator? = some .assign) Anything)
  | .name => fun ts => ∃ t rest, ts = t :: rest ∧ t.kind = .identifier ∧
      (t.isLine → ∀ s ∈ rest.head?, s.operator? ≠ some .assign)
  | .block => Ahead (fun t => t.kind = .bracket .openBrace) Anything

/-- Which words open a statement. -/
theorem isSome_ofWord? (word : String) : (ofWord? word).isSome =
    (isDeclarationWord word || (Construct.ofKeyword? word).isSome ||
      decide (word = "trend") || decide (word = "reply")) := by
  rw [ofWord?]
  by_cases hd : isDeclarationWord word = true
  · simp [hd]
  · rw [if_neg hd]
    cases Construct.ofKeyword? word with
    | some c => simp
    | none => by_cases ht : word = "trend" <;> by_cases hr : word = "reply" <;> simp [hd, ht, hr]

/-- The sorts of statement that words open, in the order in which they are tried. -/
theorem ofWord?_cases {word : String} {o : Opening} (h : ofWord? word = some o) :
    (isDeclarationWord word = true ∧ o = .declaration word) ∨
    (isDeclarationWord word = false ∧ ∃ con, Construct.ofKeyword? word = some con ∧
      con.keyword = word ∧ o = .construct con) ∨
    (isDeclarationWord word = false ∧ Construct.ofKeyword? word = none ∧ word = "trend" ∧
      o = .definition) ∨
    (isDeclarationWord word = false ∧ Construct.ofKeyword? word = none ∧ word = "reply" ∧
      o = .reply) := by
  rw [ofWord?] at h
  cases hd : isDeclarationWord word with
  | true =>
    rw [hd, if_pos rfl] at h
    cases h
    exact .inl ⟨rfl, rfl⟩
  | false =>
    rw [hd, if_neg Bool.false_ne_true] at h
    cases hcon : Construct.ofKeyword? word with
    | some con =>
      rw [hcon] at h
      cases h
      exact .inr (.inl ⟨rfl, con, rfl, by simpa using List.find?_some hcon, rfl⟩)
    | none =>
      rw [hcon] at h
      dsimp only at h
      split at h
      · cases h
        exact .inr (.inr (.inl ⟨rfl, rfl, ‹_›, rfl⟩))
      · split at h
        · cases h
          exact .inr (.inr (.inr ⟨rfl, rfl, ‹_›, rfl⟩))
        · cases h

private theorem begins_of_ofWord? {t : Token} {rest : List Token} {o : Opening}
    (ht : t.kind.isWord = true) (h : ofWord? t.lexeme = some o) : o.Begins (t :: rest) := by
  obtain ⟨hd, rfl⟩ | ⟨-, con, -, hkeyword, rfl⟩ | ⟨-, -, htrend, rfl⟩ | ⟨-, -, hreply, rfl⟩ :=
    ofWord?_cases h
  · exact ⟨t, rest, rfl, ⟨⟨ht, hd⟩, rfl⟩, trivial⟩
  · exact ⟨t, rest, rfl, by simp [Token.isWord, ht, hkeyword], trivial⟩
  · exact ⟨t, rest, rfl, by simp [Token.isWord, ht, htrend], trivial⟩
  · exact ⟨t, rest, rfl, by simp [Token.isWord, ht, hreply], trivial⟩

theorem begins_of_of? {ts : List Token} {o : Opening} (h : of? ts = some o) : o.Begins ts := by
  cases ts with
  | nil => cases h
  | cons t rest =>
    rw [of?] at h
    split at h
    · exact begins_of_ofWord? (by simp [*, TokenKind.isWord]) h
    · exact begins_of_ofWord? (by simp [*, TokenKind.isWord]) h
    · cases h; exact ⟨t, rest, rfl, ‹_›, trivial⟩
    · rename_i ht
      split at h
      · rename_i hl
        cases h
        obtain ⟨s, hs, hop⟩ := Option.any_eq_true _ _ |>.mp hl.2
        obtain ⟨r, rfl⟩ := List.head?_eq_some_iff.mp hs
        exact ⟨t, _, rfl, ⟨ht, hl.1⟩, s, r, rfl, by simpa using hop, trivial⟩
      · rename_i hl
        cases h
        refine ⟨t, rest, rfl, ht, fun hline s hs hop => hl ⟨hline.2, ?_⟩⟩
        exact (Option.any_eq_true _ _).mpr ⟨s, hs, by simpa using hop⟩
    · cases h; exact ⟨t, rest, rfl, ‹_›, trivial⟩
    · cases h

end Opening

namespace Level
open Production
variable {n : Nat} {l : Level} {pre : List Token → Prop}

/-- The productions of a level read what opens at most `n` brackets. -/
structure ReadsWithin (l : Level) (n : Nat) : Prop where
  expression : Reads Anything n l.expression (Part.expression.rule n)
  array : Reads Anything n l.array (Part.array.rule n)
  braces : Reads Anything n l.braces (Part.braces.rule n)

theorem condition_reads (h : l.ReadsWithin n) :
    Reads Anything n l.condition (fun w e => ∃ o v c, w = o :: (v ++ [c]) ∧
      o.kind = .bracket .openParen ∧ Derives .expression n v [e] ∧
      c.kind = .bracket .closeParen) := by
  refine .mono (.expect fun o => h.expression.bind fun e => .expect fun c => .pure e) ?_
  rintro w _ ⟨o, _, rfl, ho, e, v, _, rfl, he, c, _, rfl, hc, rfl, rfl⟩
  exact ⟨o, v, c, rfl, ho, he, hc⟩

theorem block_reads (h : l.ReadsWithin n) :
    Reads Anything n l.block (fun w b => ∃ list, b = .node .block none [list] ∧
      Derives .braces n w [list]) := by
  refine .mono (h.braces.bind fun list => .pure _) ?_
  rintro w _ ⟨list, v, _, rfl, hv, rfl, rfl⟩
  exact ⟨list, rfl, by simpa using hv⟩

theorem guarded_reads (h : l.ReadsWithin n) (tag : Tag) :
    Reads Anything n (l.guarded tag) ((Part.guarded tag).rule n) := by
  refine .mono ((condition_reads h).bind fun e => (block_reads h).bind fun b => .pure _) ?_
  rintro w _ ⟨e, _, _, rfl, ⟨o, v, c, rfl, ho, he, hc⟩, _, b, _, rfl, ⟨list, rfl, hb⟩, rfl, rfl⟩
  simpa using Derives.guarded ho he hc hb

private theorem exists_word (word : String) : ∃ t : Token, t.isWord word = true :=
  ⟨⟨.keyword, word, .origin⟩, by simp [Token.isWord, TokenKind.isWord]⟩

theorem declaration_reads (h : l.ReadsWithin n) {word : String} (hw : isDeclarationWord word = true) :
    Reads (Opening.declaration word).Begins n (l.declaration word) (Part.simple.rule n) := by
  refine .mono (.skip ⟨⟨.keyword, word, .origin⟩, ⟨rfl, hw⟩, rfl⟩ (.expect fun x =>
    .accept? (.pure _) fun op => h.expression.bind fun e => .pure _)) ?_
  rintro w _ ⟨k, _, rfl, ⟨hk, rfl⟩, x, _, rfl, hx,
    ⟨rfl, rfl⟩ | ⟨o, op, _, rfl, ho, e, v, _, rfl, he, rfl, rfl⟩⟩
  · exact .declaration hk hx
  · simp only [Option.filter_eq_some_iff] at ho
    simpa using Derives.initialised hk hx ho.1 ho.2 he

theorem elseIf?_reads (h : l.ReadsWithin n) :
    Reads Anything n l.elseIf? (Rule.optional fun w b => ∃ e s v, w = e :: s :: v ∧
      e.isWord "else" = true ∧ s.isWord "sus" = true ∧ Derives (.guarded .elseIfBlock) n v [b]) := by
  refine .look fun c => ?_
  cases c with
  | false => exact .nothing
  | true =>
    refine .mono (.restrict (.skip (exists_word "else") (.skip (exists_word "sus")
      ((guarded_reads h _).bind fun b => .pure _))) ?_) ?_
    · rintro ts ⟨-, hts⟩
      split at hts
      · rename_i t s rest
        rw [Bool.and_eq_true] at hts
        exact ⟨t, _, rfl, hts.1, s, rest, rfl, hts.2, trivial⟩
      · cases hts
    · rintro w o ⟨e, _, rfl, he, s, _, rfl, hs, b, v, _, rfl, hb, rfl, rfl⟩
      exact ⟨e, s, v, by simp, he, hs, hb⟩

theorem else?_reads (h : l.ReadsWithin n) :
    Reads Anything n l.else? (Rule.optional fun w b => ∃ e v list, w = e :: v ∧
      b = .node .elseBlock none [list] ∧ e.isWord "else" = true ∧ Derives .braces n v [list]) := by
  refine .mono (.accept? (.pure none) fun _ => h.braces.bind fun list => .pure _) ?_
  rintro w o (⟨rfl, rfl⟩ | ⟨e, _, _, rfl, he, list, v, _, rfl, hv, rfl, rfl⟩)
  · rfl
  · exact ⟨e, v, list, by simp, rfl, by simpa using he, hv⟩

theorem ifChain_reads (h : l.ReadsWithin n) :
    Reads (Opening.construct .conditional).Begins n l.ifChain (Part.statement.rule n) := by
  refine .mono (.skip (exists_word _) ((guarded_reads h _).bind fun first => .bind
    (R := fun v bs => ∀ w cs, Derives .branches n w cs → Derives .branches n (v ++ w) (bs ++ cs))
    (.many (elseIf?_reads h) (.ofOptional ?_ ?_ ?_)) fun further => (else?_reads h).bind fun last =>
      .pure _)) ?_
  · exact fun w cs hcs => hcs
  · rintro _ v b bs ⟨e, s, u, rfl, he, hs, hb⟩ hv w cs hcs
    simpa using Derives.elseIf he hs hb (hv w cs hcs)
  · rintro b ⟨_, _, _, h, -⟩
    cases h
  · rintro w _ ⟨k, _, rfl, hk, first, u, _, rfl, hu, further, v, _, rfl, hv, last, x, _, rfl, hx,
      rfl, rfl⟩
    have hlast : Derives .branches n x last.toList := by
      cases last with
      | none =>
        obtain rfl : x = [] := hx
        exact .unbranched
      | some b =>
        obtain ⟨e, y, list, rfl, rfl, he, hl⟩ := hx
        exact .elseBlock he hl
    simpa using Derives.ifChain hk hu (hv x _ hlast)

theorem forLoop_reads (h : l.ReadsWithin n) :
    Reads (Opening.construct .forLoop).Begins n l.forLoop (Part.statement.rule n) := by
  refine .mono (.skip (exists_word _) (.expect fun o => h.expression.bind fun start =>
    .expect fun s₁ => h.expression.bind fun test => .expect fun s₂ => h.expression.bind fun step =>
    .expect fun c => (block_reads h).bind fun body => .pure _)) ?_
  rintro w _ ⟨k, _, rfl, hk, o, _, rfl, ho, start, u, _, rfl, hu, s₁, _, rfl, hs₁, test, v, _, rfl, hv,
    s₂, _, rfl, hs₂, step, x, _, rfl, hx, c, _, rfl, hc, _, b, _, rfl, ⟨list, rfl, hb⟩, rfl, rfl⟩
  simpa using Derives.forLoop hk ho hu hs₁ hv hs₂ hx hc hb

theorem print_reads (h : l.ReadsWithin n) :
    Reads (Opening.construct .print).Begins n l.print (Part.simple.rule n) := by
  refine .mono (.skip (exists_word _) ((condition_reads h).bind fun e => .pure _)) ?_
  rintro w _ ⟨k, _, rfl, hk, e, _, _, rfl, ⟨o, v, c, rfl, ho, he, hc⟩, rfl, rfl⟩
  simpa using Derives.print hk ho he hc

theorem input_reads :
    Reads (Opening.construct .input).Begins n input (Part.simple.rule n) := by
  refine .mono (.skip (exists_word _) (.expect fun o => .expect fun x => .expect fun c => .pure _)) ?_
  rintro w _ ⟨k, _, rfl, hk, o, _, rfl, ho, x, _, rfl, hx, c, _, rfl, hc, rfl, rfl⟩
  exact .input hk ho hx hc

theorem whileLoop_reads (h : l.ReadsWithin n) :
    Reads (Opening.construct .whileLoop).Begins n (l.statementOf (.construct .whileLoop))
      (Part.statement.rule n) := by
  refine .mono (.skip (exists_word _) (guarded_reads h .whileStmt)) ?_
  rintro w _ ⟨k, v, rfl, hk, hv⟩
  exact .whileLoop hk hv

theorem switch_reads (h : l.ReadsWithin n) :
    Reads (Opening.construct .switch).Begins n (l.statementOf (.construct .switch))
      (Part.statement.rule n) := by
  refine .mono (.skip (exists_word _) (guarded_reads h .switchStmt)) ?_
  rintro w _ ⟨k, v, rfl, hk, hv⟩
  exact .switch hk hv

theorem parameter?_reads :
    Reads pre n parameter? (Rule.optional (Part.parameter.rule n)) := by
  refine .look fun c => ?_
  cases c with
  | none => exact .nothing
  | some t =>
    dsimp only
    split
    · exact .nothing
    · split
      · rename_i ht
        refine .mono (.restrict (.skip ⟨t, rfl⟩ (.expect fun x => .pure _))
          fun ts h => .of_head? h.2 (P := (t = ·)) rfl) ?_
        rintro w _ ⟨_, _, rfl, rfl, x, _, rfl, hx, rfl, rfl⟩
        exact .parameter ht hx
      · exact .fail fun _ => ⟨[], none, rfl⟩

/-- Behind a parameter, others follow commas, and the last comma may have none behind it. -/
theorem parameters_piecewise (n : Nat) : Reads.Piecewise
    (fun w o => (w = [] ∧ o = none) ∨ ∃ c v, w = c :: v ∧ c.kind = .delimiter .comma ∧
      Rule.optional (Part.parameter.rule n) v o)
    (fun v ps => ∀ w p, Derives .parameter n w [p] → Derives .parameters n (w ++ v) (p :: ps)) where
  stop := by
    rintro _ (⟨rfl, -⟩ | ⟨c, v, rfl, hc, hv⟩) w p hp
    · simpa using Derives.parameters (.listed (.one hp))
    · obtain rfl : v = [] := hv
      exact .trailingComma (.one hp) hc
  step := by
    rintro _ v q ps (⟨-, h⟩ | ⟨c, u, rfl, hc, hq⟩) hv w p hp
    · cases h
    · simpa using Derives.parameters_cons hp hc (hv u _ hq)
  progress := by
    rintro a (⟨-, h⟩ | ⟨_, _, h, -⟩) <;> cases h
  empty := .inl ⟨rfl, rfl⟩

theorem parameters_reads :
    Reads pre n parameters (fun w t => ∃ ps, t = .node .paramList none ps ∧
      Derives .parameters n w ps) := by
  refine .mono (.bind (T := fun o v t => ∃ ps, t = .node .paramList none ps ∧
    ∀ w, Rule.optional (Part.parameter.rule n) w o → Derives .parameters n (w ++ v) ps)
    parameter?_reads fun o => ?_) ?_
  · cases o with
    | none =>
      refine (Reads.pure _).mono ?_
      rintro _ _ ⟨rfl, rfl⟩
      refine ⟨[], rfl, fun w hw => ?_⟩
      obtain rfl : w = [] := hw
      exact .parameters .unlisted
    | some p =>
      refine .mono (.bind (.many (.skipIf (.pure none) parameter?_reads) (parameters_piecewise n))
        fun more => .pure _) ?_
      rintro w _ ⟨more, v, _, rfl, hv, rfl, rfl⟩
      exact ⟨_, rfl, fun w hp => by simpa using hv w p hp⟩
  · rintro w t ⟨o, u, v, rfl, hu, ps, rfl, h⟩
    exact ⟨ps, rfl, h u hu⟩

theorem definition_reads (h : l.ReadsWithin n) :
    Reads Opening.definition.Begins n l.definition (Part.statement.rule n) := by
  refine .mono (.skip (exists_word _) (.expect fun f => .expect fun o =>
    .bind parameters_reads fun ps => .expect fun c => (block_reads h).bind fun body => .pure _)) ?_
  rintro w _ ⟨k, _, rfl, hk, f, _, rfl, hf, o, _, rfl, ho, _, v, _, rfl, ⟨ps, rfl, hps⟩,
    c, _, rfl, hc, _, b, _, rfl, ⟨list, rfl, hb⟩, rfl, rfl⟩
  simpa using Derives.definition hk hf ho hps hc hb

theorem reply_reads (h : l.ReadsWithin n) :
    Reads Opening.reply.Begins n l.reply (Part.simple.rule n) := by
  refine .mono (.skip (exists_word _) (h.expression.bind fun e => .pure _)) ?_
  rintro w _ ⟨k, _, rfl, hk, e, v, _, rfl, he, rfl, rfl⟩
  simpa using Derives.reply hk he

theorem lineList_reads :
    Reads Opening.lineList.Begins n lineList (Part.simple.rule n) := by
  have hnumber : Reads Anything n
      (do let t ← expect .integer; pure (Tree.leaf .integer t.lexeme)) (Part.number.rule n) := by
    refine .mono (.expect fun t => .pure _) ?_
    rintro w _ ⟨t, _, rfl, ht, rfl, rfl⟩
    exact .number ht
  refine .mono (.skip ⟨⟨.identifier, "line", .origin⟩, rfl, rfl⟩
    (.skip ⟨.ofKind (.operator .assign), rfl⟩
      (.expect fun o => (listUntil_reads hnumber).bind fun ns => .pure _))) ?_
  rintro w _ ⟨x, _, rfl, hx, s, _, rfl, hs, o, _, rfl, ho, ns, _, _, rfl,
    ⟨v, c, rfl, hc, hv⟩, rfl, rfl⟩
  simpa using Derives.lineList hx hs ho hv hc

/-- An expression that must not begin with a square bracket is completed without one. -/
theorem assignedExpression_reads {p : Production Tree}
    (h : Reads Anything n p (Part.expression.rule n)) :
    Reads (fun ts => ∀ t ∈ ts.head?, t.kind ≠ .bracket .openBracket) n p (Part.assigned.rule n) where
  sound h₀ h' := by
    obtain ⟨w, rfl, hw⟩ := h.sound trivial h'
    refine ⟨w, rfl, .assignedExpression hw ?_⟩
    cases w with
    | nil => exact absurd rfl (hw.ne_nil rfl)
    | cons t w => exact h₀
  viable h₀ h' := by
    obtain ⟨u, rfl, hu⟩ := h.viable trivial h'
    refine ⟨u, rfl, fun hn => ?_⟩
    cases u with
    | nil =>
      exact ⟨_, _, .assignedExpression (.integer n) (by rintro _ ⟨⟩; simp [Token.ofKind])⟩
    | cons t u =>
      obtain ⟨v, e, hv⟩ := hu hn
      exact ⟨v, e, .assignedExpression hv h₀⟩
  inhabited _ := ⟨_, _, .assignedExpression (.integer n) (by rintro _ ⟨⟩; simp [Token.ofKind])⟩

theorem assigned_reads (h : l.ReadsWithin n) :
    Reads Anything n l.assigned (Part.assigned.rule n) := by
  refine .look fun c => ?_
  cases c with
  | false =>
    refine (assignedExpression_reads h.expression).restrict ?_
    rintro ts ⟨-, hts⟩ t ht hk
    simp_all
  | true => exact (h.array.restrict fun _ _ => trivial).mono fun w e => .assignedArray

/-- A name that could begin a line list is followed by `=` only there. -/
theorem named_reads (h : l.ReadsWithin n) :
    Reads Opening.name.Begins n l.named (Part.simple.rule n) := by
  have h₀ : Reads Anything n l.named (fun w e => Derives .simple n w [e] ∨
      ∃ x s v, w = x :: s :: v ∧ x.isLine ∧ s.operator? = some .assign) := by
    refine .mono (.expect fun x => .accept? (.pure _) (T := fun op w e =>
      (op.isAssignment = true ∧ ∃ v, Derives .assigned n w [v] ∧ e = .node .exprStmt none
        [.node .assignmentOp (some op.symbol) [.leaf .identifier x.lexeme, v]]) ∨
      (op.isAssignment = false ∧ w = [] ∧ e = .node .exprStmt none
        [.node .incDecOp (some op.symbol) [.leaf .identifier x.lexeme]])) fun op => ?_) ?_
    · dsimp only
      split
      · rename_i hop
        refine .mono ((assigned_reads h).bind fun v => .pure _) ?_
        rintro w _ ⟨v, u, _, rfl, hu, rfl, rfl⟩
        exact .inl ⟨hop, v, by simpa using hu, rfl⟩
      · rename_i hop
        exact (Reads.pure _).mono fun w e h => .inr ⟨by simpa using hop, h⟩
    · rintro w _ ⟨x, _, rfl, hx, ⟨rfl, rfl⟩ | ⟨o, op, v, rfl, ho, h⟩⟩
      · exact .inl (.alone hx)
      · obtain ⟨ho, hop⟩ := Option.filter_eq_some_iff.mp ho
        rcases h with ⟨ha, e, he, rfl⟩ | ⟨ha, rfl, rfl⟩
        · by_cases hline : x.isLine → op ≠ .assign
          · exact .inl (.assignment hx ho ha hline he)
          · obtain ⟨hx, heq⟩ := Classical.not_imp.mp hline
            exact .inr ⟨x, o, v, rfl, hx, by simpa [Classical.not_not.mp heq] using ho⟩
        · exact .inl (.counted hx ho (by simpa [ha] using hop))
  exact {
    sound := by
      rintro ts e rest ⟨t, more, rfl, -, hno⟩ h'
      obtain ⟨w, hts, hw | ⟨x, s, v, rfl, hx, hs⟩⟩ := h₀.sound trivial h'
      · exact ⟨w, hts, hw⟩
      · cases hts
        exact absurd hs (hno hx s rfl)
    viable := by
      rintro ts f ⟨t, more, rfl, -, hno⟩ h'
      obtain ⟨u, hts, hu⟩ := h₀.viable trivial h'
      refine ⟨u, hts, fun hn => ?_⟩
      obtain ⟨v, e, hv | ⟨x, s, v, heq, hx, hs⟩⟩ := hu hn
      · exact ⟨v, e, hv⟩
      · match u with
        | [] => exact ⟨[x], _, .alone hx.1⟩
        | [y] =>
          cases heq
          exact ⟨[], _, .alone hx.1⟩
        | y :: z :: u =>
          cases heq
          cases hts
          exact absurd hs (hno hx _ rfl)
    inhabited := fun _ => ⟨[.ofKind .identifier], _, .alone rfl⟩ }

theorem terminated_reads {p : Production Tree} (h : Reads pre n p (Part.simple.rule n)) :
    Reads pre n (terminated p) (Part.statement.rule n) := by
  refine .mono (h.bind fun s => .skipIf (.pure _) (.pure _)) ?_
  rintro w _ ⟨s, u, _, rfl, hu, ⟨rfl, rfl⟩ | ⟨t, _, rfl, ht, rfl, rfl⟩⟩
  · simpa using Derives.unterminated hu
  · exact .terminated hu ht

theorem statementOf_reads (h : l.ReadsWithin n) (o : Opening)
    (hword : ∀ word, o = .declaration word → isDeclarationWord word = true) :
    Reads o.Begins n (l.statementOf o) (Part.statement.rule n) := by
  cases o with
  | declaration word => exact terminated_reads (declaration_reads h (hword word rfl))
  | construct c =>
    cases c with
    | print => exact terminated_reads (print_reads h)
    | input => exact terminated_reads input_reads
    | conditional => exact ifChain_reads h
    | whileLoop => exact whileLoop_reads h
    | switch => exact switch_reads h
    | forLoop => exact forLoop_reads h
  | definition => exact definition_reads h
  | reply => exact terminated_reads (reply_reads h)
  | call =>
    exact terminated_reads (((call_reads h.expression).restrict fun _ _ => trivial).mono
      fun w e => .called)
  | lineList => exact terminated_reads lineList_reads
  | name => exact terminated_reads (named_reads h)
  | block =>
    refine ((block_reads h).restrict fun _ _ => trivial).mono ?_
    rintro w _ ⟨list, rfl, hb⟩
    exact .block hb

theorem statement_reads (h : l.ReadsWithin n) :
    Reads Anything n l.statement (Part.statement.rule n) := by
  have hin : 0 < n → ∃ w e, Part.statement.rule n w e := fun _ =>
    ⟨[.ofKind .identifier], _, .unterminated (.alone rfl)⟩
  refine .look fun c => ?_
  cases c with
  | none => exact .look fun t => .fail hin
  | some o =>
    by_cases hword : ∀ word, o = .declaration word → isDeclarationWord word = true
    · exact (statementOf_reads h o hword).restrict fun ts h => Opening.begins_of_of? h.2
    · obtain ⟨word, hno⟩ := Classical.not_forall.mp hword
      obtain ⟨rfl, hw⟩ := Classical.not_imp.mp hno
      have hno (ts : List Token) : ¬ (Anything ts ∧ Opening.of? ts = some (.declaration word)) := by
        rintro ⟨-, hts⟩
        obtain ⟨t, _, -, ⟨ht, rfl⟩, -⟩ := Opening.begins_of_of? hts
        exact hw ht.2
      exact ⟨fun h => absurd h (hno _), fun h => absurd h (hno _), hin⟩

end Level

namespace Production
variable {n : Nat} {p : Production Tree}

theorem statement?_reads (h : Reads Anything n p (Part.statement.rule n)) :
    Reads Anything n (statement? p) (Rule.optional (Part.statement.rule n)) := by
  refine .look fun c => ?_
  cases c with
  | false => exact .nothing
  | true =>
    refine .mono ((h.restrict fun _ _ => trivial).bind fun s => .pure _) ?_
    rintro w _ ⟨s, u, _, rfl, hu, rfl, rfl⟩
    rwa [List.append_nil]

theorem statements_piecewise (n : Nat) :
    Reads.Piecewise (Rule.optional (Part.statement.rule n)) (Derives .statements n) :=
  .ofOptional .done .next fun _ hs => hs.ne_nil rfl rfl

theorem braced_reads (h : Reads Anything n p (Part.statement.rule n)) :
    Reads Anything (n + 1) (braced p) (Part.braces.rule (n + 1)) := by
  refine .mono (.opening (by rfl)
    (fun _ => .bind (.many (statement?_reads h) (statements_piecewise n))
      fun ss => .expect fun c => .pure _)
    ⟨_, _, _, _, _, rfl, .done, .ofKind _, _, rfl, rfl, rfl, rfl⟩) ?_
  rintro w _ ⟨o, _, rfl, ho, ss, v, _, rfl, hv, c, _, rfl, hc, rfl, rfl⟩
  exact .braces ho hv hc

/-- The productions that nest, where `n` levels are left. -/
def level (limit : Nat) : Nat → Level
  | 0 => ⟨expression limit 0, arrayLiteral limit 0, tooDeep limit⟩
  | n + 1 => ⟨expression limit (n + 1), arrayLiteral limit (n + 1), braced (statement limit n)⟩

theorem statement_eq (limit n : Nat) : statement limit n = (level limit n).statement := by
  cases n <;> rfl

/-- The productions of a level read by the rules, also where fewer levels are left than these allow. -/
theorem level_reads (limit : Nat) {room : Nat} (h : room ≤ n) :
    (level limit room).ReadsWithin n := by
  induction room generalizing n with
  | zero =>
    refine ⟨expression_reads limit h, arrayLiteral_reads limit h, .fail fun hn => ?_⟩
    obtain ⟨n, rfl⟩ := Nat.exists_eq_succ_of_ne_zero (Nat.ne_of_gt hn)
    exact ⟨_, _, .braces (o := .ofKind (.bracket .openBrace)) (c := .ofKind (.bracket .closeBrace))
      rfl .done rfl⟩
  | succ room ih =>
    refine ⟨expression_reads limit h, arrayLiteral_reads limit h, ?_⟩
    obtain ⟨n, rfl⟩ := Nat.exists_eq_add_of_le' (Nat.le_trans (Nat.le_add_left 1 room) h)
    exact braced_reads (statement_eq limit room ▸
      Level.statement_reads (ih (Nat.le_of_succ_le_succ h)))

theorem statement_reads (limit : Nat) {room : Nat} (h : room ≤ n) :
    Reads Anything n (statement limit room) (Part.statement.rule n) := by
  rw [statement_eq]
  exact Level.statement_reads (level_reads limit h)

end Production

end SlangScript
