import SlangScript.Proofs.ExpressionCompleteness
import SlangScript.Proofs.StatementRules

/-! Whatever the grammar derives as a statement is read, to its last token and no further, where neither
an operator, nor a semicolon, nor `else` follows it. -/
namespace SlangScript

/-- Nothing comes next that could still belong to the statement before it. -/
abbrev Ends : List Token → Prop :=
  Next fun t => t.operator? = none ∧ t.kind ≠ .delimiter .semicolon ∧ t.isWord "else" = false

/-- A closing parenthesis comes next. -/
abbrev AtClose : List Token → Prop := Ahead (fun t => t.kind = .bracket .closeParen) Anything

theorem Ends.noOperator {ts : List Token} (h : Ends ts) : NoOperator ts := h.mono fun _ ht => ht.1

theorem Operator.isAssignment_eq_false {op : Operator} (h : op.isIncDec = true) :
    op.isAssignment = false := by
  cases op <;> first | rfl | cases h

namespace Opening

theorem of?_word {t : Token} (h : t.kind.isWord = true) (ts : List Token) :
    of? (t :: ts) = ofWord? t.lexeme := by
  rw [of?]
  cases hk : t.kind <;> simp_all [TokenKind.isWord]

theorem of?_isWord {t : Token} {word : String} (h : t.isWord word = true) (ts : List Token) :
    of? (t :: ts) = ofWord? word := by
  simp only [Token.isWord, Bool.and_eq_true, decide_eq_true_eq] at h
  rw [of?_word h.1, h.2]

theorem of?_declares {t : Token} (h : t.declares) (ts : List Token) :
    of? (t :: ts) = some (.declaration t.lexeme) := by
  rw [of?_word h.1, ofWord?, if_pos h.2]

theorem of?_name {t : Token} {ts : List Token} (h : t.kind = .identifier)
    (hline : t.isLine → Next (·.operator? ≠ some .assign) ts) : of? (t :: ts) = some .name := by
  rw [of?]
  simp only [h, ite_eq_right_iff]
  rintro ⟨hl, hs⟩
  obtain ⟨s, hs, hop⟩ := Option.any_eq_true _ _ |>.mp hs
  exact absurd (by simpa using hop) (hline ⟨h, hl⟩ s hs)

theorem of?_lineList {t s : Token} (ht : t.isLine) (hs : s.operator? = some .assign)
    (ts : List Token) : of? (t :: s :: ts) = some .lineList := by
  rw [of?]
  simp [ht.1, ht.2, hs]

/-- What opens a statement continues none. -/
theorem ends_of_of? {ts : List Token} {o : Opening} (h : of? ts = some o) : Ends ts := by
  cases ts with
  | nil => cases h
  | cons t ts =>
    rw [Ends, next_cons]
    refine ⟨?_, ?_, ?_⟩
    · rw [Token.operator?]
      split
      · rename_i hk; rw [of?] at h; simp [hk] at h
      · rfl
    · intro hk
      rw [of?] at h
      simp [hk] at h
    · refine Bool.eq_false_iff.mpr fun he => ?_
      rw [of?_isWord he] at h
      cases h

end Opening

namespace Production
variable {α β γ : Type} {p q : Production α} {f : α → Production β} {ts ts' : List Token}

theorem run_bind_congr (h : p ts = q ts') : (p >>= f) ts = (q >>= f) ts' := by
  simp only [bind, Production.bind, h]

theorem run_bind_assoc (g : β → Production γ) (ts : List Token) :
    ((p >>= f) >>= g) ts = (p >>= fun a => f a >>= g) ts := by
  cases h : p ts <;> simp only [bind, Production.bind, h]

theorem bind_bind (p : Production α) (f : α → Production β) (g : β → Production γ) :
    (p >>= f) >>= g = p >>= fun a => f a >>= g := funext (run_bind_assoc g)

/-- A round that always yields something when it succeeds is read before all others. -/
theorem run_many_bind {round : Production (Option α)} {k : List α → Production β}
    (h : round ts = (p >>= fun a => pure (some a)) ts')
    (hlt : ∀ a mid, p ts' = .ok (a, mid) → mid.length < ts.length) :
    (many round >>= k) ts = (p >>= fun a => many round >>= fun as => k (a :: as)) ts' := by
  cases hp : p ts' with
  | error e =>
    have hround : round ts = .error e := h.trans (bind_eq_error.mpr (.inl hp))
    have hmany : many round ts = .error e := by rw [many, gather, hround]
    rw [bind_eq_error.mpr (.inl hp), bind_eq_error.mpr (.inl hmany)]
  | ok r =>
    obtain ⟨a, mid⟩ := r
    have hround : round ts = .ok (some a, mid) := by rw [h, run_bind hp, run_pure]
    rw [run_bind hp]
    have hmany := many_cons hround (hlt a mid hp)
    cases hm : many round mid with
    | error e =>
      rw [hm] at hmany
      rw [bind_eq_error.mpr (.inl hm), bind_eq_error.mpr (.inl hmany)]
    | ok r =>
      rw [hm] at hmany
      rw [run_bind hm, run_bind hmany]

end Production

namespace Level
open Production
variable {n : Nat} {l : Level} {rest : List Token}

/-- The productions of a level read all that opens at most `n` brackets. -/
structure CompletesWithin (l : Level) (n : Nat) : Prop where
  expression : Completes l.expression (Part.expression.rule n) NoOperator
  array : Completes l.array (Part.array.rule n) fun _ => True
  braces : Completes l.braces (Part.braces.rule n) fun _ => True

/-- A parameter begins with any word. -/
theorem parameter?_word {t : Token} (h : t.kind.isWord = true) (ts : List Token) :
    parameter? (t :: ts) = (expect .identifier >>= fun name => pure (some (.node .param none
      [.leaf .type t.lexeme, .leaf .identifier name.lexeme]))) ts := by
  have hc : t.isBracket .closeParen = false := by
    rw [Token.isBracket, decide_eq_false]
    rintro hk
    simp [hk, TokenKind.isWord] at h
  rw [parameter?, current, run_look]
  simp only [List.head?_cons, hc, h, ↓reduceIte, Bool.false_eq_true]
  rw [run_skip]

theorem parameter?_refused {t : Token} (hc : t.isBracket .closeParen = false)
    (h : t.kind.isWord = false) (ts : List Token) :
    parameter? (t :: ts) = .error ⟨.parameterType t, t :: ts⟩ := by
  rw [parameter?, current, run_look]
  simp only [List.head?_cons, hc, h, ↓reduceIte, Bool.false_eq_true]
  rfl

theorem parameter?_complete {w : List Token} {p : Tree} (h : Derives .parameter n w [p])
    (rest : List Token) : parameter? (w ++ rest) = .ok (some p, rest) := by
  cases h with
  | parameter ht hx =>
    rw [List.cons_append, List.cons_append, List.nil_append, parameter?_word ht, run_expect hx,
      run_pure]

theorem parameter?_stop (h : AtClose rest) : parameter? rest = .ok (none, rest) := by
  obtain ⟨c, ts, rfl, hc, -⟩ := h
  have hc : c.isBracket .closeParen = true := by rw [Token.isBracket, decide_eq_true hc]
  rw [parameter?, current, run_look]
  simp only [List.head?_cons, hc, ↓reduceIte, run_pure]

theorem parameters_complete {w : List Token} {ps : List Tree} (h : Derives .parameters n w ps)
    (hrest : AtClose rest) : parameters (w ++ rest) = .ok (.node .paramList none ps, rest) := by
  have hsome : ∀ {w ps v}, Derives (.separated .parameter) n w ps →
      many (do if ← skipIf (.delimiter .comma) then parameter? else pure none) v = .ok ([], rest) →
      parameters (w ++ v) = .ok (.node .paramList none ps, rest) := by
    intro w ps v hs hm
    obtain ⟨u, p, x, more, rfl, rfl, hp, hmore⟩ := separated_split
      (do if ← skipIf (.delimiter .comma) then parameter? else pure none) (F := fun _ => True)
      (fun hc hp _ => (run_skipIf hc _ _).trans (parameter?_complete hp _)) (fun _ => trivial) hs
    rw [List.append_assoc, parameters, run_bind (parameter?_complete hp _)]
    exact run_bind (hmore trivial hm).2
  cases h with
  | parameters hs =>
    cases hs with
    | unlisted => exact run_bind (parameter?_stop hrest)
    | listed hs =>
      refine hsome hs (many_stop (run_skipIf_not ?_ _))
      obtain ⟨c, ts, rfl, hc, -⟩ := hrest
      simp [hc]
  | trailingComma hs hc =>
    rw [List.append_assoc]
    exact hsome hs (many_stop ((run_skipIf hc _ _).trans (parameter?_stop hrest)))

theorem elseIf?_none {ts : List Token}
    (h : Next (fun t => t.isWord "else" = false) ts ∨ Next (fun t => t.isWord "sus" = false) ts.tail) :
    l.elseIf? ts = .ok (none, ts) := by
  rw [elseIf?, atElseIf, run_look]
  match ts with
  | [] => rfl
  | [t] => rfl
  | t :: s :: ts =>
    simp only [List.tail_cons, next_cons] at h
    rcases h with h | h <;> simp only [h, Bool.false_and, Bool.and_false] <;> rfl

theorem elseIf?_else {e s : Token} (he : e.isWord "else" = true) (hs : s.isWord "sus" = true)
    (ts : List Token) : l.elseIf? (e :: s :: ts) =
      (l.guarded .elseIfBlock >>= fun branch => pure (some branch)) ts := by
  rw [elseIf?, atElseIf, run_look]
  simp only [he, hs, Bool.and_self, ↓reduceIte]
  rw [run_skip, run_skip]

theorem else?_none (h : Next (fun t => t.isWord "else" = false) rest) :
    l.else? rest = .ok (none, rest) := by
  rw [else?, run_accept?_none (h.mono fun t ht => by rw [ht]; rfl)]
  rfl

theorem else?_else {e : Token} (he : e.isWord "else" = true) (ts : List Token) :
    l.else? (e :: ts) = (l.braces >>= fun list => pure (some (.node .elseBlock none [list]))) ts := by
  rw [else?, run_accept?_some (a := ()) (by rw [he]; rfl)]

/-- The branches of a conditional behind the first one, with what `g` makes of them. -/
def branches {γ : Type} (l : Level) (g : List Tree → Option Tree → γ) : Production γ := do
  let further ← many l.elseIf?
  let last ← l.else?
  pure (g further last)

section Branches
variable {γ : Type} {e s : Token} {ts : List Token} (g : List Tree → Option Tree → γ)

theorem branches_none (h : Next (fun t => t.isWord "else" = false) ts) :
    l.branches g ts = .ok (g [] none, ts) := by
  rw [branches, run_bind (many_stop (elseIf?_none (.inl h))), run_bind (else?_none h), run_pure]

theorem branches_else (he : e.isWord "else" = true)
    (hs : Next (fun t => t.isWord "sus" = false) ts) : l.branches g (e :: ts) =
      (l.braces >>= fun list => pure (g [] (some (.node .elseBlock none [list])))) ts := by
  have hround : l.elseIf? (e :: ts) = .ok (none, e :: ts) := elseIf?_none (.inr hs)
  rw [branches, run_bind (many_stop hround), run_bind_congr (else?_else he ts), run_bind_assoc]
  rfl

theorem branches_elseIf (he : e.isWord "else" = true) (hs : s.isWord "sus" = true)
    (hlt : ∀ b mid, l.guarded .elseIfBlock ts = .ok (b, mid) → mid.length < ts.length + 2) :
    l.branches g (e :: s :: ts) = (l.guarded .elseIfBlock >>= fun b =>
      l.branches fun further last => g (b :: further) last) ts :=
  run_many_bind (elseIf?_else he hs ts) hlt

end Branches

/-- What is made of the branches can be made of them afterwards. -/
theorem branches_map {γ δ : Type} (g : List Tree → Option Tree → γ) (f : γ → δ) :
    (l.branches fun further last => f (g further last)) = (l.branches g >>= fun x => pure (f x)) := by
  rw [branches, branches, bind_bind]
  simp only [bind_bind]
  rfl

section Within
variable (h : l.CompletesWithin n)
include h

theorem condition_complete {o c : Token} {w : List Token} {e : Tree}
    (ho : o.kind = .bracket .openParen) (he : Derives .expression n w [e])
    (hc : c.kind = .bracket .closeParen) (rest : List Token) :
    l.condition (o :: (w ++ c :: rest)) = .ok (e, rest) := by
  rw [condition, run_expect ho, run_bind (h.expression he (noOperator_of_bracket hc)), run_expect hc,
    run_pure]

theorem block_complete {w : List Token} {list : Tree} (hb : Derives .braces n w [list])
    (rest : List Token) : l.block (w ++ rest) = .ok (.node .block none [list], rest) := by
  rw [block, run_bind (h.braces hb trivial), run_pure]

theorem guarded_completes (tag : Tag) :
    Completes (l.guarded tag) ((Part.guarded tag).rule n) fun _ => True := by
  intro w s rest hd _
  cases hd with
  | guarded ho he hc hb =>
    simp only [List.cons_append, List.append_assoc]
    rw [guarded, run_bind (condition_complete h ho he hc _), run_bind (block_complete h hb rest),
      run_pure]

theorem assigned_completes : Completes l.assigned (Part.assigned.rule n) NoOperator := by
  intro w e rest hd hrest
  cases hd with
  | assignedArray ha =>
    rw [← h.array ha trivial]
    cases ha with
    | array ho hs hc => rw [assigned, List.cons_append, run_atKind, decide_eq_true ho]; rfl
  | assignedExpression he hw =>
    rw [← h.expression he hrest]
    obtain ⟨t, ts, rfl⟩ := List.exists_cons_of_ne_nil (he.ne_nil rfl)
    rw [assigned, List.cons_append, run_atKind, decide_eq_false (hw t rfl)]; rfl

/-- A simple statement is opened by its first tokens, and read up to its semicolon. -/
theorem simple_complete {w : List Token} {s : Tree} (hd : Derives .simple n w [s])
    (hrest : NoOperator rest) : ∃ o p, Opening.of? (w ++ rest) = some o ∧
      l.statementOf o = terminated p ∧ p (w ++ rest) = .ok (s, rest) := by
  have hnot {p : Operator → Bool} : Next (fun t => t.operator?.filter p = none) rest :=
    hrest.mono fun t ht => by rw [ht, Option.filter_none]
  cases hd with
  | declaration hk hx =>
    refine ⟨_, _, Opening.of?_declares hk _, rfl, ?_⟩
    simp only [List.cons_append, List.nil_append]
    rw [Level.declaration, run_skip, run_expect hx, run_accept?_none hnot]; rfl
  | initialised hk hx ho hop he =>
    refine ⟨_, _, Opening.of?_declares hk _, rfl, ?_⟩
    simp only [List.cons_append]
    rw [Level.declaration, run_skip, run_expect hx,
      run_accept?_some (Option.filter_eq_some_iff.mpr ⟨ho, hop⟩)]
    exact run_bind (h.expression he hrest)
  | print hk ho he hc =>
    refine ⟨.construct .print, l.print, Opening.of?_isWord hk _, rfl, ?_⟩
    simp only [List.cons_append, List.append_assoc]
    rw [Level.print, run_skip, run_bind (condition_complete h ho he hc _), List.nil_append, run_pure]
  | input hk ho hx hc =>
    refine ⟨.construct .input, Level.input, Opening.of?_isWord hk _, rfl, ?_⟩
    simp only [List.cons_append, List.nil_append]
    rw [Level.input, run_skip, run_expect ho, run_expect hx, run_expect hc, run_pure]
  | reply hk he =>
    refine ⟨.reply, l.reply, Opening.of?_isWord hk _, rfl, ?_⟩
    rw [List.cons_append, Level.reply, run_skip, run_bind (h.expression he hrest), run_pure]
  | called he =>
    have hrun : Production.call l.expression (w ++ rest) = .ok (s, rest) :=
      call_completes h.expression he trivial
    cases he with
    | call hf ho hs hc =>
      refine ⟨.call, Production.call l.expression, ?_, rfl, hrun⟩
      simp [Opening.of?, hf]
  | lineList hx hs ho hns hc =>
    refine ⟨.lineList, Level.lineList, Opening.of?_lineList hx hs _, rfl, ?_⟩
    have hnumber : Completes
        (do let t ← expect .integer; pure (Tree.leaf .integer t.lexeme)) (Part.number.rule n)
        fun _ => True := by
      intro w e rest he _
      cases he with
      | number ht => rw [List.singleton_append, run_expect ht, run_pure]
    simp only [List.cons_append]
    rw [Level.lineList, run_skip, run_skip, run_expect ho]
    exact run_bind (listUntil_completes rfl rfl hnumber (fun _ => trivial) ⟨_, _, rfl, hc, hns⟩
      trivial)
  | alone hx =>
    refine ⟨.name, l.named, Opening.of?_name hx fun _ => hrest.mono ?_, rfl, ?_⟩
    · intro t ht
      simp [ht]
    · rw [List.singleton_append, named, run_expect hx, run_accept?_none hnot]; rfl
  | counted hx ho hop =>
    refine ⟨.name, l.named, Opening.of?_name hx fun _ => ?_, rfl, ?_⟩
    · refine (next_cons _ _ _).mpr ?_
      rw [ho]
      rintro ⟨⟩
      cases hop
    · simp only [List.cons_append]
      rw [named, run_expect hx, run_accept?_some (Option.filter_eq_some_iff.mpr ⟨ho, by simp [hop]⟩)]
      simp only [Operator.isAssignment_eq_false hop, Bool.false_eq_true, ↓reduceIte]
      rfl
  | assignment hx ho hop hline he =>
    refine ⟨.name, l.named, Opening.of?_name hx fun hl => ?_, rfl, ?_⟩
    · refine (next_cons _ _ _).mpr ?_
      rw [ho]
      rintro ⟨⟩
      exact hline hl rfl
    · simp only [List.cons_append]
      rw [named, run_expect hx, run_accept?_some (Option.filter_eq_some_iff.mpr ⟨ho, by simp [hop]⟩)]
      simp only [hop, ↓reduceIte]
      rw [run_bind (assigned_completes h he hrest), run_pure]

theorem branches_complete {γ : Type} {w : List Token} {bs : List Tree}
    (hd : Derives .branches n w bs) (hrest : Ends rest) : ∀ g : List Tree → Option Tree → γ,
      ∃ further last, bs = further ++ last.toList ∧
        l.branches g (w ++ rest) = .ok (g further last, rest) := by
  refine hd.branches_induction (P := fun w bs => ∀ g : List Tree → Option Tree → γ,
    ∃ further last, bs = further ++ last.toList ∧
      l.branches g (w ++ rest) = .ok (g further last, rest)) ?_ ?_ ?_
  · intro g
    exact ⟨[], none, rfl, branches_none g (hrest.mono fun _ ht => ht.2.2)⟩
  · intro w v e s b bs he hs hb _ ih g
    obtain ⟨further, last, rfl, hrun⟩ := ih fun further last => g (b :: further) last
    have hguarded : l.guarded .elseIfBlock (w ++ (v ++ rest)) = .ok (b, v ++ rest) :=
      guarded_completes h _ hb trivial
    refine ⟨b :: further, last, rfl, ?_⟩
    rw [List.cons_append, List.cons_append, List.append_assoc, branches_elseIf g he hs,
      run_bind hguarded, hrun]
    intro b' mid hmid
    cases hguarded.symm.trans hmid
    simp only [List.length_append]
    omega
  · intro w e list he hb g
    refine ⟨[], some (.node .elseBlock none [list]), rfl, ?_⟩
    rw [List.cons_append, branches_else g he, run_bind (h.braces hb trivial), run_pure]
    cases hb with
    | braces ho hs hc => simp [Token.isWord, ho, TokenKind.isWord]

/-- A statement is opened by its first tokens, and read to its own end. -/
theorem statementOf_complete {w : List Token} {s : Tree} (hd : Derives .statement n w [s])
    (hrest : Ends rest) : ∃ o, Opening.of? (w ++ rest) = some o ∧
      l.statementOf o (w ++ rest) = .ok (s, rest) := by
  cases hd with
  | unterminated hs =>
    obtain ⟨o, p, ho, hp, hrun⟩ := simple_complete h hs hrest.noOperator
    refine ⟨o, ho, ?_⟩
    rw [hp, terminated, run_bind hrun, run_skipIf_not (hrest.mono fun _ ht => ht.2.1), run_pure]
  | terminated hs ht =>
    obtain ⟨o, p, ho, hp, hrun⟩ := simple_complete h hs (noOperator_of_delimiter ht)
    rw [List.append_assoc, List.singleton_append]
    refine ⟨o, ho, ?_⟩
    rw [hp, terminated, run_bind hrun, run_skipIf ht, run_pure]
  | ifChain hk hb hbs =>
    rename_i b bs
    obtain ⟨further, last, rfl, hrun⟩ := branches_complete h hbs hrest
      fun further last => Tree.node .ifChain none (b :: further ++ last.toList)
    refine ⟨.construct .conditional, Opening.of?_isWord hk _, ?_⟩
    simp only [List.cons_append, List.append_assoc]
    rw [statementOf, Level.ifChain, run_skip, run_bind (guarded_completes h _ hb trivial)]
    exact hrun
  | forLoop hk ho hu hs₁ hv hs₂ hw hc hb =>
    refine ⟨.construct .forLoop, Opening.of?_isWord hk _, ?_⟩
    simp only [List.cons_append, List.append_assoc]
    rw [statementOf, Level.forLoop, run_skip, run_expect ho,
      run_bind (h.expression hu (noOperator_of_delimiter hs₁)), run_expect hs₁,
      run_bind (h.expression hv (noOperator_of_delimiter hs₂)), run_expect hs₂,
      run_bind (h.expression hw (noOperator_of_bracket hc)), run_expect hc,
      run_bind (block_complete h hb rest), run_pure]
  | whileLoop hk hs =>
    refine ⟨.construct .whileLoop, Opening.of?_isWord hk _, ?_⟩
    rw [List.cons_append, statementOf, run_skip]
    exact guarded_completes h _ hs trivial
  | switch hk hs =>
    refine ⟨.construct .switch, Opening.of?_isWord hk _, ?_⟩
    rw [List.cons_append, statementOf, run_skip]
    exact guarded_completes h _ hs trivial
  | definition hk hf ho hps hc hb =>
    refine ⟨.definition, Opening.of?_isWord hk _, ?_⟩
    simp only [List.cons_append, List.append_assoc]
    rw [statementOf, Level.definition, run_skip, run_expect hf, run_expect ho,
      run_bind (parameters_complete hps ⟨_, _, rfl, hc, trivial⟩), run_expect hc,
      run_bind (block_complete h hb rest), run_pure]
  | block hb =>
    refine ⟨.block, ?_, block_complete h hb rest⟩
    cases hb with
    | braces ho hs hc => simp [Opening.of?, ho]

theorem statement_completes : Completes l.statement (Part.statement.rule n) Ends := by
  intro w s rest hd hrest
  obtain ⟨o, ho, hrun⟩ := statementOf_complete h hd hrest
  rw [statement, run_look, ho]
  exact hrun

end Within

/-- Where no statement is opened, none is read. -/
theorem isSome_of_statement {ts : List Token} {r : Tree × List Token} (h : l.statement ts = .ok r) :
    (Opening.of? ts).isSome = true := by
  rw [statement, run_look] at h
  cases ho : Opening.of? ts with
  | some o => rfl
  | none => rw [ho] at h; cases h

end Level

namespace Production
variable {n : Nat} {p : Production Tree}

theorem statement?_none {ts : List Token} (h : Opening.of? ts = none) :
    statement? p ts = .ok (none, ts) := by
  rw [statement?, run_look, h]
  rfl

theorem statement?_some {ts : List Token} {o : Opening}
    (h : Opening.of? ts = some o) : statement? p ts = (p >>= fun s => pure (some s)) ts := by
  rw [statement?, run_look, h]
  rfl

/-- Statements are read to the last one, where no further statement is opened. -/
theorem statements_complete (h : Completes p (Part.statement.rule n) Ends)
    (hp : ∀ {ts r}, p ts = .ok r → (Opening.of? ts).isSome = true) {w rest : List Token}
    {ss : List Tree} (hd : Derives .statements n w ss) (hrest : Ends rest)
    (hno : Opening.of? rest = none) : many (statement? p) (w ++ rest) = .ok (ss, rest) := by
  have hboth : Ends (w ++ rest) ∧ many (statement? p) (w ++ rest) = .ok (ss, rest) := by
    refine hd.statements_induction (P := fun w ss => Ends (w ++ rest) ∧
      many (statement? p) (w ++ rest) = .ok (ss, rest)) ?_ ?_
    · exact ⟨hrest, many_stop (statement?_none hno)⟩
    · rintro w v s ss hs - ⟨hends, hm⟩
      have hrun := h hs hends
      obtain ⟨o, ho⟩ := Option.isSome_iff_exists.mp (hp hrun)
      rw [List.append_assoc]
      refine ⟨Opening.ends_of_of? ho, many_next ?_ ?_ hm⟩
      · rw [statement?_some ho, run_bind hrun, run_pure]
      · have := List.length_pos_iff.mpr (hs.ne_nil rfl)
        simp; omega
  exact hboth.2

theorem braced_completes (h : Completes p (Part.statement.rule n) Ends)
    (hp : ∀ {ts r}, p ts = .ok r → (Opening.of? ts).isSome = true) :
    Completes (braced p) (Part.braces.rule (n + 1)) fun _ => True := by
  intro w list rest hd _
  cases hd with
  | braces ho hs hc =>
    simp only [List.cons_append, List.append_assoc, List.nil_append]
    rw [braced, run_expect ho, run_bind (statements_complete h hp hs ?_ ?_), run_expect hc, run_pure]
    · simp [Ends, Token.operator?_eq_none_of_bracket hc, hc, Token.isWord, TokenKind.isWord]
    · simp [Opening.of?, hc]

theorem statement_completes (limit n : Nat) :
    Completes (statement limit n) (Part.statement.rule n) Ends := by
  induction n with
  | zero =>
    rw [statement_eq]
    exact Level.statement_completes
      ⟨expression_completes limit 0, arrayLiteral_completes limit 0, fun h => by cases h⟩
  | succ n ih =>
    rw [statement_eq]
    exact Level.statement_completes ⟨expression_completes limit (n + 1),
      arrayLiteral_completes limit (n + 1), braced_completes ih
        fun h => Level.isSome_of_statement (by rwa [statement_eq] at h)⟩

end Production

end SlangScript
