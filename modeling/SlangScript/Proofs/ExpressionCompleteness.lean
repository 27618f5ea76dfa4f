import SlangScript.Proofs.ExpressionRules

/-! Whatever the grammar derives as an expression is read, to its last token and no further, where no
operator follows it. -/
namespace SlangScript

/-- The next token, if there is one, is of the sort `P`. -/
def Next (P : Token → Prop) (ts : List Token) : Prop := ∀ t ∈ ts.head?, P t

/-- No operator comes next, so that an expression ends. -/
abbrev NoOperator : List Token → Prop := Next (·.operator? = none)

/-- What comes next is no `=`. -/
abbrev NoAssign : List Token → Prop := Next (·.operator? ≠ some .assign)

/-- Neither `++` nor `--` comes next, so that an operand ends. -/
abbrev NoStep : List Token → Prop := Next (·.incDecOperator? = none)

@[simp] theorem next_nil (P : Token → Prop) : Next P [] := nofun

@[simp] theorem next_cons (P : Token → Prop) (t : Token) (ts : List Token) :
    Next P (t :: ts) ↔ P t := by simp [Next]

theorem exists_next_of_not {P : Token → Prop} {ts : List Token} (h : ¬ Next P ts) :
    ∃ t rest, ts = t :: rest ∧ ¬ P t := by
  cases ts with
  | nil => exact absurd (next_nil P) h
  | cons t rest => exact ⟨t, rest, rfl, fun ht => h ((next_cons P t rest).mpr ht)⟩

theorem Next.mono {P Q : Token → Prop} {ts : List Token} (h : Next P ts) (hPQ : ∀ t, P t → Q t) :
    Next Q ts := fun t ht => hPQ t (h t ht)

namespace Token
variable {t : Token} {op : Operator}

theorem operator?_eq_none_of_bracket {b : Bracket} (h : t.kind = .bracket b) :
    t.operator? = none := by rw [operator?, h]

theorem operator?_eq_none_of_delimiter {d : Delimiter} (h : t.kind = .delimiter d) :
    t.operator? = none := by rw [operator?, h]

theorem incDecOperator?_eq_none (h : t.operator? = none) : t.incDecOperator? = none := by
  rw [incDecOperator?, h]; rfl

theorem binaryOperator?_eq_none (h : t.operator? = none) : t.binaryOperator? = none := by
  rw [binaryOperator?, h]; rfl

/-- An operator either joins operands or follows one. -/
theorem incDecOperator?_of_binary (h : t.binaryOperator? = some op) :
    t.incDecOperator? = none := by
  obtain ⟨h, hb⟩ := Option.filter_eq_some_iff.mp h
  rw [incDecOperator?, h]
  simpa [Operator.isBinary] using hb

end Token

theorem noOperator_of_bracket {t : Token} {ts : List Token} {b : Bracket}
    (h : t.kind = .bracket b) : NoOperator (t :: ts) :=
  (next_cons _ _ _).mpr (Token.operator?_eq_none_of_bracket h)

theorem noOperator_of_delimiter {t : Token} {ts : List Token} {d : Delimiter}
    (h : t.kind = .delimiter d) : NoOperator (t :: ts) :=
  (next_cons _ _ _).mpr (Token.operator?_eq_none_of_delimiter h)

/-- A closing bracket. -/
def Bracket.closes : Bracket → Bool
  | .closeParen | .closeBracket | .closeBrace => true
  | _ => false

/-- No part of a program begins with an operator, a delimiter or a closing bracket. -/
def Token.begins (t : Token) : Bool :=
  match t.kind with
  | .operator _ | .delimiter _ => false
  | .bracket b => !b.closes
  | _ => true

theorem Token.begins_of_isWord {t : Token} (h : t.kind.isWord = true) : t.begins = true := by
  rw [begins]
  cases hk : t.kind <;> simp_all [TokenKind.isWord]

private theorem Token.begins_of_ofOperand? {t : Token} {tag : Tag} (h : Tag.ofOperand? t.kind = some tag) :
    t.begins = true := by
  rw [begins]
  cases hk : t.kind <;> simp_all [Tag.ofOperand?]

theorem Next.append {P : Token → Prop} {w v : List Token} (h : Next P w) (hw : w ≠ []) :
    Next P (w ++ v) := by
  cases w with
  | nil => exact absurd rfl hw
  | cons t w => exact h

theorem Next.of_append {P : Token → Prop} {w v : List Token} (h : Next P (w ++ v))
    (hw : w ≠ []) : Next P w := by
  cases w with
  | nil => exact absurd rfl hw
  | cons t w => exact h

theorem Derives.begins {part : Part} {n : Nat} {w : List Token} {ts : List Tree}
    (h : Derives part n w ts) (hp : part.takesToken = true) : Next (·.begins = true) w := by
  induction h with
  | literal ht => simp [Token.begins_of_ofOperand? ht]
  | stepped ht ho => simp [Token.begins_of_ofOperand? ht]
  | _ => grind [Part.takesToken, Token.begins, next_cons, Next.append, Bracket.closes,
      Token.begins_of_isWord, Derives.ne_nil, Token.declares, Token.isWord, Token.isLine]

theorem noAssign_of_begins {w : List Token} (h : Next (·.begins = true) w) : NoAssign w := by
  refine h.mono fun t ht hassign => ?_
  cases hk : t.kind <;> simp_all [Token.begins, Token.operator?]

/-- A program begins with no operator. -/
theorem Derives.statements_noAssign {n : Nat} {w : List Token} {ss : List Tree}
    (h : Derives .statements n w ss) : NoAssign w := by
  cases h with
  | done => exact next_nil _
  | next hs hss => exact noAssign_of_begins ((hs.begins rfl).append (hs.ne_nil rfl))

theorem Derives.operand_head {n : Nat} {w : List Token} {e : Tree} (h : Derives .operand n w [e]) :
    Next (·.kind ≠ .function) w := by
  cases h with
  | literal ht => simp; rintro hk; rw [hk] at ht; cases ht
  | stepped ht ho => simp; rintro hk; rw [hk] at ht; cases ht
  | grouped ho _ _ => simp [ho]
  | arrayOperand ha =>
    cases ha with
    | array ho _ _ => simp [ho]

theorem Derives.expression_head {n : Nat} {w : List Token} {e : Tree}
    (h : Derives .expression n w [e]) : Next (·.kind ≠ .function) w := by
  refine h.expression_induction (P := fun w _ => Next (·.kind ≠ .function) w)
    (fun he => he.operand_head) ?_
  intro w v o op l r hl ih _ _
  exact ih.append (hl.ne_nil rfl)

/-- The production reads all that the rule allows, where `F` holds of the tokens behind. -/
def Completes {α : Type} (p : Production α) (R : Rule α) (F : List Token → Prop) : Prop :=
  ∀ {w a rest}, R w a → F rest → p (w ++ rest) = .ok (a, rest)

namespace Production
variable {α β : Type} {n : Nat} {ts rest mid : List Token}

theorem run_expect {kind : TokenKind} {t : Token} (h : t.kind = kind) (ts : List Token)
    (f : Token → Production β) : (expect kind >>= f) (t :: ts) = f t ts :=
  run_bind (expect_eq_ok.mpr ⟨rfl, h⟩)

theorem run_accept?_some {recognise : Token → Option α} {t : Token} {a : α}
    (h : recognise t = some a) (ts : List Token) (f : Option α → Production β) :
    (accept? recognise >>= f) (t :: ts) = f (some a) ts :=
  run_bind (by rw [accept?, h])

theorem run_accept?_none {recognise : Token → Option α} (h : Next (recognise · = none) ts)
    (f : Option α → Production β) : (accept? recognise >>= f) ts = f none ts := by
  cases ts with
  | nil => rfl
  | cons t ts => exact run_bind (by rw [accept?, (next_cons _ _ _).mp h])

theorem run_skipIf {kind : TokenKind} {t : Token} (h : t.kind = kind) (ts : List Token)
    (f : Bool → Production β) : (skipIf kind >>= f) (t :: ts) = f true ts :=
  run_bind (by simp [skipIf, h])

theorem run_skipIf_not {kind : TokenKind} (h : Next (·.kind ≠ kind) ts)
    (f : Bool → Production β) : (skipIf kind >>= f) ts = f false ts := by
  cases ts with
  | nil => rfl
  | cons t ts => exact run_bind (by simp [skipIf, (next_cons _ _ _).mp h])

theorem run_atKind (kind : TokenKind) (t : Token) (ts : List Token) (f : Bool → Production β) :
    (atKind kind >>= f) (t :: ts) = f (decide (t.kind = kind)) (t :: ts) := rfl

section Repetition
variable {round : Production (Option α)} {a : α} {as : List α}

theorem many_stop (h : round ts = .ok (none, rest)) : many round ts = .ok ([], rest) := by
  rw [many, gather, h]

theorem many_cons (h : round ts = .ok (some a, mid)) (hlt : mid.length < ts.length) :
    many round ts = (many round mid).map fun r => (a :: r.1, r.2) := by
  rw [many, many, gather, h]
  simp only [hlt, ↓reduceIte]
  rcases gather round mid with ⟨items, stop⟩
  cases stop <;> rfl

theorem many_next (h : round ts = .ok (some a, mid)) (hlt : mid.length < ts.length)
    (hm : many round mid = .ok (as, rest)) : many round ts = .ok (a :: as, rest) := by
  rw [many_cons h hlt, hm]; rfl

end Repetition

private theorem literal_complete {tag : Tag} {t : Token} (h : NoStep rest) :
    literal tag t.lexeme (t :: rest) = .ok (.leaf tag t.lexeme, rest) := by
  rw [literal, run_skip, run_accept?_none h]; rfl

private theorem literal_complete_stepped {tag : Tag} {t o : Token} {op : Operator}
    (h : o.incDecOperator? = some op) (rest : List Token) :
    literal tag t.lexeme (t :: o :: rest) =
      .ok (.node .postfixOp (some op.symbol) [.leaf tag t.lexeme], rest) := by
  rw [literal, run_skip, run_accept?_some h]; rfl

private theorem operand_of_ofOperand? {group array : Production Tree} {tag : Tag} {t : Token}
    (h : Tag.ofOperand? t.kind = some tag) (ts : List Token) :
    operand group array (t :: ts) = literal tag t.lexeme (t :: ts) := by
  rw [operand, current, run_look]
  simp only [List.head?_cons]
  generalize t.kind = k at h
  cases k with
  | bracket b => cases h
  | _ => simp only [h]

theorem operand_completes {group array : Production Tree}
    (hg : ∀ {m o c w e rest}, n = m + 1 → o.kind = .bracket .openParen →
      Derives .expression m w [e] → c.kind = .bracket .closeParen →
      group (o :: (w ++ c :: rest)) = .ok (e, rest))
    (ha : Completes array (Part.array.rule n) fun _ => True) :
    Completes (operand group array) (Part.operand.rule n) NoStep := by
  intro w e rest hd hrest
  cases hd with
  | literal ht =>
    rw [List.singleton_append, operand_of_ofOperand? ht]
    exact literal_complete hrest
  | stepped ht ho => exact (operand_of_ofOperand? ht _).trans (literal_complete_stepped ho rest)
  | grouped ho he hc =>
    simp only [List.cons_append, List.append_assoc, List.nil_append]
    rw [operand, current, run_look]
    simp only [List.head?_cons, ho]
    exact hg rfl ho he hc
  | arrayOperand had =>
    rw [← ha had trivial]
    cases had with
    | array ho hs hc =>
      rw [List.cons_append, operand, current, run_look]
      simp only [List.head?_cons, ho]

/-- The operators of a chain are rounds of a repetition, and what its last operand leaves may hold
further rounds. -/
theorem chain_rounds {item : Production Tree} {round : Production (Option (Operator × Tree))}
    (h : Completes item (Part.operand.rule n) NoStep)
    (hround : ∀ {t op w r rest}, t.binaryOperator? = some op → Derives .operand n w [r] →
      NoStep rest → round (t :: (w ++ rest)) = .ok (some (op, r), rest))
    {w : List Token} {e : Tree} (hd : Derives .expression n w [e]) {rest items rest'}
    (hrest : NoStep rest) (hm : many round rest = .ok (items, rest')) :
    (do let first ← item
        let more ← many round
        pure (first.foldOperands more) : Production Tree) (w ++ rest) =
      .ok (e.foldOperands items, rest') := by
  -- Expressions grow at their right end, so what the further rounds yield stays open.
  refine hd.expression_induction (P := fun w e => ∀ {rest items}, NoStep rest →
    many round rest = .ok (items, rest') → (_ : Production Tree) (w ++ rest) =
      .ok (e.foldOperands items, rest')) ?_ ?_ hrest hm
  · intro w e he rest items hrest hm
    exact (run_bind (h he hrest)).trans (run_bind hm)
  · intro w v o op l r _ ih ho hr rest items hrest hm
    rw [List.append_assoc, List.cons_append]
    refine ih ?_ (many_next (hround ho hr hrest) ?_ hm)
    · rw [NoStep, next_cons]; exact Token.incDecOperator?_of_binary ho
    · simp only [List.length_cons, List.length_append]
      omega

theorem chain_completes {item : Production Tree}
    (h : Completes item (Part.operand.rule n) NoStep) :
    Completes (chain item) (Part.expression.rule n) NoOperator := by
  intro w e rest hd hrest
  have hstop : Next (fun t => t.binaryOperator? = none) rest :=
    hrest.mono fun _ => Token.binaryOperator?_eq_none
  rw [chain]
  refine chain_rounds h (fun ho hr hrest => ?_) hd
    (hrest.mono fun _ => Token.incDecOperator?_eq_none) (many_stop (run_accept?_none hstop _))
  rw [run_accept?_some ho]
  exact run_bind (h hr hrest)

theorem grouped_complete {inner : Production Tree}
    (h : Completes inner (Part.expression.rule n) NoOperator) {o c : Token} {w : List Token}
    {e : Tree} (hw : Derives .expression n w [e]) (hc : c.kind = .bracket .closeParen)
    (rest : List Token) : grouped inner (o :: (w ++ c :: rest)) = .ok (e, rest) := by
  rw [grouped, run_skip, run_bind (h hw (noOperator_of_bracket hc)), run_expect hc, run_pure]

/-- A list of items comes apart into the first one and the rounds behind it. -/
theorem separated_split {item : Part} (round : Production (Option Tree)) {F : List Token → Prop}
    (hround : ∀ {c u e rest}, c.kind = .delimiter .comma → Derives item n u [e] → F rest →
      round (c :: (u ++ rest)) = .ok (some e, rest))
    (hF : ∀ {c ts}, c.kind = .delimiter .comma → F (c :: ts)) {w : List Token} {es : List Tree}
    (h : Derives (.separated item) n w es) :
    ∃ u e v more, w = u ++ v ∧ es = e :: more ∧ Derives item n u [e] ∧
      ∀ {rest rest'}, F rest → many round rest = .ok ([], rest') →
        F (v ++ rest) ∧ many round (v ++ rest) = .ok (more, rest') := by
  refine h.separated_induction (P := fun w es => ∃ u e v more, w = u ++ v ∧ es = e :: more ∧
    Derives item n u [e] ∧ ∀ {rest rest'}, F rest → many round rest = .ok ([], rest') →
      F (v ++ rest) ∧ many round (v ++ rest) = .ok (more, rest')) ?_ ?_
  · intro w e he
    exact ⟨w, e, [], [], by simp, rfl, he, fun hF hm => ⟨hF, hm⟩⟩
  · rintro w _ c e _ he hc _ ⟨u, a, v, more, rfl, rfl, ha, ih⟩
    refine ⟨w, e, c :: (u ++ v), a :: more, rfl, rfl, he, fun {rest rest'} hrest hm => ⟨hF hc, ?_⟩⟩
    obtain ⟨hv, hmore⟩ := ih hrest hm
    have hr : round (c :: (u ++ (v ++ rest))) = .ok (some a, v ++ rest) := hround hc ha hv
    simp only [List.cons_append, List.append_assoc]
    refine many_next hr ?_ hmore
    simp only [List.length_cons, List.length_append]
    omega

theorem commaSeparated_completes {item : Part} {p : Production Tree} {F : List Token → Prop}
    (h : Completes p (item.rule n) F) (hF : ∀ {c ts}, c.kind = .delimiter .comma → F (c :: ts)) :
    Completes (commaSeparated p) (Derives (.separated item) n)
      fun ts => F ts ∧ Next (·.kind ≠ .delimiter .comma) ts := by
  rintro w es rest hd ⟨hrest, hcomma⟩
  obtain ⟨u, e, v, more, rfl, rfl, he, hmore⟩ := separated_split (do
      if ← skipIf (.delimiter .comma) then do let next ← p; pure (some next) else pure none)
    (fun hc he hF => by rw [run_skipIf hc]; exact run_bind (h he hF)) hF hd
  obtain ⟨hv, hm⟩ := hmore hrest (many_stop (run_skipIf_not hcomma _))
  rw [List.append_assoc, commaSeparated, run_bind (h he hv), run_bind hm]; rfl

theorem listUntil_completes {item : Part} {close : Bracket} {p : Production Tree}
    {F : List Token → Prop} (hclose : close.closes = true) (hitem : item.takesToken = true)
    (h : Completes p (item.rule n) F) (hF : ∀ {t ts}, t.operator? = none → F (t :: ts)) :
    Completes (listUntil close p) (fun w es => ∃ v c, w = v ++ [c] ∧ c.kind = .bracket close ∧
      Derives (.listed item) n v es) fun _ => True := by
  rintro _ es rest ⟨v, c, rfl, hc, hv⟩ -
  have hno : c.operator? = none := Token.operator?_eq_none_of_bracket hc
  rw [listUntil_eq, List.append_assoc, List.singleton_append]
  cases hv with
  | unlisted =>
    rw [List.nil_append, run_atKind, decide_eq_true hc]
    exact run_expect hc rest _
  | listed hs =>
    obtain ⟨t, ts, rfl⟩ := List.exists_cons_of_ne_nil (hs.ne_nil hitem)
    have ht : t.kind ≠ .bracket close := by
      have := (next_cons _ _ _).mp (hs.begins hitem)
      rintro hk
      simp [Token.begins, hk, hclose] at this
    rw [List.cons_append, run_atKind, decide_eq_false ht]
    have hitems := commaSeparated_completes h
      (fun hd => hF (Token.operator?_eq_none_of_delimiter hd)) hs ⟨hF hno, (next_cons _ c rest).mpr (by simp [hc])⟩
    exact (run_bind hitems).trans (run_expect hc rest _)

section Nested
variable {inner : Production Tree} (h : Completes inner (Part.expression.rule n) NoOperator)
include h

theorem call_completes : Completes (call inner) (Part.call.rule n) fun _ => True := by
  intro w e rest hd _
  cases hd with
  | call hf ho hs hc =>
    rw [call, List.cons_append, List.cons_append, run_expect hf, run_expect ho]
    exact run_bind (listUntil_completes rfl rfl h (fun ht => (next_cons _ _ _).mpr ht)
      ⟨_, _, rfl, hc, hs⟩ trivial)

theorem element_completes : Completes (element inner) (Part.element.rule n) NoOperator := by
  intro w e rest hd hrest
  cases hd with
  | callElement hcall =>
    rw [← call_completes h hcall trivial]
    cases hcall with
    | call hf ho hs hc => rw [element, List.cons_append, run_atKind, decide_eq_true hf]; rfl
  | expressionElement he =>
    rw [← h he hrest]
    obtain ⟨t, ts, rfl⟩ := List.exists_cons_of_ne_nil (he.ne_nil rfl)
    have hno := (next_cons _ _ _).mp he.expression_head
    rw [element, List.cons_append, run_atKind, decide_eq_false hno]
    rfl

theorem arrayOf_completes :
    Completes (arrayOf inner) (Part.array.rule (n + 1)) fun _ => True := by
  intro w e rest hd _
  cases hd with
  | array ho hs hc =>
    rw [arrayOf, List.cons_append, run_expect ho]
    exact run_bind (listUntil_completes rfl rfl (element_completes h)
      (fun ht => (next_cons _ _ _).mpr ht) ⟨_, _, rfl, hc, hs⟩ trivial)

end Nested

theorem expression_completes (limit n : Nat) :
    Completes (expression limit n) (Part.expression.rule n) NoOperator := by
  induction n with
  | zero =>
    refine chain_completes (operand_completes ?_ ?_)
    · intro m _ _ _ _ _ hm; cases hm
    · intro w a _ ha; cases ha
  | succ n ih =>
    refine chain_completes (operand_completes ?_ (arrayOf_completes ih))
    · intro m o c w e rest hm _ hw hc
      cases hm
      exact grouped_complete ih hw hc rest

theorem arrayLiteral_completes (limit n : Nat) :
    Completes (arrayLiteral limit n) (Part.array.rule n) fun _ => True := by
  cases n with
  | zero => intro w a _ ha; cases ha
  | succ n => exact arrayOf_completes (expression_completes limit n)

end Production

end SlangScript
