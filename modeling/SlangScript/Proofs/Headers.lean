import SlangScript.Proofs.Acceptance
import SlangScript.Proofs.Balance
import SlangScript.Proofs.Checked
import SlangScript.Proofs.Conformity

/-! What the grammar makes of headers, arguments and blocks that have been checked. -/
namespace SlangScript

open SlangScript.Tree

/-- What reads as an expression in front of no operator reads so in one way. -/
theorem Derives.expression_unique {n m : Nat} {w v r s : List Token} {e e' : Tree}
    (h : Derives .expression n w [e]) (h' : Derives .expression m v [e']) (hr : NoOperator r)
    (hs : NoOperator s) (heq : w ++ r = v ++ s) : e = e' ∧ r = s := by
  have hrun := Production.expression_completes 0 (max n m) (h.mono (Nat.le_max_left n m)) hr
  have hrun' := Production.expression_completes 0 (max n m) (h'.mono (Nat.le_max_right n m)) hs
  rw [heq, hrun'] at hrun
  cases hrun
  exact ⟨rfl, rfl⟩

/-- The operators that a slot for operators is open to. -/
def HeaderSlot.group? : HeaderSlot → Option (Operator → Bool)
  | comparison => some Operator.isComparison
  | assignment => some Operator.isAssignment
  | incDec => some Operator.isIncDec
  | value | semicolon => none

section Slots
variable {t : Token}

theorem value_of_accepts (h : HeaderSlot.value.accepts t.kind = true) :
    ∃ tag, Tag.ofOperand? t.kind = some tag ∧ (leaf tag t.lexeme).IsValue := by
  cases hk : t.kind with
  | integer => exact ⟨_, rfl, _, _, rfl, .inl rfl⟩
  | floatNumber => exact ⟨_, rfl, _, _, rfl, .inr (.inl rfl)⟩
  | identifier => exact ⟨_, rfl, _, _, rfl, .inr (.inr rfl)⟩
  | _ => rw [hk] at h; cases h

theorem operator_of_accepts {slot : HeaderSlot} {p : Operator → Bool} (hp : slot.group? = some p)
    (h : slot.accepts t.kind = true) : ∃ op, t.operator? = some op ∧ p op = true := by
  cases hk : t.kind with
  | operator op =>
    rw [hk] at h
    refine ⟨op, by rw [Token.operator?, hk], ?_⟩
    cases slot <;> cases hp <;> exact h
  | _ => cases slot <;> cases hp <;> rw [hk] at h <;> cases h

theorem semicolon_of_accepts (h : HeaderSlot.semicolon.accepts t.kind = true) :
    t.kind = .delimiter .semicolon := by
  cases hk : t.kind with
  | delimiter d => cases d <;> rw [hk] at h <;> first | rfl | cases h
  | _ => rw [hk] at h; cases h

end Slots

/-- Two values and an operator between them are an expression. -/
theorem joined_of_accepts {x o y : Token} {slot : HeaderSlot} {p : Operator → Bool} (n : Nat)
    (hp : slot.group? = some p) (hbinary : ∀ op, p op = true → op.isBinary = true)
    (hx : HeaderSlot.value.accepts x.kind = true) (ho : slot.accepts o.kind = true)
    (hy : HeaderSlot.value.accepts y.kind = true) :
    ∃ e, Derives .expression n [x, o, y] [e] ∧ e.IsJoined p := by
  obtain ⟨tx, htx, hvx⟩ := value_of_accepts hx
  obtain ⟨ty, hty, hvy⟩ := value_of_accepts hy
  obtain ⟨op, hop, hpo⟩ := operator_of_accepts hp ho
  have hb : o.binaryOperator? = some op := Option.filter_eq_some_iff.mpr ⟨hop, hbinary op hpo⟩
  have hd : Derives .expression n ([x] ++ o :: [y]) _ :=
    .binary (.single (.literal htx)) hb (.literal hty)
  exact ⟨_, hd, op, _, _, hpo, rfl, hvx, hvy⟩

theorem counted_of_accepts {x o : Token} (n : Nat) (hx : HeaderSlot.value.accepts x.kind = true)
    (ho : HeaderSlot.incDec.accepts o.kind = true) :
    ∃ e, Derives .expression n [x, o] [e] ∧ e.IsCounted := by
  obtain ⟨tx, htx, hvx⟩ := value_of_accepts hx
  obtain ⟨op, hop, hpo⟩ := operator_of_accepts rfl ho
  have ho : o.incDecOperator? = some op := Option.filter_eq_some_iff.mpr ⟨hop, hpo⟩
  exact ⟨_, .single (.stepped htx ho), op, _, hpo, rfl, hvx⟩

private theorem isBinary_of_isComparison (op : Operator) (h : op.isComparison = true) :
    op.isBinary = true := by
  cases op <;> first | rfl | cases h

private theorem isBinary_of_isAssignment (op : Operator) (h : op.isAssignment = true) :
    op.isBinary = true := by
  cases op <;> first | rfl | cases h

section Headers
variable {n : Nat} {u r s ps : List Token} {e : Tree} {close : Token}

theorem exists_condition (n : Nat) (hps : Fits ps [.value, .comparison, .value]) :
    ∃ e, Derives .expression n ps [e] ∧ e.IsJoined Operator.isComparison := by
  match ps, hps with
  | [x, o, y], ⟨hx, ho, hy, _⟩ => exact joined_of_accepts n rfl isBinary_of_isComparison hx ho hy

theorem exists_subject (n : Nat) (hps : Fits ps [.value]) :
    ∃ e, Derives .expression n ps [e] ∧ e.IsValue := by
  match ps, hps with
  | [x], ⟨hx, _⟩ =>
    obtain ⟨tag, htag, hv⟩ := value_of_accepts hx
    exact ⟨_, .single (.literal htag), hv⟩

theorem exists_loop (n : Nat) (hps : Fits ps [.value, .assignment, .value, .semicolon, .value,
      .comparison, .value, .semicolon, .value, .incDec]) :
    ∃ u s₁ v s₂ x start test step, ps = u ++ s₁ :: (v ++ s₂ :: x) ∧
      s₁.kind = .delimiter .semicolon ∧ s₂.kind = .delimiter .semicolon ∧
      (Derives .expression n u [start] ∧ start.IsJoined Operator.isAssignment) ∧
      (Derives .expression n v [test] ∧ test.IsJoined Operator.isComparison) ∧
      Derives .expression n x [step] ∧ step.IsCounted := by
  match ps, hps with
  | [a, o, b, t₁, a', o', b', t₂, y, i], ⟨ha, ho, hb, ht₁, ha', ho', hb', ht₂, hy, hi, _⟩ =>
    obtain ⟨start, hstart⟩ := joined_of_accepts n rfl isBinary_of_isAssignment ha ho hb
    obtain ⟨test, htest⟩ := joined_of_accepts n rfl isBinary_of_isComparison ha' ho' hb'
    obtain ⟨step, hstep⟩ := counted_of_accepts n hy hi
    exact ⟨[a, o, b], t₁, [a', o', b'], t₂, [y, i], start, test, step, rfl,
      semicolon_of_accepts ht₁, semicolon_of_accepts ht₂, hstart, htest, hstep⟩

/-- The header of a conditional or of a loop on a condition holds a comparison. -/
theorem condition_of_fits (he : Derives .expression n u [e]) (hr : NoOperator r)
    (hps : Fits ps [.value, .comparison, .value]) (hclose : close.kind = .bracket .closeParen)
    (heq : u ++ r = ps ++ close :: s) : e.IsJoined Operator.isComparison ∧ r = close :: s := by
  obtain ⟨e', hd, he'⟩ := exists_condition n hps
  obtain ⟨rfl, hrest⟩ := he.expression_unique hd hr (noOperator_of_bracket hclose) heq
  exact ⟨he', hrest⟩

/-- The header of a switch holds a value. -/
theorem subject_of_fits (he : Derives .expression n u [e]) (hr : NoOperator r)
    (hps : Fits ps [.value]) (hclose : close.kind = .bracket .closeParen)
    (heq : u ++ r = ps ++ close :: s) : e.IsValue ∧ r = close :: s := by
  obtain ⟨e', hd, he'⟩ := exists_subject n hps
  obtain ⟨rfl, hrest⟩ := he.expression_unique hd hr (noOperator_of_bracket hclose) heq
  exact ⟨he', hrest⟩

/-- The header of a counting loop holds an assignment, a comparison and a counted value. -/
theorem loop_of_fits {v x : List Token} {s₁ s₂ : Token} {start test step : Tree}
    (hu : Derives .expression n u [start]) (hs₁ : s₁.kind = .delimiter .semicolon)
    (hv : Derives .expression n v [test]) (hs₂ : s₂.kind = .delimiter .semicolon)
    (hx : Derives .expression n x [step]) (hr : NoOperator r)
    (hps : Fits ps [.value, .assignment, .value, .semicolon, .value, .comparison, .value,
      .semicolon, .value, .incDec]) (hclose : close.kind = .bracket .closeParen)
    (heq : u ++ s₁ :: (v ++ s₂ :: (x ++ r)) = ps ++ close :: s) :
    start.IsJoined Operator.isAssignment ∧ test.IsJoined Operator.isComparison ∧ step.IsCounted ∧
      r = close :: s := by
  obtain ⟨u', t₁, v', t₂, x', e₁, e₂, e₃, rfl, ht₁, ht₂, ⟨hd₁, he₁⟩, ⟨hd₂, he₂⟩, hd₃, he₃⟩ :=
    exists_loop n hps
  simp only [List.append_assoc, List.cons_append] at heq
  obtain ⟨rfl, hrest₁⟩ := hu.expression_unique hd₁ (noOperator_of_delimiter hs₁)
    (noOperator_of_delimiter ht₁) heq
  obtain ⟨rfl, hrest₂⟩ := hv.expression_unique hd₂ (noOperator_of_delimiter hs₂)
    (noOperator_of_delimiter ht₂) (List.cons.inj hrest₁).2
  obtain ⟨rfl, hrest₃⟩ := hx.expression_unique hd₃ hr (noOperator_of_bracket hclose)
    (List.cons.inj hrest₂).2
  exact ⟨he₁, he₂, he₃, hrest₃⟩

end Headers

section Blocks
variable {n : Nat} {w rest : List Token} {ts : List Tree} {list : Tree}

theorem Derives.simple_holdsMore {s : Tree} (h : Derives .simple n w [s]) : s.HoldsMore := by
  cases h with
  | called h => cases h; simp
  | _ => simp

/-- A part that leaves nothing but frames of braces is made of braces alone. -/
theorem Derives.all_isBrace {part : Part} (h : Derives part n w ts)
    (hpart : part = .braces ∨ part = .statement ∨ part = .statements)
    (hts : ∀ t ∈ ts, ¬ t.HoldsMore) : ∀ t ∈ w, t.isBrace = true := by
  induction h with
  | braces ho hs hc ih =>
    have hw := ih (by simp) (by simpa using hts)
    have ho' := Token.isBrace_of_open ho
    have hc' := Token.isBrace_of_close hc
    simpa [ho', hc', or_imp, forall_and] using hw
  | unterminated hs => exact absurd hs.simple_holdsMore (hts _ (.head _))
  | terminated hs => exact absurd hs.simple_holdsMore (hts _ (.head _))
  | block hb ih => exact ih (by simp) (by simpa using hts)
  | done => nofun
  | next hs hss ihs ihss =>
    rw [List.forall_mem_cons] at hts
    have hw := ihs (by simp) (by simpa using hts.1)
    have hv := ihss (by simp) hts.2
    intro t ht
    exact (List.mem_append.mp ht).elim (hw t) (hv t)
  | whileLoop hk hs => cases hs; simp at hts
  | switch hk hs => cases hs; simp at hts
  | _ => simp_all

/-- A checked block holds more than braces. -/
theorem Derives.holdsMore {before : Token} {after : String} (h : Derives .braces n w [list])
    (hok : checkBlock before after (w ++ rest) = .ok ()) : list.HoldsMore := by
  cases h with
  | braces ho hs hc =>
    rename_i n o c w ss
    have hopen : o.isBracket .openBrace = true := by simp [Token.isBracket, ho]
    rw [List.cons_append, checkBlock, if_pos hopen, List.append_assoc, hs.balanced.blockEnd?_append,
      List.singleton_append, blockEnd?_found hc] at hok
    refine Classical.byContradiction fun hno => ?_
    have hall := hs.all_isBrace (by simp) (by simpa using hno)
    have hany : (w.any fun t => !t.isBrace) = false := by simpa using hall
    rw [hany] at hok
    cases hok

theorem Derives.holdsMore_of_checkElse {e : Token} (h : Derives .braces n w [list])
    (hok : checkElse e (w ++ rest) = .ok ()) : list.HoldsMore := by
  have hno : (w ++ rest).head?.any (·.isWord "sus") = false := by
    cases h with
    | braces ho hs hc => simp [Token.isWord, ho, TokenKind.isWord]
  rw [checkElse, hno] at hok
  exact h.holdsMore hok

variable {tag : Tag} {t k : Token} {c : Construct} {slots : List HeaderSlot}

/-- The condition of a checked construct is what its slots make it, and its block holds more than
braces. -/
theorem Derives.guarded_of_checkConstruct {P : Tree → Prop} {t : Tree}
    (hslots : ∀ {u r ps s : List Token} {e : Tree} {close : Token}, Derives .expression n u [e] →
      NoOperator r → Fits ps slots → close.kind = .bracket .closeParen → u ++ r = ps ++ close :: s →
      P e ∧ r = close :: s)
    (h : Derives (.guarded tag) n w [t]) (hc : c.shape = some slots)
    (hok : checkConstruct k c (w ++ rest) = .ok ()) :
    ∃ e list, t = .node tag none [e, .node .block none [list]] ∧ P e ∧ list.HoldsMore := by
  obtain ⟨o, ps, close, s, heq, -, hclose, hfits, hblock⟩ := header_of_checkConstruct hc hok
  cases h with
  | guarded ho he hcl hb =>
    simp only [List.cons_append, List.append_assoc, List.cons.injEq] at heq
    obtain ⟨hP, hrest⟩ := hslots he (noOperator_of_bracket hcl) hfits hclose heq.2
    obtain ⟨-, rfl⟩ := List.cons.inj hrest
    exact ⟨_, _, rfl, hP, hb.holdsMore hblock⟩

end Blocks

namespace TokenKind
variable {kind : TokenKind}

theorem value_of_isArgument {tag : Tag} (h : Tag.ofOperand? kind = some tag)
    (harg : kind.isArgument = true) : tag = .integer ∨ tag = .floatNumber ∨ tag = .identifier := by
  cases kind <;> cases h <;> simp_all [isArgument]

theorem eq_reservedWord (hw : kind.isWord = true) (harg : kind.isArgument = true) :
    kind = .reservedWord := by
  cases kind <;> simp_all [isWord, isArgument]

end TokenKind

section Arguments
variable {n : Nat} {w r s : List Token} {t c : Token} {e : Tree} {es : List Tree}

namespace Arguments

theorem not_of_kind (h : Arguments (t :: r) c s) (hclose : t.kind ≠ .bracket .closeParen) :
    t.kind.isArgument = true ∧ Arguments r c s := by
  cases h with
  | close hc => exact absurd hc hclose
  | argument ht h => exact ⟨ht, h⟩

theorem not_operator {op : Operator} (ho : t.operator? = some op) : ¬ Arguments (t :: r) c s := by
  intro h
  have hk : t.kind = .operator op := by
    rw [Token.operator?] at ho
    split at ho <;> cases ho
    assumption
  have := (h.not_of_kind (by simp [hk])).1
  rw [hk] at this
  cases this

theorem not_bracket {b : Bracket} (hb : t.kind = .bracket b) (hne : b ≠ .closeParen) :
    ¬ Arguments (t :: r) c s := by
  intro h
  have := (h.not_of_kind (by simp [hb, hne])).1
  rw [hb] at this
  cases this

/-- The first closing parenthesis ends the arguments. -/
theorem eq_of_close (h : Arguments (t :: r) c s) (ht : t.kind = .bracket .closeParen) :
    t = c ∧ r = s := by
  cases h with
  | close hc => exact ⟨rfl, rfl⟩
  | argument harg h => rw [ht] at harg; cases harg

end Arguments

theorem Derives.operand_argument (h : Derives .operand n w [e]) (ha : Arguments (w ++ r) c s) :
    e.IsValue ∧ Arguments r c s := by
  cases h with
  | literal ht =>
    rename_i t tag
    obtain ⟨harg, hrest⟩ := Arguments.not_of_kind ha (by rintro hk; rw [hk] at ht; cases ht)
    exact ⟨⟨tag, t.lexeme, rfl, TokenKind.value_of_isArgument ht harg⟩, hrest⟩
  | stepped ht ho =>
    obtain ⟨-, hrest⟩ := Arguments.not_of_kind ha (by rintro hk; rw [hk] at ht; cases ht)
    exact absurd hrest (Arguments.not_operator (Option.filter_eq_some_iff.mp ho).1)
  | grouped ho he hc => exact absurd ha (Arguments.not_bracket ho (by simp))
  | arrayOperand harr =>
    cases harr with
    | array ho hs hc => exact absurd ha (Arguments.not_bracket ho (by simp))

/-- An expression among arguments is a single value. -/
theorem Derives.expression_argument (h : Derives .expression n w [e]) (ha : Arguments (w ++ r) c s) :
    e.IsValue ∧ Arguments r c s := by
  revert ha
  refine h.expression_induction (P := fun w e => ∀ {r}, Arguments (w ++ r) c s →
    e.IsValue ∧ Arguments r c s) (fun he => he.operand_argument) ?_
  intro w v o op l r hl ih ho hr rest ha
  rw [List.append_assoc] at ha
  exact absurd (ih ha).2 (Arguments.not_operator (Option.filter_eq_some_iff.mp ho).1)

theorem Arguments.comma (h : Arguments (t :: r) c s) (ht : t.kind = .delimiter .comma) :
    Arguments r c s := (h.not_of_kind (by simp [ht])).2

/-- The arguments of a checked call are single values. -/
theorem Derives.arguments_values (h : Derives (.listed .expression) n w es)
    (ha : Arguments (w ++ r) c s) : ∀ e ∈ es, e.IsValue := by
  cases h with
  | unlisted => simp
  | listed hs =>
    revert ha
    refine hs.separated_induction (P := fun w es => Arguments (w ++ r) c s →
      ∀ e ∈ es, e.IsValue) ?_ ?_
    · intro w e he ha
      simpa using (he.expression_argument ha).1
    · intro w v t e es he ht _ ih ha
      rw [List.append_assoc] at ha
      obtain ⟨hv, hrest⟩ := he.expression_argument ha
      exact List.forall_mem_cons.mpr ⟨hv, ih (hrest.comma ht)⟩

/-- The type of a parameter is a reserved word. -/
theorem Derives.parameter_conforming (h : Derives .parameter n w [e]) (ha : Arguments (w ++ r) c s)
    (hw : ∀ t ∈ w, t.WellSpelled) : e.Conforming ∧ Arguments r c s := by
  cases h with
  | parameter ht hx =>
    rename_i t x
    obtain ⟨harg, hrest⟩ := Arguments.not_of_kind ha (by rintro hk; rw [hk] at ht; cases ht)
    have hmem := (hw t (.head _)).2 (TokenKind.eq_reservedWord ht harg)
    exact ⟨by simp [leaf, Conforms, hmem], (hrest.not_of_kind (by simp [hx])).2⟩

theorem Derives.parameters_conforming (h : Derives .parameters n w es) (ha : Arguments (w ++ r) c s)
    (hw : ∀ t ∈ w, t.WellSpelled) : (∀ e ∈ es, e.Conforming) ∧ Arguments r c s := by
  have hsep : ∀ {w es r}, Derives (.separated .parameter) n w es → Arguments (w ++ r) c s →
      (∀ t ∈ w, t.WellSpelled) → (∀ e ∈ es, e.Conforming) ∧ Arguments r c s := by
    intro w es r hs
    refine hs.separated_induction (P := fun w es => Arguments (w ++ r) c s →
      (∀ t ∈ w, t.WellSpelled) → (∀ e ∈ es, e.Conforming) ∧ Arguments r c s) ?_ ?_
    · intro w e he ha hw
      simpa using he.parameter_conforming ha hw
    · intro w v t e es he ht _ ih ha hw
      rw [List.append_assoc] at ha
      obtain ⟨hconf, hrest⟩ := he.parameter_conforming ha fun t ht => hw t (by simp [ht])
      obtain ⟨hmore, hlast⟩ := ih (hrest.comma ht) fun t ht => hw t (by simp [ht])
      exact ⟨List.forall_mem_cons.mpr ⟨hconf, hmore⟩, hlast⟩
  cases h with
  | parameters hs =>
    cases hs with
    | unlisted => exact ⟨by simp, ha⟩
    | listed hs => exact hsep hs ha hw
  | trailingComma hs hc =>
    rw [List.append_assoc] at ha
    obtain ⟨hconf, hrest⟩ := hsep hs ha fun t ht => hw t (by simp [ht])
    exact ⟨hconf, hrest.comma hc⟩

end Arguments

end SlangScript
