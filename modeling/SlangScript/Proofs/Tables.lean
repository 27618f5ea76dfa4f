import SlangScript.Analysis
import SlangScript.Proofs.Headers

/-! The trees of accepted texts: every node, at any depth, holds what the tables of the checks allow. -/
namespace SlangScript

open SlangScript.Tree

/-- The parts whose trees conform wherever they stand. Parameters do so in the header of a function
only. -/
def Part.isChecked : Part → Bool
  | .parameter | .parameters => false
  | .separated item | .listed item => item = .expression || item = .element || item = .number
  | _ => true

/-- The trees of a part, without a node whose head stands before the part. -/
def Part.within : Part → List Tree → List Tree
  | .guarded _, ts => ts.flatMap children
  | _, ts => ts

private theorem body_of_holdsMore {list : Tree} (h : list.HoldsMore) : (node .block none [list]).IsBody :=
  ⟨rfl, by simpa using h⟩

private theorem conforming_operand {kind : TokenKind} {tag : Tag} {text : String}
    (h : Tag.ofOperand? kind = some tag) : (leaf tag text).Conforming := by
  cases kind <;> cases h <;> simp [leaf, Conforms]

private theorem Part.within_item {item : Part} (h : (Part.separated item).isChecked = true)
    (ts : List Tree) : item.isChecked = true ∧ item.within ts = ts := by
  simp only [isChecked, Bool.or_eq_true, decide_eq_true_eq] at h
  rcases h with (rfl | rfl) | rfl <;> exact ⟨rfl, rfl⟩

/-- A node conforms with its children where it does so by itself. -/
private theorem guarded_conforming {tag : Tag} {t : Tree}
    (hwithin : ∀ s ∈ (Part.guarded tag).within [t], s.Conforming) (h : t.Conforms) :
    t.Conforming := by
  cases t with
  | node tag value cs =>
    have hcs : ∀ c ∈ cs, c.Conforming := by simpa [Part.within, children] using hwithin
    exact (conforming_node _ _ _).mpr ⟨h, hcs⟩

theorem Checked.conditional {k : Token} {c : Construct} {w rest : List Token} {n : Nat} {tag : Tag}
    {t : Tree} (h : Checked (k :: (w ++ rest))) (hk : k.isWord c.keyword = true)
    (hc : c.shape = some [.value, .comparison, .value]) (hd : Derives (.guarded tag) n w [t]) :
    ∃ e list, t = .node tag none [e, .node .block none [list]] ∧
      e.IsJoined Operator.isComparison ∧ list.HoldsMore :=
  hd.guarded_of_checkConstruct condition_of_fits hc (h.construct hk)

/-- What the grammar derives from checked tokens conforms, whatever stands behind it. -/
theorem Derives.conforming {part : Part} {n : Nat} {w : List Token} {ts : List Tree}
    (h : Derives part n w ts) (hpart : part.isChecked = true) (rest : List Token)
    (hw : Checked (w ++ rest)) : ∀ t ∈ part.within ts, t.Conforming := by
  induction h generalizing rest with
  | literal ht =>
    simpa [Part.within] using conforming_operand ht
  | stepped ht ho =>
    simpa [Part.within, Conforms] using conforming_operand ht
  | grouped ho he hc ih =>
    rename_i n o c w e
    exact ih rfl (c :: rest) (hw.of_suffix ⟨[o], by simp⟩)
  | arrayOperand ha ih => exact ih rfl rest hw
  | single he ih => exact ih rfl rest hw
  | binary hl ho hr ihl ihr =>
    rename_i n o w v l r op
    have hl := ihl rfl (o :: (v ++ rest)) (by simpa using hw)
    have hr := ihr rfl rest (hw.of_suffix ⟨w ++ [o], by simp⟩)
    simpa [Part.within, Tree.binary, Conforms] using And.intro hl hr
  | call hf ho hs hc ih =>
    rename_i n f o c w es
    obtain ⟨o', inside, c', s, heq, harg⟩ := Checked.arguments hw hf
    simp only [List.append_eq, List.cons_append, List.append_assoc, List.cons.injEq] at heq
    obtain ⟨-, rfl⟩ := heq
    have hvalues := hs.arguments_values harg
    simpa [Part.within, Conforms] using ⟨hvalues, fun e he => (hvalues e he).conforming⟩
  | callElement he ih => exact ih rfl rest hw
  | expressionElement he ih => exact ih rfl rest hw
  | array ho hs hc ih =>
    rename_i n o c w es
    have hes := ih rfl (c :: rest) (hw.of_suffix ⟨[o], by simp⟩)
    simpa [Part.within, Conforms] using hes
  | number ht => simp [Part.within, leaf, Conforms]
  | parameter | parameters | trailingComma => cases hpart
  | one he ih =>
    rename_i n item w e
    obtain ⟨hitem, hwithin⟩ := Part.within_item hpart [e]
    exact hwithin ▸ ih hitem rest hw
  | more he hc hs ihe ihs =>
    rename_i n item c w v e es
    obtain ⟨hitem, hwithin⟩ := Part.within_item hpart [e]
    have he := hwithin ▸ ihe hitem (c :: (v ++ rest)) (by simpa using hw)
    have hes := ihs hpart rest (hw.of_suffix ⟨w ++ [c], by simp⟩)
    exact List.forall_mem_cons.mpr ⟨by simpa using he, hes⟩
  | unlisted => simp [Part.within]
  | listed hs ih => exact ih hpart rest hw
  | braces ho hs hc ih =>
    rename_i n o c w ss
    have hss := ih rfl (c :: rest) (hw.of_suffix ⟨[o], by simp⟩)
    simpa [Part.within, Conforms] using hss
  | guarded ho he hc hb ihe ihb =>
    rename_i n tag o c w b e list
    have he := ihe rfl (c :: (b ++ rest)) (hw.of_suffix ⟨[o], by simp⟩)
    have hlist := ihb rfl rest (hw.of_suffix ⟨o :: (w ++ [c]), by simp⟩)
    simpa [Part.within, Conforms, children] using And.intro he hlist
  | unbranched => simp [Part.within]
  | elseIf he hs hb hbs ihb ihbs =>
    rename_i n e s w v b bs
    have hb' := ihb rfl (v ++ rest) (hw.of_suffix ⟨[e, s], by simp⟩)
    have hbs := ihbs rfl rest (hw.of_suffix ⟨e :: s :: w, by simp⟩)
    have hchecked : Checked (s :: (w ++ (v ++ rest))) := hw.of_suffix ⟨[e], by simp⟩
    obtain ⟨c, list, rfl, hc, hlist⟩ := hchecked.conditional (c := .conditional) hs rfl hb
    exact List.forall_mem_cons.mpr
      ⟨guarded_conforming hb' ⟨c, _, rfl, hc, body_of_holdsMore hlist⟩, hbs⟩
  | elseBlock he hb ih =>
    rename_i n e w list
    have hlist := ih rfl rest (hw.of_suffix ⟨[e], by simp⟩)
    have hmore := hb.holdsMore_of_checkElse (Checked.checkElse hw he)
    simpa [Part.within, Conforms] using And.intro hmore hlist
  | assignedArray ha ih => exact ih rfl rest hw
  | assignedExpression he hno ih => exact ih rfl rest hw
  | declaration hk hx => simp [Part.within, leaf, Conforms]
  | initialised hk hx ho hop he ih =>
    rename_i n k x o op w e
    have he := ih rfl rest (hw.of_suffix ⟨[k, x, o], by simp⟩)
    simpa [Part.within, leaf, Conforms] using he
  | print hk ho he hc ih =>
    rename_i n k o c w e
    have he := ih rfl (c :: rest) (hw.of_suffix ⟨[k, o], by simp⟩)
    simpa [Part.within, Conforms] using he
  | input hk ho hx hc => simp [Part.within, leaf, Conforms]
  | reply hk he ih =>
    rename_i n k w e
    have he := ih rfl rest (hw.of_suffix ⟨[k], by simp⟩)
    simpa [Part.within, Conforms] using he
  | called he ih => exact ih rfl rest hw
  | lineList hx hs ho hns hc ih =>
    rename_i n x s o c w ns
    have hns := ih rfl (c :: rest) (hw.of_suffix ⟨[x, s, o], by simp⟩)
    simpa [Part.within, Conforms] using hns
  | alone hx => simp [Part.within, leaf, Conforms]
  | counted hx ho hop => simp [Part.within, leaf, Conforms]
  | assignment hx ho hop hline he ih =>
    rename_i n x o op w e
    have he := ih rfl rest (hw.of_suffix ⟨[x, o], by simp⟩)
    simpa [Part.within, leaf, Conforms] using he
  | unterminated hs ih => exact ih rfl rest hw
  | terminated hs ht ih =>
    rename_i n t w s
    exact ih rfl (t :: rest) (by simpa using hw)
  | ifChain hk hb hbs ihb ihbs =>
    rename_i n k w v b bs
    have hb' := ihb rfl (v ++ rest) (hw.of_suffix ⟨[k], by simp⟩)
    have hbs := ihbs rfl rest (hw.of_suffix ⟨k :: w, by simp⟩)
    have hchecked : Checked (k :: (w ++ (v ++ rest))) := by simpa using hw
    obtain ⟨c, list, rfl, hc, hlist⟩ := hchecked.conditional (c := .conditional) hk rfl hb
    have hfirst := guarded_conforming hb' ⟨c, _, rfl, hc, body_of_holdsMore hlist⟩
    exact List.forall_mem_singleton.mpr ((conforming_node _ _ _).mpr
      ⟨trivial, List.forall_mem_cons.mpr ⟨hfirst, hbs⟩⟩)
  | forLoop hk ho hu hs₁ hv hs₂ hx hc hb ihu ihv ihx ihb =>
    rename_i n k o s₁ s₂ c u v x b start test step list
    have hu' := ihu rfl (s₁ :: (v ++ s₂ :: (x ++ c :: (b ++ rest))))
      (hw.of_suffix ⟨[k, o], by simp⟩)
    have hv' := ihv rfl (s₂ :: (x ++ c :: (b ++ rest)))
      (hw.of_suffix ⟨k :: o :: (u ++ [s₁]), by simp⟩)
    have hx' := ihx rfl (c :: (b ++ rest))
      (hw.of_suffix ⟨k :: o :: (u ++ s₁ :: (v ++ [s₂])), by simp⟩)
    have hlist := ihb rfl rest
      (hw.of_suffix ⟨k :: o :: (u ++ s₁ :: (v ++ s₂ :: (x ++ [c]))), by simp⟩)
    obtain ⟨o', ps, close, s, heq, -, hclose, hfits, hblock⟩ :=
      header_of_checkConstruct (c := .forLoop) rfl (Checked.construct hw hk)
    simp only [List.append_eq, List.cons_append, List.append_assoc, List.cons.injEq] at heq
    obtain ⟨hstart, htest, hstep, hrest⟩ :=
      loop_of_fits hu hs₁ hv hs₂ hx (noOperator_of_bracket hc) hfits hclose heq.2
    obtain ⟨-, rfl⟩ := List.cons.inj hrest
    have hbody := body_of_holdsMore (hb.holdsMore hblock)
    refine List.forall_mem_singleton.mpr ((conforming_node _ _ _).mpr
      ⟨⟨start, test, step, _, rfl, hstart, htest, hstep, hbody⟩, ?_⟩)
    simpa [Part.within, Conforms] using And.intro hu' (And.intro hv' (And.intro hx' hlist))
  | whileLoop hk hs ih =>
    rename_i n k w s
    have hs' := ih rfl rest (hw.of_suffix ⟨[k], by simp⟩)
    have hchecked : Checked (k :: (w ++ rest)) := hw
    obtain ⟨c, list, rfl, hc, hlist⟩ := hchecked.conditional (c := .whileLoop) hk rfl hs
    exact List.forall_mem_singleton.mpr
      (guarded_conforming hs' ⟨c, _, rfl, hc, body_of_holdsMore hlist⟩)
  | switch hk hs ih =>
    rename_i n k w s
    have hs' := ih rfl rest (hw.of_suffix ⟨[k], by simp⟩)
    have hok := Checked.construct (c := .switch) hw hk
    obtain ⟨v, list, rfl, hv, hlist⟩ := hs.guarded_of_checkConstruct subject_of_fits rfl hok
    exact List.forall_mem_singleton.mpr
      (guarded_conforming hs' ⟨v, _, rfl, hv, body_of_holdsMore hlist⟩)
  | definition hk hf ho hps hc hb ihps ihb =>
    rename_i n k f o c w b ps list
    have hlist := ihb rfl rest (hw.of_suffix ⟨k :: f :: o :: (w ++ [c]), by simp⟩)
    obtain ⟨o', inside, c', s, heq, harg, hblock⟩ := Checked.definition hw hk hf
    simp only [List.append_eq, List.cons_append, List.append_assoc, List.cons.injEq] at heq
    obtain ⟨-, rfl⟩ := heq
    -- The check ends at the first closing parenthesis, and parameters hold none.
    obtain ⟨hparams, hrest⟩ :=
      hps.parameters_conforming harg fun t ht => hw.spelled t (by simp [ht])
    obtain ⟨rfl, rfl⟩ := hrest.eq_of_close hc
    have hbody := body_of_holdsMore (hb.holdsMore hblock)
    refine List.forall_mem_singleton.mpr ((conforming_node _ _ _).mpr ⟨⟨_, _, rfl, hbody⟩, ?_⟩)
    simpa [Part.within, Conforms] using And.intro hparams hlist
  | block hb ih =>
    have hlist := ih rfl rest hw
    simpa [Part.within, Conforms] using hlist
  | done => simp [Part.within]
  | next hs hss ihs ihss =>
    rename_i n w v s ss
    have hs := ihs rfl (v ++ rest) (by simpa using hw)
    have hss := ihss rfl rest (hw.of_suffix ⟨w, by simp⟩)
    simpa [Part.within] using And.intro hs hss

theorem exists_ok_of_any {ε α : Type} {x : Except ε α} {p : α → Bool}
    (h : x.toOption.any p = true) : ∃ a, x = .ok a ∧ p a = true := by
  cases x with
  | error => cases h
  | ok a => exact ⟨a, rfl, h⟩

/-- A text has token lines when its lexemes pass the checks. -/
theorem lex_eq_ok_iff {source : String} {lines : List TokenLine} : lex source = .ok lines ↔
    tokenize source = .ok lines ∧
      checkTokens lines.length none (TokenLine.flatten lines) = .ok () := by
  rw [lex]
  cases tokenize source with
  | error e => simp [bind, Except.bind]
  | ok lines' =>
    simp only [bind, Except.bind, validate, Except.ok.injEq]
    cases hc : checkTokens lines'.length none (TokenLine.flatten lines') with
    | error e =>
      refine iff_of_false nofun ?_
      rintro ⟨rfl, hok⟩
      rw [hc] at hok
      cases hok
    | ok =>
      simp only [Except.ok.injEq]
      refine ⟨?_, And.left⟩
      rintro rfl
      exact ⟨rfl, hc⟩

/-- A text is accepted when its token lines are parsed without an error. -/
theorem analyze_eq_ok_iff {source : String} {a : Analysis} : analyze source = .ok a ↔
    lex source = .ok a.lines ∧ (parse (TokenLine.flatten a.lines)).errors = [] ∧
      a.tree = (parse (TokenLine.flatten a.lines)).tree := by
  rw [analyze]
  cases lex source with
  | error e => simp
  | ok lines =>
    simp only [analyzeLines, ParseOutcome.isSuccess, ParseOutcome.errorCount, List.length_eq_zero_iff,
      decide_eq_true_eq, Except.ok.injEq]
    constructor
    · intro h
      split at h
      · rename_i hsuccess
        cases h
        exact ⟨rfl, hsuccess, rfl⟩
      · cases h
    · obtain ⟨lines', tree⟩ := a
      rintro ⟨rfl, herrors, htree⟩
      dsimp only at herrors htree
      rw [if_pos herrors, ← htree]

/-- The tokens of an accepted text pass the checks and are parsed without an error. -/
theorem analyze_eq_ok {source : String} {a : Analysis} (h : analyze source = .ok a) :
    Checked (TokenLine.flatten a.lines) ∧ (parse (TokenLine.flatten a.lines)).errors = [] ∧
      a.tree = (parse (TokenLine.flatten a.lines)).tree := by
  obtain ⟨hlex, hparse⟩ := analyze_eq_ok_iff.mp h
  obtain ⟨htokens, hchecks⟩ := lex_eq_ok_iff.mp hlex
  exact ⟨⟨_, _, hchecks, tokenize_spelled htokens⟩, hparse⟩

/-- Every node in the tree of an accepted text holds what the tables allow: comparisons of values in
conditions, values in the headers of switches and in calls, the three parts of a counting loop, reserved
words as types, and more than braces in every block that belongs to a head. -/
theorem analyze_conforms {source : String} {a : Analysis} (h : analyze source = .ok a) :
    ∀ t ∈ a.tree.subtrees, t.Conforms := by
  obtain ⟨hchecked, herrors, htree⟩ := analyze_eq_ok h
  obtain ⟨ss, -, hd, hprogram⟩ := derives_of_parse herrors
  have hss := hd.conforming rfl [] (by simpa using hchecked)
  rw [htree, hprogram]
  exact (conforming_node _ _ _).mpr ⟨trivial, by simpa [Part.within, Conforms] using hss⟩

theorem analyze_conforms_conditional :
    ∃ a, analyze "sus (a == 1) \x7b f(a, 2); \x7d" = .ok a ∧ ∀ t ∈ a.tree.subtrees, t.Conforms := by
  have hok : (analyze "sus (a == 1) \x7b f(a, 2); \x7d").toOption.isSome = true := by decide +kernel
  obtain ⟨a, ha⟩ : ∃ a, analyze "sus (a == 1) \x7b f(a, 2); \x7d" = .ok a := by
    cases h : analyze "sus (a == 1) \x7b f(a, 2); \x7d" with
    | ok a => exact ⟨a, rfl⟩
    | error e => rw [h] at hok; cases hok
  exact ⟨a, ha, analyze_conforms ha⟩

end SlangScript
