import Mathlib.Data.List.Forall2
import SlangScript.Proofs.Heads
import SlangScript.Proofs.Tables
import SlangScript.Proofs.TreeShape

/-! The parameters of function definitions, and the commas between them. One comma may stand behind the
last parameter, which the rule for parameter lists does not provide for. -/
namespace SlangScript

open SlangScript.Tree

/-- The tokens between the parentheses of a definition that begins here. -/
def definitionHeader? : List Token → Option (List Token)
  | k :: f :: o :: rest =>
    if k.isWord "trend" ∧ f.kind = .function ∧ o.kind = .bracket .openParen then
      some (rest.takeWhile fun t => !t.isBracket .closeParen)
    else none
  | _ => none

/-- The tokens between the parentheses of each definition, in order. -/
def parameterLists : List Token → List (List Token)
  | [] => []
  | t :: rest => (definitionHeader? (t :: rest)).toList ++ parameterLists rest

/-- The number of commas. -/
def commas (ts : List Token) : Nat := ts.countP (·.isDelimiter .comma)

/-- The tokens end in a comma. -/
def EndsInComma (ts : List Token) : Prop := ∃ c ∈ ts.getLast?, c.kind = .delimiter .comma

instance (ts : List Token) : Decidable (EndsInComma ts) :=
  decidable_of_iff (ts.getLast?.any (·.isDelimiter .comma) = true) (by
    simp [EndsInComma, Token.isDelimiter, Option.any_eq_true])

namespace Tree

/-- The definitions of functions in the tree, each before those in its body. -/
def definitions (t : Tree) : List Tree := t.subtrees.filter (·.tag = .functionDef)

/-- The parameters of a definition. -/
def params (definition : Tree) : List Tree :=
  ((definition.child? 0).elim [] children).filter (·.tag = .param)

end Tree

/-- The node is that of a definition with these tokens between its parentheses. -/
def DefinedBy (ts : List Token) (d : Tree) : Prop :=
  ∃ n name ps body, d = .node .functionDef name [.node .paramList none ps, body] ∧
    Derives .parameters n ts ps

section Words
variable {t x k f o c : Token} {w v : List Token}

theorem not_trend_of_kind {kind : TokenKind} (h : t.kind = kind) (hk : kind.isWord = false) :
    t.isWord "trend" = false := by
  simp [Token.isWord, h, hk]

theorem not_trend_of_operator {op : Operator} (h : t.operator? = some op) :
    t.isWord "trend" = false := not_trend_of_kind (Token.operator?_eq_some_iff.mp h) rfl

theorem not_trend_of_operand {tag : Tag} (h : Tag.ofOperand? t.kind = some tag) :
    t.isWord "trend" = false := not_trend_of_kind rfl (Tag.not_isWord_of_ofOperand? h)

theorem not_trend_of_isWord {word : String} (h : t.isWord word = true) (hword : word ≠ "trend") :
    t.isWord "trend" = false :=
  Bool.eq_false_iff.mpr fun htrend => hword (Token.isWord_inj h htrend)

theorem not_trend_of_declares (h : t.declares) : t.isWord "trend" = false := by
  have hself : t.isWord t.lexeme = true := by simp [Token.isWord, h.1]
  refine not_trend_of_isWord hself fun htrend => ?_
  have hword := h.2
  rw [htrend] at hword
  cases hword

theorem parameterLists_cons (ht : t.isWord "trend" = false) :
    parameterLists (t :: w) = parameterLists w := by
  have hnone : definitionHeader? (t :: w) = none := by
    rw [definitionHeader?.eq_def]
    split
    · rename_i heq
      obtain ⟨rfl, -⟩ := List.cons.inj heq
      simp [ht]
    · rfl
  rw [parameterLists, hnone]
  rfl

/-- A word in front of a name begins no definition. -/
theorem parameterLists_name (hx : x.kind = .identifier) :
    parameterLists (t :: x :: w) = parameterLists w := by
  have hnone : definitionHeader? (t :: x :: w) = none := by
    cases w <;> simp [definitionHeader?, hx]
  rw [parameterLists, hnone, parameterLists_cons (not_trend_of_kind hx rfl)]
  rfl

theorem parameterLists_definition (hk : k.isWord "trend" = true) (hf : f.kind = .function)
    (ho : o.kind = .bracket .openParen) (hw : ∀ t ∈ w, t.kind ≠ .bracket .closeParen)
    (hc : c.kind = .bracket .closeParen) :
    parameterLists (k :: f :: o :: (w ++ c :: v)) = w :: parameterLists (w ++ c :: v) := by
  have hopen : ∀ t ∈ w, (!t.isBracket .closeParen) = true := by simpa [Token.isBracket] using hw
  have hclose : (!c.isBracket .closeParen) = false := by simp [Token.isBracket, hc]
  have hheader : definitionHeader? (k :: f :: o :: (w ++ c :: v)) = some w := by
    rw [definitionHeader?, if_pos ⟨hk, hf, ho⟩, List.takeWhile_append_of_pos hopen,
      List.takeWhile_cons_of_neg (by simp [hclose]), List.append_nil]
  rw [parameterLists, hheader, parameterLists_cons (not_trend_of_kind hf rfl),
    parameterLists_cons (not_trend_of_kind ho rfl)]
  rfl

end Words

/-- The definitions among the tokens are those of the trees, and they end where the tokens do. -/
structure Defines (w : List Token) (ts : List Tree) : Prop where
  apart : ∀ v, parameterLists (w ++ v) = parameterLists w ++ parameterLists v
  defined : List.Forall₂ DefinedBy (parameterLists w)
    ((subtreesOfAll ts).filter (·.tag = .functionDef))

namespace Defines
variable {n : Nat} {t x k f o c : Token} {w v b : List Token} {ts us ps : List Tree} {list : Tree}
  {tag : Tag} {value : Option String}

theorem nil : Defines [] [] := ⟨fun _ => rfl, .nil⟩

theorem append (h : Defines w ts) (h' : Defines v us) : Defines (w ++ v) (ts ++ us) where
  apart u := by rw [List.append_assoc, h.apart, h'.apart, h.apart, List.append_assoc]
  defined := by
    rw [h.apart, Tree.subtreesOfAll_append, List.filter_append]
    exact List.rel_append h.defined h'.defined

theorem cons (ht : t.isWord "trend" = false) (h : Defines w ts) : Defines (t :: w) ts where
  apart u := by rw [List.cons_append, parameterLists_cons ht, h.apart, parameterLists_cons ht]
  defined := by
    rw [parameterLists_cons ht]
    exact h.defined

theorem snoc (h : Defines w ts) (ht : t.isWord "trend" = false) : Defines (w ++ [t]) ts := by
  simpa using h.append (.cons ht .nil)

theorem typed (hx : x.kind = .identifier) : Defines [t, x] [] where
  apart u := by
    rw [parameterLists_name hx]
    exact parameterLists_name hx
  defined := by
    rw [parameterLists_name hx]
    exact .nil

theorem node (htag : tag ≠ .functionDef) (h : Defines w ts) : Defines w [.node tag value ts] where
  apart := h.apart
  defined := by simpa [htag] using h.defined

theorem leaf {text : String} (htag : tag ≠ .functionDef) (h : Defines w ts) :
    Defines w (.leaf tag text :: ts) where
  apart := h.apart
  defined := by simpa [Tree.leaf, htag] using h.defined

theorem definition (hk : k.isWord "trend" = true) (hf : f.kind = .function)
    (ho : o.kind = .bracket .openParen) (hps : Derives .parameters n w ps)
    (hc : c.kind = .bracket .closeParen) (hw : Defines w ps) (hb : Defines b [list]) :
    Defines (k :: f :: o :: (w ++ c :: b))
      [.node .functionDef (some f.lexeme) [.node .paramList none ps, .node .block none [list]]] := by
  have hlists (v : List Token) : parameterLists (k :: f :: o :: (w ++ c :: (b ++ v))) =
      w :: (parameterLists w ++ (parameterLists b ++ parameterLists v)) := by
    rw [parameterLists_definition hk hf ho hps.parameters_open hc, hw.apart,
      parameterLists_cons (not_trend_of_kind hc rfl), hb.apart]
  have hall := hlists []
  rw [List.append_nil, parameterLists, List.append_nil] at hall
  refine ⟨fun v => ?_, ?_⟩
  · simpa [hall] using hlists v
  · rw [hall]
    have hbody : List.Forall₂ DefinedBy (parameterLists b)
        (list.subtrees.filter (·.tag = .functionDef)) := by simpa using hb.defined
    simpa using ⟨⟨n, _, ps, _, rfl, hps⟩, List.rel_append hw.defined hbody⟩

end Defines

theorem ne_functionDef_of_operand {kind : TokenKind} {tag : Tag} (h : Tag.ofOperand? kind = some tag) :
    tag ≠ .functionDef := by
  rintro rfl
  cases kind <;> cases h

theorem ne_functionDef_of_guards {tag : Tag} (h : tag ∈ Tag.guards) : tag ≠ .functionDef := by
  rintro rfl
  revert h
  decide

/-- What the grammar derives from the tokens has the definitions that are among these. -/
theorem Derives.defines {part : Part} {n : Nat} {w : List Token} {ts : List Tree}
    (h : Derives part n w ts) (hpart : part.isUsed = true) : Defines w ts := by
  have operator {o : Token} {op : Operator} {p : Operator → Bool}
      (ho : o.operator?.filter p = some op) : o.isWord "trend" = false :=
    not_trend_of_operator (Option.filter_eq_some_iff.mp ho).1
  induction h with
  | literal ht =>
    exact .cons (not_trend_of_operand ht) (.leaf (ne_functionDef_of_operand ht) .nil)
  | stepped ht ho =>
    exact .cons (not_trend_of_operand ht)
      (.cons (operator ho) (.node (by decide) (.leaf (ne_functionDef_of_operand ht) .nil)))
  | grouped ho he hc ih =>
    exact .cons (not_trend_of_kind ho rfl) ((ih rfl).snoc (not_trend_of_kind hc rfl))
  | binary hl ho hr ihl ihr =>
    exact .node (by decide) ((ihl rfl).append (.cons (operator ho) (ihr rfl)))
  | call hf ho hs hc ih =>
    exact .node (by decide) (.cons (not_trend_of_kind hf rfl) (.cons (not_trend_of_kind ho rfl)
      ((ih rfl).snoc (not_trend_of_kind hc rfl))))
  | array ho hs hc ih =>
    exact .node (by decide) (.cons (not_trend_of_kind ho rfl) ((ih rfl).snoc (not_trend_of_kind hc rfl)))
  | number ht => exact .cons (not_trend_of_kind ht rfl) (.leaf (by decide) .nil)
  | parameter ht hx => exact .node (by decide) (.leaf (by decide) (.leaf (by decide) (.typed hx)))
  | trailingComma hs hc ih => exact (ih rfl).snoc (not_trend_of_kind hc rfl)
  | more he hc hs ihe ihs =>
    exact (ihe hpart).append (.cons (not_trend_of_kind hc rfl) (ihs hpart))
  | braces ho hs hc ih =>
    exact .node (by decide) (.cons (not_trend_of_kind ho rfl) ((ih rfl).snoc (not_trend_of_kind hc rfl)))
  | guarded ho he hc hb ihe ihb =>
    have htag := ne_functionDef_of_guards (of_decide_eq_true hpart)
    exact .node htag (.cons (not_trend_of_kind ho rfl)
      ((ihe rfl).append (.cons (not_trend_of_kind hc rfl) (.node (by decide) (ihb rfl)))))
  | elseIf he hs hb hbs ihb ihbs =>
    exact .cons (not_trend_of_isWord he (by decide)) (.cons (not_trend_of_isWord hs (by decide))
      ((ihb rfl).append (ihbs rfl)))
  | elseBlock he hb ih => exact .node (by decide) (.cons (not_trend_of_isWord he (by decide)) (ih rfl))
  | declaration hk hx =>
    exact .node (by decide) (.cons (not_trend_of_declares hk)
      (.cons (not_trend_of_kind hx rfl) (.leaf (by decide) .nil)))
  | initialised hk hx ho hop he ih =>
    exact .node (by decide) (.node (by decide) (.leaf (by decide) (.cons (not_trend_of_declares hk)
      (.cons (not_trend_of_kind hx rfl) (.cons (not_trend_of_operator ho) (ih rfl))))))
  | print hk ho he hc ih =>
    exact .node (by decide) (.cons (not_trend_of_isWord hk (by decide))
      (.cons (not_trend_of_kind ho rfl) ((ih rfl).snoc (not_trend_of_kind hc rfl))))
  | input hk ho hx hc =>
    exact .node (by decide) (.cons (not_trend_of_isWord hk (by decide))
      (.cons (not_trend_of_kind ho rfl) (.cons (not_trend_of_kind hx rfl)
        (.cons (not_trend_of_kind hc rfl) (.leaf (by decide) .nil)))))
  | reply hk he ih => exact .node (by decide) (.cons (not_trend_of_isWord hk (by decide)) (ih rfl))
  | lineList hx hs ho hns hc ih =>
    exact .node (by decide) (.cons (not_trend_of_kind hx.1 rfl) (.cons (not_trend_of_operator hs)
      (.cons (not_trend_of_kind ho rfl) ((ih rfl).snoc (not_trend_of_kind hc rfl)))))
  | alone hx =>
    exact .node (by decide) (.node (by decide)
      (.cons (not_trend_of_kind hx rfl) (.leaf (by decide) .nil)))
  | counted hx ho hop =>
    exact .node (by decide) (.node (by decide) (.cons (not_trend_of_kind hx rfl)
      (.cons (not_trend_of_operator ho) (.leaf (by decide) .nil))))
  | assignment hx ho hop hline he ih =>
    exact .node (by decide) (.node (by decide) (.leaf (by decide)
      (.cons (not_trend_of_kind hx rfl) (.cons (not_trend_of_operator ho) (ih rfl)))))
  | terminated hs ht ih => exact (ih rfl).snoc (not_trend_of_kind ht rfl)
  | ifChain hk hb hbs ihb ihbs =>
    exact .node (by decide) (.cons (not_trend_of_isWord hk (by decide)) ((ihb rfl).append (ihbs rfl)))
  | forLoop hk ho hu hs₁ hv hs₂ hw hc hb ihu ihv ihw ihb =>
    have hblock : Defines _ [.node .block none [_]] := .node (by decide) (ihb rfl)
    have hstep := (ihw rfl).append (.cons (not_trend_of_kind hc rfl) hblock)
    have htest := (ihv rfl).append (.cons (not_trend_of_kind hs₂ rfl) hstep)
    have hstart := (ihu rfl).append (.cons (not_trend_of_kind hs₁ rfl) htest)
    exact .node (by decide) (.cons (not_trend_of_isWord hk (by decide))
      (.cons (not_trend_of_kind ho rfl) hstart))
  | whileLoop hk hs ih | switch hk hs ih => exact .cons (not_trend_of_isWord hk (by decide)) (ih rfl)
  | definition hk hf ho hps hc hb ihps ihb => exact .definition hk hf ho hps hc (ihps rfl) (ihb rfl)
  | block hb ih => exact .node (by decide) (ih rfl)
  | next hs hss ihs ihss => exact (ihs rfl).append (ihss rfl)
  | unbranched | unlisted | done => exact .nil
  | one he ih | listed hs ih | parameters hs ih => exact ih hpart
  | _ => exact ‹_ → Defines _ _› rfl

section Commas
variable {n m : Nat} {w v : List Token} {c : Token} {ps : List Tree}

theorem endsInComma_concat : EndsInComma (w ++ [c]) ↔ c.kind = .delimiter .comma := by
  simp [EndsInComma]

theorem endsInComma_append (hv : v ≠ []) : EndsInComma (w ++ v) ↔ EndsInComma v := by
  rw [EndsInComma, EndsInComma, List.getLast?_append_of_ne_nil _ hv]

theorem commas_append (w v : List Token) : commas (w ++ v) = commas w + commas v :=
  List.countP_append

theorem commas_comma (hc : c.kind = .delimiter .comma) : commas (c :: w) = commas w + 1 := by
  simp [commas, Token.isDelimiter, hc]

/-- A parameter opens no brackets and holds no comma. -/
theorem Derives.parameter_shallow {p : Tree} (h : Derives .parameter n w [p]) (m : Nat) :
    Derives .parameter m w [p] ∧ commas w = 0 ∧ ¬ EndsInComma w ∧ p.tag = .param := by
  cases h with
  | parameter ht hx =>
    rename_i t x
    have hcomma : t.kind ≠ .delimiter .comma := by
      intro hk
      rw [hk] at ht
      cases ht
    exact ⟨.parameter ht hx, by simp [commas, hcomma, Token.isDelimiter, hx],
      by simp [EndsInComma, hx], rfl⟩

/-- Parameters have a comma between each two of them, and none at the end. -/
theorem Derives.separated_commas (h : Derives (.separated .parameter) n w ps) (m : Nat) :
    Derives (.separated .parameter) m w ps ∧ commas w + 1 = ps.length ∧ ¬ EndsInComma w ∧
      ∀ p ∈ ps, p.tag = .param := by
  refine h.separated_induction (P := fun w ps => Derives (.separated .parameter) m w ps ∧
    commas w + 1 = ps.length ∧ ¬ EndsInComma w ∧ ∀ p ∈ ps, p.tag = .param) ?_ ?_
  · intro w p hp
    obtain ⟨hm, hcommas, hend, htag⟩ := hp.parameter_shallow m
    exact ⟨.one hm, by simp [hcommas], hend, List.forall_mem_singleton.mpr htag⟩
  · rintro w v c p ps hp hc hs ⟨hm, hcommas, hend, htags⟩
    obtain ⟨hm', hcommas', -, htag⟩ := hp.parameter_shallow m
    have hv : v ≠ [] := hs.ne_nil rfl
    refine ⟨.more hm' hc hm, ?_, ?_, List.forall_mem_cons.mpr ⟨htag, htags⟩⟩
    · rw [commas_append, commas_comma hc, hcommas', List.length_cons, ← hcommas]
      omega
    · rwa [endsInComma_append (List.cons_ne_nil c v), ← List.singleton_append, endsInComma_append hv]

/-- But for a comma at the end, the tokens are parameters with a comma between each two of them. -/
theorem Derives.parameters_commas (h : Derives .parameters n w ps) :
    (commas w = ps.length - 1 ↔ ¬ EndsInComma w) ∧
    (EndsInComma w → ps ≠ [] ∧ commas w = ps.length) ∧
    Derives (.listed .parameter) 0 (if EndsInComma w then w.dropLast else w) ps ∧
    ∀ p ∈ ps, p.tag = .param := by
  cases h with
  | parameters hs =>
    cases hs with
    | unlisted => exact ⟨by simp [commas, EndsInComma], by simp [EndsInComma], .unlisted, nofun⟩
    | listed hs =>
      obtain ⟨hm, hcommas, hend, htags⟩ := hs.separated_commas 0
      rw [if_neg hend]
      exact ⟨iff_of_true (by omega) hend, fun h => absurd h hend, .listed hm, htags⟩
  | trailingComma hs hc =>
    rename_i c w
    obtain ⟨hm, hcommas, -, htags⟩ := hs.separated_commas 0
    have hend : EndsInComma (w ++ [c]) := endsInComma_concat.mpr hc
    have hcount : commas (w ++ [c]) = ps.length := by
      rw [commas_append, commas_comma hc, ← hcommas]
      rfl
    have hne : ps ≠ [] := List.length_pos_iff.mp (by omega)
    rw [if_pos hend, List.dropLast_concat, hcount]
    exact ⟨iff_of_false (by omega) (not_not_intro hend), fun _ => ⟨hne, rfl⟩, .listed hm, htags⟩

end Commas

/-- The node of a definition with these tokens between its parentheses has their parameters. -/
theorem DefinedBy.params_commas {ts : List Token} {d : Tree} (h : DefinedBy ts d) :
    (commas ts = d.params.length - 1 ↔ ¬ EndsInComma ts) ∧
    (EndsInComma ts → d.params ≠ [] ∧ commas ts = d.params.length) ∧
    Derives (.listed .parameter) 0 (if EndsInComma ts then ts.dropLast else ts) d.params := by
  obtain ⟨n, name, ps, body, rfl, hps⟩ := h
  obtain ⟨hcount, htrailing, hrule, htags⟩ := hps.parameters_commas
  have hparams : (Tree.node .functionDef name [.node .paramList none ps, body]).params = ps :=
    List.filter_eq_self.mpr fun p hp => by simpa using htags p hp
  rw [hparams]
  exact ⟨hcount, htrailing, hrule⟩

/-- In an accepted text the definitions of the tree are those among the tokens, one by one. The commas
of a definition are one less than its parameters, if it has any, unless one stands behind the last of
these; and but for that one its parentheses hold parameters with a comma between each two of them. -/
theorem analyze_parameters {source : String} {a : Analysis} (h : analyze source = .ok a) :
    List.Forall₂ (fun ts d => (commas ts = d.params.length - 1 ↔ ¬ EndsInComma ts) ∧
      (EndsInComma ts → d.params ≠ [] ∧ commas ts = d.params.length) ∧
      Derives (.listed .parameter) 0 (if EndsInComma ts then ts.dropLast else ts) d.params)
    (parameterLists (TokenLine.flatten a.lines)) a.tree.definitions := by
  obtain ⟨-, herrors, htree⟩ := analyze_eq_ok_iff.mp h
  obtain ⟨ss, -, hd, hprogram⟩ := derives_of_parse herrors
  have hdefined : List.Forall₂ DefinedBy (parameterLists (TokenLine.flatten a.lines))
      a.tree.definitions := by
    rw [htree, hprogram]
    simpa [Tree.program, Tree.definitions] using (hd.defines rfl).defined
  exact hdefined.imp fun ts d hd => hd.params_commas

theorem analyze_parameters_two : ∃ a, analyze "trend f(num a, num b) { x }" = .ok a ∧
    List.Forall₂ (fun ts d => (commas ts = d.params.length - 1 ↔ ¬ EndsInComma ts) ∧
      (EndsInComma ts → d.params ≠ [] ∧ commas ts = d.params.length) ∧
      Derives (.listed .parameter) 0 (if EndsInComma ts then ts.dropLast else ts) d.params)
    (parameterLists (TokenLine.flatten a.lines)) a.tree.definitions := by
  have hok : (analyze "trend f(num a, num b) { x }").toOption.any
      (fun a => a.tree.definitions.length = 1) = true := by decide +kernel
  obtain ⟨a, ha, -⟩ := exists_ok_of_any hok
  exact ⟨a, ha, analyze_parameters ha⟩

/-- The one definition of this text has one parameter and one comma. -/
theorem trailingComma_accepted : ∃ a, analyze "trend f(num a,) { x }" = .ok a ∧
    ¬ List.Forall₂ (fun ts d => commas ts = d.params.length - 1)
      (parameterLists (TokenLine.flatten a.lines)) a.tree.definitions := by
  have hok : (analyze "trend f(num a,) { x }").toOption.any (fun a =>
      (parameterLists (TokenLine.flatten a.lines)).map commas = [1] ∧
        a.tree.definitions.map (·.params.length - 1) = [0]) = true := by decide +kernel
  obtain ⟨a, ha, hcounts⟩ := exists_ok_of_any hok
  obtain ⟨hcommas, hparams⟩ := of_decide_eq_true hcounts
  refine ⟨a, ha, fun hall => ?_⟩
  have heq : (parameterLists (TokenLine.flatten a.lines)).map commas =
      a.tree.definitions.map (·.params.length - 1) := by
    rw [← List.forall₂_eq_eq_eq, List.forall₂_map_left_iff, List.forall₂_map_right_iff]
    exact hall
  rw [hcommas, hparams] at heq
  cases heq

end SlangScript
