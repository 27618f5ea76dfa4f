import SlangScript.Proofs.Grammar
import SlangScript.Proofs.Subtree
import SlangScript.Validity.Block

/-! Braces are paired in every part of a program, so that counting them finds the end of a block. -/
namespace SlangScript

/-- Tokens in which every brace has its partner. -/
inductive Balanced : List Token → Prop
  | nil : Balanced []
  | other {t : Token} {w : List Token} (ht : t.isBrace = false) (hw : Balanced w) : Balanced (t :: w)
  | nested {o c : Token} {u w : List Token} (ho : o.kind = .bracket .openBrace) (hu : Balanced u)
    (hc : c.kind = .bracket .closeBrace) (hw : Balanced w) : Balanced (o :: (u ++ c :: w))

namespace Token
variable {t : Token}

theorem isBrace_eq_false (ho : t.kind ≠ .bracket .openBrace) (hc : t.kind ≠ .bracket .closeBrace) :
    t.isBrace = false := by
  simp [isBrace, isBracket, ho, hc]

theorem isBrace_of_open (h : t.kind = .bracket .openBrace) : t.isBrace = true := by
  simp [isBrace, isBracket, h]

theorem isBrace_of_close (h : t.kind = .bracket .closeBrace) : t.isBrace = true := by
  simp [isBrace, isBracket, h]

theorem isBrace_of_operator {op : Operator} (h : t.operator? = some op) : t.isBrace = false := by
  have hkind := operator?_eq_some_iff.mp h
  exact isBrace_eq_false (by simp [hkind]) (by simp [hkind])

theorem isBrace_of_operand {tag : Tag} (h : Tag.ofOperand? t.kind = some tag) : t.isBrace = false := by
  apply isBrace_eq_false <;> intro hk <;> rw [hk] at h <;> cases h

theorem isBrace_of_word (h : t.kind.isWord = true) : t.isBrace = false := by
  apply isBrace_eq_false <;> intro hk <;> rw [hk] at h <;> cases h

theorem isBrace_of_isWord {word : String} (h : t.isWord word = true) : t.isBrace = false :=
  isBrace_of_word ((Bool.and_eq_true _ _).mp h).1

end Token

section BlockEnd
variable {t : Token} {index inner : Nat} {nonEmpty : Bool} {ts : List Token}

theorem blockEnd?_other (h : t.isBrace = false) :
    blockEnd? index inner nonEmpty (t :: ts) = blockEnd? (index + 1) inner true ts := by
  rw [Token.isBrace, Bool.or_eq_false_iff] at h
  simp only [blockEnd?, h, Bool.false_eq_true, ↓reduceIte]

theorem blockEnd?_open (h : t.kind = .bracket .openBrace) :
    blockEnd? index inner nonEmpty (t :: ts) = blockEnd? (index + 1) (inner + 1) nonEmpty ts := by
  simp [blockEnd?, Token.isBracket, h]

theorem blockEnd?_close (h : t.kind = .bracket .closeBrace) :
    blockEnd? index (inner + 1) nonEmpty (t :: ts) = blockEnd? (index + 1) inner nonEmpty ts := by
  simp [blockEnd?, Token.isBracket, h]

theorem blockEnd?_found (h : t.kind = .bracket .closeBrace) :
    blockEnd? index 0 nonEmpty (t :: ts) = some (index, nonEmpty) := by
  simp [blockEnd?, Token.isBracket, h]

/-- The end of a block does not depend on what stands behind it. -/
theorem blockEnd?_append_of_some {found : Nat × Bool}
    (h : blockEnd? index inner nonEmpty ts = some found) (more : List Token) :
    blockEnd? index inner nonEmpty (ts ++ more) = some found := by
  induction ts generalizing index inner nonEmpty with
  | nil => cases h
  | cons t ts ih =>
    simp only [List.cons_append, blockEnd?] at h ⊢
    split
    · exact ih (by simpa [*] using h)
    · split
      · cases inner with
        | zero => simpa [*] using h
        | succ inner => exact ih (by simpa [*] using h)
      · exact ih (by simpa [*] using h)

end BlockEnd

namespace Balanced
variable {w v : List Token}

theorem append (hw : Balanced w) (hv : Balanced v) : Balanced (w ++ v) := by
  induction hw with
  | nil => exact hv
  | other ht _ ih => exact .other ht ih
  | nested ho hu hc _ _ ih => simpa using Balanced.nested ho hu hc ih

/-- Counting passes over paired braces, and notices what else stands among them. -/
theorem blockEnd?_append (h : Balanced w) (index inner : Nat) (nonEmpty : Bool) (rest : List Token) :
    blockEnd? index inner nonEmpty (w ++ rest) =
      blockEnd? (index + w.length) inner (nonEmpty || w.any fun t => !t.isBrace) rest := by
  induction h generalizing index inner nonEmpty rest with
  | nil => simp
  | other ht hw ih =>
    rw [List.cons_append, blockEnd?_other ht, ih]
    simp [ht, Nat.add_comm, Nat.add_left_comm]
  | nested ho hu hc hw ihu ihw =>
    rw [List.cons_append, blockEnd?_open ho, List.append_assoc, ihu, List.cons_append,
      blockEnd?_close hc, ihw]
    simp [Token.isBrace, Token.isBracket, ho, hc, Nat.add_comm, Nat.add_left_comm, Bool.or_assoc]

end Balanced

/-- A block ends only where its braces are no longer those of something balanced. -/
theorem Balanced.blockEnd?_of_append {u v : List Token} (h : Balanced (u ++ v)) (index : Nat)
    (nonEmpty : Bool) : blockEnd? index 0 nonEmpty u = none := by
  cases hu : blockEnd? index 0 nonEmpty u with
  | none => rfl
  | some found =>
    have huv := h.blockEnd?_append index 0 nonEmpty []
    rw [List.append_nil, blockEnd?_append_of_some hu] at huv
    cases huv

/-- Braces are paired in whatever the grammar derives. -/
theorem Derives.balanced {part : Part} {n : Nat} {w : List Token} {ts : List Tree}
    (h : Derives part n w ts) : Balanced w := by
  induction h with
  | braces ho hs hc ih => exact .nested ho ih hc .nil
  | stepped ht ho =>
    have ho := Token.isBrace_of_operator (Option.filter_eq_some_iff.mp ho).1
    exact .other (Token.isBrace_of_operand ht) (.other ho .nil)
  | binary hl ho hr ihl ihr =>
    exact ihl.append (.other (Token.isBrace_of_operator (Option.filter_eq_some_iff.mp ho).1) ihr)
  | _ => grind [Balanced.append, Balanced.nil, Balanced.other, Token.isBrace_of_operator,
      Token.isBrace_of_operand, Token.isBrace_of_word, Token.isBrace_of_isWord, Token.declares,
      Token.isLine, Token.isBrace, Token.isBracket]

end SlangScript
