import Mathlib.Data.List.Induction
import Mathlib.Data.Nat.Digits.Defs
import SlangScript.Text.Numeral

/-! Decimal numerals and the counts that they stand for. -/
namespace SlangScript

/-- The number that decimal digits stand for, the last of them counting ones. -/
def decimalValue (digits : List Char) : Nat :=
  Nat.ofDigits 10 (digits.reverse.map fun c => c.toNat - '0'.toNat)

/-- The text is a run of decimal digits that stands for the number, or one with a plus sign in front. -/
def IsNumeral (text : String) (n : Nat) : Prop :=
  ∃ digits, (text.toList = digits ∨ text.toList = '+' :: digits) ∧ digits ≠ [] ∧
    (∀ c ∈ digits, c.isDigit = true) ∧ n = decimalValue digits

theorem digitsValue_eq_decimalValue (digits : List Char) :
    digitsValue digits = decimalValue digits := by
  induction digits using List.reverseRecOn with
  | nil => rfl
  | append_singleton digits c ih =>
    rw [digitsValue, List.foldl_append, List.foldl_cons, List.foldl_nil, ← digitsValue, ih]
    simp [decimalValue, Nat.ofDigits_cons, Nat.add_comm]

/-- What a numeral is read from: all of it, or what follows a plus sign in front. -/
def Unsigned (text digits : List Char) : Prop :=
  text = '+' :: digits ∨ text = digits ∧ ∀ rest, digits ≠ '+' :: rest

theorem exists_unsigned (text : List Char) : ∃ digits, Unsigned text digits := by
  by_cases h : ∃ rest, text = '+' :: rest
  · obtain ⟨rest, rfl⟩ := h
    exact ⟨rest, .inl rfl⟩
  · exact ⟨text, .inr ⟨rfl, fun rest hrest => h ⟨rest, hrest⟩⟩⟩

theorem count64?_of_unsigned {text : String} {digits : List Char} (h : Unsigned text.toList digits) :
    count64? text = if digits.isEmpty || !digits.all Char.isDigit then none
      else if digitsValue digits < UInt64.size then some (digitsValue digits)
      else none := by
  rcases h with h | ⟨h, hplus⟩
  · rw [count64?, h]
    rfl
  · rw [count64?, h]
    split
    · exact absurd rfl (hplus _)
    · rfl

/-- No digit is a plus sign. -/
theorem unsigned_of_digits {text digits : List Char} (hdigits : ∀ c ∈ digits, c.isDigit = true)
    (h : text = digits ∨ text = '+' :: digits) : Unsigned text digits := by
  refine h.symm.imp_right fun h => ⟨h, ?_⟩
  rintro rest rfl
  exact absurd (hdigits '+' (.head _)) (by decide)

/-- A count is read from the numerals that stand for a number below the bound of a word. -/
theorem count64?_eq_some_iff {text : String} {n : Nat} :
    count64? text = some n ↔ IsNumeral text n ∧ n < 2 ^ 64 := by
  constructor
  · intro h
    obtain ⟨digits, hunsigned⟩ := exists_unsigned text.toList
    rw [count64?_of_unsigned hunsigned, ite_eq_iff, ite_eq_iff] at h
    obtain ⟨-, ⟨⟩⟩ | ⟨hdigits, ⟨hlt, ⟨⟩⟩ | ⟨-, ⟨⟩⟩⟩ := h
    simp only [Bool.or_eq_true, List.isEmpty_iff, Bool.not_eq_true', not_or, Bool.not_eq_false,
      List.all_eq_true] at hdigits
    exact ⟨⟨digits, (hunsigned.imp_right And.left).symm, hdigits.1, hdigits.2,
      digitsValue_eq_decimalValue digits⟩, hlt⟩
  · rintro ⟨⟨digits, htext, hne, hdigits, rfl⟩, hlt⟩
    have hempty : digits.isEmpty = false := by simpa using hne
    have hall : digits.all Char.isDigit = true := List.all_eq_true.mpr hdigits
    rw [count64?_of_unsigned (unsigned_of_digits hdigits htext), hempty, hall,
      digitsValue_eq_decimalValue]
    exact if_pos hlt

end SlangScript
