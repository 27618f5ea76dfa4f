/-! Decimal numerals for machine-sized counts. -/
namespace SlangScript

/-- The value of a run of decimal digits, the first one leading. -/
def digitsValue (digits : List Char) : Nat :=
  digits.foldl (fun n c => 10 * n + (c.toNat - '0'.toNat)) 0

/-- The count that a numeral names: digits, with one plus sign allowed in front, and a value that
fits sixty-four bits. -/
def count64? (numeral : String) : Option Nat :=
  let digits := match numeral.toList with
    | '+' :: rest => rest
    | cs => cs
  if digits.isEmpty || !digits.all Char.isDigit then none
  else if digitsValue digits < UInt64.size then some (digitsValue digits)
  else none

end SlangScript
