/-!
# Digits

Decimal and hexadecimal digits, and the numbers that they stand for.

## Main definitions

* `Digit.isDecimal`, `Digit.isHexadecimal`: the digits.
* `Digit.value`: the number that a digit stands for.
* `Digit.lower`, `Digit.upper`: the digit for a number below 16.

## Theorems

* `Digit.value_lower`, `Digit.value_upper`: a digit stands for the number that
  it was made from.
-/

namespace SharpLint

namespace Digit

/-- Whether the character is a decimal digit. -/
def isDecimal (c : Char) : Bool := '0' ≤ c && c ≤ '9'

/-- Whether the character is a hexadecimal digit, in lower or upper case. -/
def isHexadecimal (c : Char) : Bool :=
  isDecimal c || ('a' ≤ c && c ≤ 'f') || ('A' ≤ c && c ≤ 'F')

/-- The number that a hexadecimal digit stands for. -/
def value (c : Char) : Nat :=
  if isDecimal c then c.toNat - 48
  else if 'a' ≤ c then c.toNat - 87
  else c.toNat - 55

/-- The hexadecimal digit for a number below 16, in lower case. -/
def lower (n : Nat) : Char :=
  if n < 10 then Char.ofNat (48 + n) else Char.ofNat (87 + n)

/-- The hexadecimal digit for a number below 16, in upper case. -/
def upper (n : Nat) : Char :=
  if n < 10 then Char.ofNat (48 + n) else Char.ofNat (55 + n)

/-- The number that digits write in a base. -/
def number (base : Nat) (digits : List Char) : Nat :=
  digits.foldl (fun sum c => base * sum + value c) 0

theorem value_lower (n : Fin 16) : value (lower n) = n := by
  revert n; decide

theorem value_upper (n : Fin 16) : value (upper n) = n := by
  revert n; decide

end Digit

end SharpLint
