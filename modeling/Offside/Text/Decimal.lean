/-!
# Decimal numerals

Rows and columns are written as plain decimal numerals.

* `decimal`: the numeral of a number, without leading zeros.
* `decimalValue`: the number a run of ASCII digits denotes; leading zeros are allowed.
-/

namespace Offside.Text

/-- The decimal numeral of `n`, without leading zeros. -/
def decimal (n : Nat) : String := String.ofList (Nat.toDigits 10 n)

/-- The number that a run of ASCII digits denotes. -/
def decimalValue (digits : List Char) : Nat := Nat.ofDigitChars 10 digits 0

/-- The characters of a numeral are its digits. -/
@[simp] theorem toList_decimal (n : Nat) : (decimal n).toList = Nat.toDigits 10 n :=
  String.toList_ofList

/-- A numeral denotes the number it was written for. -/
theorem decimalValue_toDigits (n : Nat) : decimalValue (Nat.toDigits 10 n) = n :=
  Nat.ofDigitChars_toDigits (by decide) (by decide)

end Offside.Text
