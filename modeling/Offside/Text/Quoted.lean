import Offside.Text.Printable

/-!
# Quoted text

Text between double quotes, as messages show it. The quote, the backslash and the common controls
are written with a backslash; other characters without a visible shape are written by their code
point in hexadecimal; all else stands for itself.

* `quotedChar`, `quoted`: one character, a whole text.
-/

namespace Offside.Text

/-- How one character is written inside quoted text. -/
def quotedChar (c : Char) : String :=
  if c = '\x00' then "\\0"
  else if c = '\t' then "\\t"
  else if c = '\r' then "\\r"
  else if c = '\n' then "\\n"
  else if c = '\\' then "\\\\"
  else if c = '"' then "\\\""
  else if isPrintable c then c.toString
  else "\\u\x7b" ++ String.ofList (Nat.toDigits 16 c.toNat) ++ "\x7d"

/-- A text between double quotes. -/
def quoted (text : String) : String :=
  "\"" ++ String.join (text.toList.map quotedChar) ++ "\""

end Offside.Text
