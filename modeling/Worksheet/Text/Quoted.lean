import Worksheet.Text.Visible
/-!
# Quoted display

How a text or a character is displayed inside a list: between quotes, with the quote, the backslash
and all that is not visible written as an escape.

* `escapeChar` writes one character, given the quote around it;
* `quoteText` and `quoteChar` write a text and a character.
-/

namespace Worksheet.Text

/-- The lower-case hexadecimal digits of a number. -/
def hexDigits (n : Nat) : List Char :=
  Nat.toDigits 16 n

/-- The digits of a number in base 16, on at least `width` places. -/
def hexPadded (width n : Nat) : List Char :=
  let digits := hexDigits n
  List.replicate (width - digits.length) '0' ++ digits

/-- One character as it is written between quotes. -/
def escapeChar (quote c : Char) : List Char :=
  if c = Char.ofNat 0 then ['\\', '0']
  else if c = '\t' then ['\\', 't']
  else if c = '\r' then ['\\', 'r']
  else if c = '\n' then ['\\', 'n']
  else if c = '\\' || c = quote then ['\\', c]
  else if isVisible c then [c]
  else ['\\', 'u', '\x7b'] ++ hexDigits c.toNat ++ ['\x7d']

/-- A text between double quotes. -/
def quoteText (s : String) : String :=
  String.ofList (['\"'] ++ s.toList.flatMap (escapeChar '\"') ++ ['\"'])

/-- A character between single quotes. -/
def quoteChar (c : Char) : String :=
  String.ofList (['\''] ++ escapeChar '\'' c ++ ['\''])

end Worksheet.Text
