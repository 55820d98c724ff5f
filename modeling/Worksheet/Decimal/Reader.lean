import Worksheet.Decimal.Binary64
/-!
# Reading numbers

The decimal notation of numbers: an optional sign, digits with at most one point among them, and an
optional exponent. At least one digit stands before the exponent, and at least one in it.

* `Decimal` is what was written, exactly;
* `Decimal.read?` reads all of a text, `Binary64.read?` also knows the names of infinity and of
  not-a-number.
-/

namespace Worksheet

/-- The number `± digits · 10 ^ exponent`. -/
structure Decimal where
  negative : Bool
  digits : Nat
  exponent : Int
  deriving DecidableEq, Inhabited

/-- The number that a row of decimal digits stands for. -/
def digitsValue (cs : List Char) : Nat :=
  cs.foldl (fun n c => 10 * n + (c.toNat - '0'.toNat)) 0

/-- Takes a sign off the front; `true` stands for minus. -/
def takeSign : List Char → Bool × List Char
  | '-' :: rest => (true, rest)
  | '+' :: rest => (false, rest)
  | cs => (false, cs)

namespace Decimal

/-- Reads an exponent, or nothing at all. -/
def readExponent? : List Char → Option Int
  | [] => some 0
  | c :: rest =>
    if c = 'e' || c = 'E' then
      let (negative, digits) := takeSign rest
      if digits.isEmpty || !digits.all Char.isDigit then none
      else some (if negative then -(digitsValue digits : Int) else digitsValue digits)
    else none

/-- Reads a number that takes up the whole text. -/
def read? (cs : List Char) : Option Decimal :=
  let (negative, body) := takeSign cs
  let (whole, rest) := body.span Char.isDigit
  let (fraction, tail) := match rest with
    | '.' :: rest => rest.span Char.isDigit
    | _ => ([], rest)
  if whole.isEmpty && fraction.isEmpty then none
  else (readExponent? tail).map fun exponent =>
    ⟨negative, digitsValue (whole ++ fraction), exponent - fraction.length⟩

/-- The double nearest to the number. -/
def toBinary64 (d : Decimal) : Binary64 :=
  Binary64.ofDecimal d.negative d.digits d.exponent

end Decimal

namespace Binary64

/-- Reads a number, or a name of infinity or of not-a-number in any case, that takes up the whole
text. -/
def read? (cs : List Char) : Option Binary64 :=
  let (negative, body) := takeSign cs
  let name := String.ofList (body.map Char.toLower)
  if name = "inf" || name = "infinity" then some (signed negative infinityBits)
  else if name = "nan" then some (signed negative 0x7FF8000000000000)
  else (Decimal.read? cs).map Decimal.toBinary64

end Binary64

end Worksheet
