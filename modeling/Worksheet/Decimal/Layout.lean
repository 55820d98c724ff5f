import Worksheet.Decimal.Shortest
/-!
# Layouts of numbers

The texts of a double. All are made from its shortest digits and differ in where the point goes, when
an exponent is written and whether a whole number keeps its `.0`.

* `Binary64.plain` never writes an exponent;
* `Binary64.exponential` always does;
* `Binary64.listed` is the text inside a list, `Binary64.joined` the text inside a message.
-/

namespace Worksheet

namespace Digits

/-- The digits with the point in its place and no exponent. -/
def positional (d : Digits) : List Char :=
  let n := d.digits.length
  if d.point ≤ 0 then ['0', '.'] ++ List.replicate (-d.point).toNat '0' ++ d.digits
  else if (n : Int) ≤ d.point then d.digits ++ List.replicate (d.point.toNat - n) '0'
  else d.digits.take d.point.toNat ++ ['.'] ++ d.digits.drop d.point.toNat

/-- One digit before the point, and the exponent after an `e`. -/
def scientific (d : Digits) : List Char :=
  let body := match d.digits with
    | [] => []
    | [c] => [c]
    | c :: rest => c :: '.' :: rest
  body ++ ['e'] ++ (toString (d.point - 1)).toList

end Digits

namespace Binary64

/-- A minus sign in front when the sign bit is set. -/
def withSign (x : Binary64) (body : List Char) : List Char :=
  if x.isNegative then '-' :: body else body

/-- The text of a double that is no finite number. -/
def special (x : Binary64) : List Char :=
  if x.isNaN then "NaN".toList else x.withSign "inf".toList

/-- The shortest text without exponent; a whole number has no point. -/
def plain (x : Binary64) : List Char :=
  if !x.isFinite then x.special
  else if x.isZero then x.withSign ['0']
  else x.withSign x.shortest.positional

/-- The shortest text with exponent. -/
def exponential (x : Binary64) : List Char :=
  if !x.isFinite then x.special
  else if x.isZero then x.withSign "0e0".toList
  else x.withSign x.shortest.scientific

/-- The text of a number inside a list: positional from `1e-4` up to below `1e16`, with `.0` after a
whole number, and with an exponent otherwise. -/
def listed (x : Binary64) : List Char :=
  if !x.isFinite then x.special
  else if x.isZero then x.withSign "0.0".toList
  else
    let d := x.shortest
    if -4 < d.point ∧ d.point ≤ 16 then
      x.withSign (if (d.digits.length : Int) ≤ d.point then d.positional ++ ['.', '0']
        else d.positional)
    else x.withSign d.scientific

/-- `10 ^ 13`, above which a message shows the exponent. -/
def joinedMax : Binary64 := ofDecimal false 1 13

/-- `10 ^ -13`, below which a message shows the exponent. -/
def joinedMin : Binary64 := ofDecimal false 1 (-13)

/-- The text of a number inside a message or joined to a text: zero is `0.0`, very large and very
small numbers have an exponent, and a whole number ends in `.0`. -/
def joined (x : Binary64) : List Char :=
  if !x.isFinite then x.special
  else if x.isZero then "0.0".toList
  else if joinedMax.bits < x.abs.bits || x.abs.bits < joinedMin.bits then x.exponential
  else if x.whole?.isSome then x.plain ++ ['.', '0']
  else x.plain

end Binary64

end Worksheet
