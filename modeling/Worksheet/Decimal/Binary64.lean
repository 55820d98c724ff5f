import Worksheet.Word
/-!
# Doubles

A double is its 64 bits. The finite ones are `± m · 2 ^ q` for a natural number `m` and an integer
`q`; everything exact in the library works on these two numbers.

* `Binary64` with its classes (`isNaN`, `isInfinite`, `isFinite`), `mantissa` and `scale`;
* `whole?`, the magnitude of a double without a fraction;
* `ofRatio`, the double nearest to a quotient, a tie going to the even neighbour;
* `remainder`, the exact remainder of a truncating division.
-/

namespace Worksheet

/-- A double, as its bits. -/
structure Binary64 where
  bits : UInt64
  deriving DecidableEq, Inhabited

namespace Binary64

/-- The exponent field, 11 bits wide. -/
def exponentField (x : Binary64) : Nat :=
  x.bits.toNat / Nat.pow 2 52 % Nat.pow 2 11

/-- The fraction field, 52 bits wide. -/
def fractionField (x : Binary64) : Nat :=
  x.bits.toNat % Nat.pow 2 52

/-- The sign bit is set. -/
def isNegative (x : Binary64) : Bool :=
  Nat.pow 2 63 ≤ x.bits.toNat

/-- Not a number. -/
def isNaN (x : Binary64) : Bool :=
  x.exponentField == 2047 && x.fractionField != 0

/-- One of the two infinities. -/
def isInfinite (x : Binary64) : Bool :=
  x.exponentField == 2047 && x.fractionField == 0

/-- A number. -/
def isFinite (x : Binary64) : Bool :=
  x.exponentField != 2047

/-- The natural number `m` in `± m · 2 ^ q`. -/
def mantissa (x : Binary64) : Nat :=
  if x.exponentField = 0 then x.fractionField else x.fractionField + Nat.pow 2 52

/-- The integer `q` in `± m · 2 ^ q`. -/
def scale (x : Binary64) : Int :=
  if x.exponentField = 0 then -1074 else (x.exponentField : Int) - 1075

/-- One of the two zeros. -/
def isZero (x : Binary64) : Bool :=
  x.isFinite && x.mantissa == 0

/-- The double of the given bits. -/
def ofNatBits (n : Nat) : Binary64 :=
  ⟨UInt64.ofNat n⟩

/-- Sets the sign bit of a double that has none. -/
def signed (negative : Bool) (magnitude : Nat) : Binary64 :=
  ofNatBits (if negative then Nat.pow 2 63 + magnitude else magnitude)

/-- The bits of positive infinity. -/
def infinityBits : Nat :=
  2047 * Nat.pow 2 52

/-- The magnitude of a finite double that has no fraction. -/
def whole? (x : Binary64) : Option Nat :=
  if !x.isFinite then none
  else if 0 ≤ x.scale then some (x.mantissa * Nat.pow 2 x.scale.toNat)
  else
    let unit := Nat.pow 2 (-x.scale).toNat
    if x.mantissa % unit = 0 then some (x.mantissa / unit) else none

/-- Drops the sign. -/
def abs (x : Binary64) : Binary64 :=
  ofNatBits (x.bits.toNat % Nat.pow 2 63)

/-- Turns the sign around. -/
def neg (x : Binary64) : Binary64 :=
  ⟨x.bits ^^^ 0x8000000000000000⟩

/-- The quotient rounded to the nearest natural number, a tie to the even one. -/
def divNearest (num den : Nat) : Nat :=
  let q := num / den
  let r := num % den
  if 2 * r < den then q
  else if den < 2 * r then q + 1
  else if q % 2 = 0 then q else q + 1

/-- The quotient `num / den · 2 ^ -k`, rounded to the nearest natural number. -/
def scaledNearest (num den : Nat) (k : Int) : Nat :=
  if 0 ≤ k then divNearest num (den * Nat.pow 2 k.toNat) else divNearest (num * Nat.pow 2 (-k).toNat) den

/-- The least `k` for which `num / den < 2 ^ (k + 53)`, but not below the subnormal scale. -/
def ratioScale (num den : Nat) : Int :=
  let guess : Int := (Nat.log2 num : Int) - (Nat.log2 den : Int) - 53
  let fits (k : Int) : Bool :=
    if 0 ≤ k + 53 then num < den * Nat.pow 2 (k + 53).toNat
    else num * Nat.pow 2 (-(k + 53)).toNat < den
  max (-1074) (if fits guess then guess else guess + 1)

/-- The bits of the double nearest to `num / den`. -/
def ratioBits (num den : Nat) : Nat :=
  if num = 0 then 0
  else
    let k := ratioScale num den
    let m := scaledNearest num den k
    let bits := if m < Nat.pow 2 52 then m else (k + 1074).toNat * Nat.pow 2 52 + m
    min bits infinityBits

/-- The double nearest to `± num / den`; a quotient out of range gives an infinity. -/
def ofRatio (negative : Bool) (num den : Nat) : Binary64 :=
  signed negative (ratioBits num den)

/-- The double nearest to `± digits · 10 ^ exponent`. -/
def ofDecimal (negative : Bool) (digits : Nat) (exponent : Int) : Binary64 :=
  let length := (Nat.toDigits 10 digits).length
  if digits = 0 then signed negative 0
  else if (length : Int) + exponent > 310 then signed negative infinityBits
  else if (length : Int) + exponent < -330 then signed negative 0
  else if 0 ≤ exponent then ofRatio negative (digits * Nat.pow 10 exponent.toNat) 1
  else ofRatio negative digits (Nat.pow 10 (-exponent).toNat)

/-- The double nearest to an integer. -/
def ofInt (n : Int) : Binary64 :=
  ofRatio (n < 0) n.natAbs 1

/-- The double as a machine number. -/
def toFloat (x : Binary64) : Float :=
  Float.ofBits x.bits

/-- The double of a machine number. -/
def ofFloat (x : Float) : Binary64 :=
  ⟨x.toBits⟩

/-- What remains of `x` after taking away `y` as often as it fits, with the sign of `x`. -/
def remainder (x y : Binary64) : Binary64 :=
  if x.isNaN || y.isNaN || x.isInfinite || y.isZero then ofNatBits 0x7FF8000000000000
  else if y.isInfinite then x
  else
    let q := min x.scale y.scale
    let a := x.mantissa * Nat.pow 2 (x.scale - q).toNat
    let b := y.mantissa * Nat.pow 2 (y.scale - q).toNat
    let r := a % b
    if 0 ≤ q then ofRatio x.isNegative (r * Nat.pow 2 q.toNat) 1
    else ofRatio x.isNegative r (Nat.pow 2 (-q).toNat)

/-- The integer part, held within the range of 64-bit integers; not-a-number gives zero. -/
def truncate (x : Binary64) : Int :=
  if x.isNaN then 0
  else
    let magnitude : Nat :=
      if x.isInfinite then Word.size
      else if 0 ≤ x.scale then x.mantissa * Nat.pow 2 x.scale.toNat
      else x.mantissa / Nat.pow 2 (-x.scale).toNat
    let n : Int := if x.isNegative then -(magnitude : Int) else magnitude
    max Word.least (min Word.greatest n)

end Binary64

end Worksheet
