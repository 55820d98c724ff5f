/-!
# Words

The integers that fit into a word of 64 bits, with a sign or without.

* `Word.least`, `Word.greatest` and `Word.fits`; `Word.size` is the number of words.
-/

namespace Worksheet.Word

/-- The least integer that fits. -/
def least : Int := -9223372036854775808

/-- The greatest integer that fits. -/
def greatest : Int := 9223372036854775807

/-- The number of words. -/
def size : Nat := 18446744073709551616

/-- The integer fits into a word. -/
def fits (n : Int) : Bool :=
  least ≤ n && n ≤ greatest

/-- The signed integer whose word is the one of a natural number. -/
def ofNat (n : Nat) : Int :=
  let r : Int := (n % size : Nat)
  if r ≤ greatest then r else r - size

/-- The word of an integer, as a natural number. -/
def toNat (n : Int) : Nat :=
  (n % size).toNat

end Worksheet.Word
