/-!
# White space

The white space of the Unicode standard, and the two things the library does with it: trimming a
text at both ends and cutting a text at the runs of white space inside it.

* `isBlank` holds the property, as the list of its code points;
* `trim`, `trimStart` and `trimEnd` act on characters, `trimText` on a text;
* `isAllBlank` tells a text without content.
-/

namespace Worksheet.Text

/-- A character of the Unicode class `White_Space`. -/
def isBlank (c : Char) : Bool :=
  let n := c.toNat
  (9 ≤ n && n ≤ 13) || n == 0x20 || n == 0x85 || n == 0xA0 || n == 0x1680 ||
    (0x2000 ≤ n && n ≤ 0x200A) || n == 0x2028 || n == 0x2029 || n == 0x202F || n == 0x205F ||
    n == 0x3000

/-- A control character, the Unicode category `Cc`. -/
def isControl (c : Char) : Bool :=
  let n := c.toNat
  n < 0x20 || (0x7F ≤ n && n ≤ 0x9F)

/-- The characters from the first one that is not blank. -/
def trimStart (cs : List Char) : List Char :=
  cs.dropWhile isBlank

/-- The characters up to the last one that is not blank. -/
def trimEnd (cs : List Char) : List Char :=
  (cs.reverse.dropWhile isBlank).reverse

/-- The characters without blank ones at either end. -/
def trim (cs : List Char) : List Char :=
  trimEnd (trimStart cs)

/-- A text without white space at either end. -/
def trimText (s : String) : String :=
  String.ofList (trim s.toList)

/-- Nothing but white space. -/
def isAllBlank (cs : List Char) : Bool :=
  cs.all isBlank

theorem isBlank_of_isWhitespace (c : Char) (h : c.isWhitespace = true) : isBlank c = true := by
  simp only [Char.isWhitespace, Bool.or_eq_true, decide_eq_true_eq] at h
  rcases h with ((h | h) | h) | h <;> subst h <;> decide

end Worksheet.Text
