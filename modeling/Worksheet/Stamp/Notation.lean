import Worksheet.Decimal.Reader
import Worksheet.Stamp
import Worksheet.Text.Blank
/-!
# The notation of stamps

A stamp is written as date, `T`, time of day and `Z`, with as many digits after the point as its
nanoseconds need, in groups of three. A year outside of 0 to 9999 has a sign.

Reading allows for more: white space between the parts, parts of one digit, any offset from universal
time, `t` or a blank in place of `T`.

* `Stamp.text` writes a stamp, `Stamp.read?` reads one.
-/

namespace Worksheet

open Worksheet.Text

namespace Stamp

/-! ## Writing -/

/-- A number on at least `width` places. -/
def padded (width n : Nat) : List Char :=
  let digits := Nat.toDigits 10 n
  List.replicate (width - digits.length) '0' ++ digits

/-- A year. -/
def yearText (year : Int) : List Char :=
  if 0 ≤ year ∧ year ≤ 9999 then padded 4 year.toNat
  else (if year < 0 then '-' else '+') :: padded 4 year.natAbs

/-- The fraction of a second. -/
def fractionText (n : Nat) : List Char :=
  if n = 0 then []
  else if n % 1000000 = 0 then '.' :: padded 3 (n / 1000000)
  else if n % 1000 = 0 then '.' :: padded 6 (n / 1000)
  else '.' :: padded 9 n

/-- The characters of a stamp. -/
def chars (s : Stamp) : List Char :=
  yearText s.day.year ++ ['-'] ++ padded 2 s.day.month ++ ['-'] ++ padded 2 s.day.day ++ ['T'] ++
    padded 2 s.hour ++ [':'] ++ padded 2 s.minute ++ [':'] ++ padded 2 s.second ++
    fractionText s.nanosecond ++ ['Z']

/-- The text of a stamp. -/
def text (s : Stamp) : String :=
  String.ofList s.chars

/-! ## Reading -/

/-- Reads at least one digit and at most `width`. -/
def readDigits (width : Nat) (cs : List Char) : Option (Nat × List Char) :=
  let digits := (cs.take width).takeWhile Char.isDigit
  if digits.isEmpty then none else some (digitsValue digits, cs.drop digits.length)

/-- Reads a part of at most two digits, white space before it aside. -/
def readPart (cs : List Char) : Option (Nat × List Char) :=
  readDigits 2 (trimStart cs)

/-- Reads a mark, white space before it aside. -/
def readMark (mark : Char) (cs : List Char) : Option (List Char) :=
  match trimStart cs with
  | c :: rest => if c = mark then some rest else none
  | [] => none

/-- Reads a year: four digits at most, or any number of them after a sign. -/
def readYear (cs : List Char) : Option (Int × List Char) :=
  match trimStart cs with
  | '-' :: rest => (readDigits rest.length rest).map fun (n, rest) => (-(n : Int), rest)
  | '+' :: rest => (readDigits rest.length rest).map fun (n, rest) => ((n : Int), rest)
  | cs => (readDigits 4 cs).map fun (n, rest) => ((n : Int), rest)

/-- Reads a day. -/
def readDay (cs : List Char) : Option (Day × List Char) := do
  let (year, rest) ← readYear cs
  let rest ← readMark '-' rest
  let (month, rest) ← readPart rest
  let rest ← readMark '-' rest
  let (day, rest) ← readPart rest
  some (⟨year, month, day⟩, rest)

/-- The nanoseconds that the digits after the point stand for; digits after the ninth do not count. -/
def nanoseconds (digits : List Char) : Nat :=
  let kept := digits.take 9
  digitsValue kept * Nat.pow 10 (9 - kept.length)

/-- Reads the fraction of a second, if there is one. -/
def readFraction : List Char → Option (Nat × List Char)
  | '.' :: rest =>
    let (digits, rest) := rest.span Char.isDigit
    if digits.isEmpty then none else some (nanoseconds digits, rest)
  | cs => some (0, cs)

/-- Two digits, the first one not above `top`. -/
def readPair (top : Char) : List Char → Option (Nat × List Char)
  | c :: d :: rest =>
    if c.isDigit && d.isDigit && c ≤ top then some (digitsValue [c, d], rest) else none
  | _ => none

/-- Whether a sign stands for minus; the hyphen and the mathematical minus both do. -/
def isMinus? (c : Char) : Option Bool :=
  if c = '+' then some false
  else if c = '-' ∨ c = Char.ofNat 0x2212 then some true
  else none

/-- Reads a signed offset, in minutes: hours and minutes of two digits, colons and white space between
them aside. -/
def readSignedOffset : List Char → Option (Int × List Char)
  | [] => none
  | sign :: rest => do
    let negative ← isMinus? sign
    let (hours, rest) ← readPair '9' rest
    let (minutes, rest) ← readPair '5' (rest.dropWhile fun c => c == ':' || isBlank c)
    let total : Int := (hours * 60 + minutes : Nat)
    if hours < 24 then some (if negative then -total else total, rest) else none

/-- Reads an offset from universal time, in minutes. -/
def readOffset (cs : List Char) : Option (Int × List Char) :=
  if (cs.take 1).map Char.toLower = ['z'] then some (0, cs.drop 1)
  else if (cs.take 3).map Char.toLower = ['u', 't', 'c'] then some (0, cs.drop 3)
  else readSignedOffset cs

/-- Reads the mark between day and time of day. -/
def readSeparator : List Char → Option (List Char)
  | c :: rest => if c = 'T' ∨ c = 't' ∨ c = ' ' then some rest else none
  | [] => none

/-- Reads a stamp that takes up the whole text. -/
def read? (s : String) : Option Stamp := do
  let (day, rest) ← readDay s.toList
  let rest ← readSeparator rest
  let (hour, rest) ← readPart rest
  let rest ← readMark ':' rest
  let (minute, rest) ← readPart rest
  let rest ← readMark ':' rest
  let (second, rest) ← readPart rest
  let (nanosecond, rest) ← readFraction rest
  let (offset, rest) ← readOffset (trimStart rest)
  if isAllBlank rest then ofLocal? day hour minute second nanosecond offset else none

end Stamp

end Worksheet
