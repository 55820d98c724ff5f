import Worksheet.Json
/-!
# Reading JSON

The grammar of JSON, and nothing more: no comments, no commas before a closing bracket, no raw control
characters inside a text, nothing after the value but blanks.

* `scanText`: a text as characters and 16-bit units; `joinPieces` puts surrogate pairs together;
* `scanNumber`: a number in its notation;
* `Json.read?`: the value of a whole text.

Brackets may be nested `maxDepth` deep; what lies deeper is read and cannot be used.
-/

namespace Worksheet.Json

/-- The white space of JSON. -/
def isSpace (c : Char) : Bool :=
  c == ' ' || c == '\t' || c == '\n' || c == '\r'

/-- The characters from the first one that is no white space. -/
def skipSpace (cs : List Char) : List Char :=
  cs.dropWhile isSpace

/-! ## Texts -/

/-- A part of a text. -/
inductive Piece
  /-- A character, as it stands or by a short escape. -/
  | char (c : Char)
  /-- A 16-bit unit, by its number. -/
  | unit (n : Nat)

/-- The value of a hexadecimal digit. -/
def hexDigit? (c : Char) : Option Nat :=
  if '0' ≤ c ∧ c ≤ '9' then some (c.toNat - '0'.toNat)
  else if 'a' ≤ c ∧ c ≤ 'f' then some (c.toNat - 'a'.toNat + 10)
  else if 'A' ≤ c ∧ c ≤ 'F' then some (c.toNat - 'A'.toNat + 10)
  else none

/-- The unit that four hexadecimal digits stand for. -/
def unit? (a b c d : Char) : Option Nat := do
  let a ← hexDigit? a
  let b ← hexDigit? b
  let c ← hexDigit? c
  let d ← hexDigit? d
  some (a * 4096 + b * 256 + c * 16 + d)

/-- The character that an escape of one letter stands for. -/
def shortEscape? : Char → Option Char
  | '\"' => some '\"'
  | '\\' => some '\\'
  | '/' => some '/'
  | 'b' => some (Char.ofNat 8)
  | 'f' => some (Char.ofNat 12)
  | 'n' => some '\n'
  | 'r' => some '\r'
  | 't' => some '\t'
  | _ => none

/-- Reads a text up to its closing quote. -/
def scanText : List Char → Option (List Piece × List Char)
  | [] => none
  | '\"' :: rest => some ([], rest)
  | '\\' :: 'u' :: a :: b :: c :: d :: rest => do
    let n ← unit? a b c d
    let (pieces, rest) ← scanText rest
    some (.unit n :: pieces, rest)
  | '\\' :: e :: rest => do
    let c ← shortEscape? e
    let (pieces, rest) ← scanText rest
    some (.char c :: pieces, rest)
  | c :: rest => do
    if c == '\\' || c.toNat < 32 then none
    else
      let (pieces, rest) ← scanText rest
      some (.char c :: pieces, rest)

/-- The first half of a surrogate pair. -/
def isHighUnit (n : Nat) : Bool :=
  0xD800 ≤ n && n ≤ 0xDBFF

/-- The second half of a surrogate pair. -/
def isLowUnit (n : Nat) : Bool :=
  0xDC00 ≤ n && n ≤ 0xDFFF

/-- The characters of the pieces, each surrogate pair as one; there are none if a half stands alone. -/
def joinPieces : List Piece → Option (List Char)
  | [] => some []
  | .char c :: rest => (joinPieces rest).map (c :: ·)
  | .unit n :: .unit m :: rest =>
    if isHighUnit n then
      if isLowUnit m then
        (joinPieces rest).map (Char.ofNat (0x10000 + (n - 0xD800) * 1024 + (m - 0xDC00)) :: ·)
      else none
    else if isLowUnit n then none
    else (joinPieces (.unit m :: rest)).map (Char.ofNat n :: ·)
  | .unit n :: rest =>
    if isHighUnit n || isLowUnit n then none else (joinPieces rest).map (Char.ofNat n :: ·)

/-! ## Numbers -/

/-- Reads the digits before the point: a zero alone, or digits that do not start with zero. -/
def scanWhole : List Char → Option (List Char × List Char)
  | '0' :: rest => some (['0'], rest)
  | cs =>
    let (digits, rest) := cs.span Char.isDigit
    if digits.isEmpty then none else some (digits, rest)

/-- Reads the digits after a point, if there is a point. -/
def scanFraction : List Char → Option (Option (List Char) × List Char)
  | '.' :: rest =>
    let (digits, rest) := rest.span Char.isDigit
    if digits.isEmpty then none else some (some digits, rest)
  | cs => some (none, cs)

/-- Reads an exponent, if there is one. -/
def scanExponent : List Char → Option (Option Int × List Char)
  | [] => some (none, [])
  | c :: rest =>
    if c == 'e' || c == 'E' then
      let (negative, rest) := takeSign rest
      let (digits, rest) := rest.span Char.isDigit
      if digits.isEmpty then none
      else
        let n : Int := digitsValue digits
        some (some (if negative then -n else n), rest)
    else some (none, c :: rest)

/-- The number of given parts. -/
def numberOf (negative : Bool) (whole : List Char) (fraction : Option (List Char))
    (exponent : Option Int) : Json :=
  let d : Decimal :=
    ⟨negative, digitsValue (whole ++ fraction.getD []), exponent.getD 0 - (fraction.getD []).length⟩
  if !d.toBinary64.isFinite then unusable
  else if fraction.isNone && exponent.isNone && !(negative && d.digits == 0) then
    integer (if negative then -(d.digits : Int) else d.digits)
  else decimal d

/-- Reads a number. -/
def scanNumber (cs : List Char) : Option (Json × List Char) := do
  let (negative, body) := match cs with
    | '-' :: rest => (true, rest)
    | cs => (false, cs)
  let (whole, rest) ← scanWhole body
  let (fraction, rest) ← scanFraction rest
  let (exponent, rest) ← scanExponent rest
  some (numberOf negative whole fraction exponent, rest)

/-! ## Values -/

/-- How deep brackets may be nested. -/
def maxDepth : Nat := 127

/-- An array of items, unless it lies too deep. -/
def arrayAt (depth : Nat) (items : List Json) : Json :=
  if depth = 0 then unusable else array items

/-- An object of members, unless it lies too deep or a name is no text. -/
def objectAt (depth : Nat) (members : List (Option String × Json)) : Json :=
  match depth, members.mapM fun m => m.1.map (·, m.2) with
  | 0, _ => unusable
  | _, none => unusable
  | _, some members => object members

mutual

/-- Reads a value, blanks before it aside. `depth` is how deep brackets may still be nested, and
`fuel` bounds the number of parts. -/
def readValue (fuel depth : Nat) (cs : List Char) : Option (Json × List Char) :=
  match fuel with
  | 0 => none
  | fuel + 1 =>
    match skipSpace cs with
    | 'n' :: 'u' :: 'l' :: 'l' :: rest => some (null, rest)
    | 't' :: 'r' :: 'u' :: 'e' :: rest => some (bool true, rest)
    | 'f' :: 'a' :: 'l' :: 's' :: 'e' :: rest => some (bool false, rest)
    | '\"' :: rest => do
      let (pieces, rest) ← scanText rest
      match joinPieces pieces with
      | some s => some (text (String.ofList s), rest)
      | none => some (unusable, rest)
    | '[' :: rest =>
      match skipSpace rest with
      | ']' :: rest => some (arrayAt depth [], rest)
      | rest => do
        let (items, rest) ← readItems fuel (depth - 1) rest
        some (arrayAt depth items, rest)
    | '\x7b' :: rest =>
      match skipSpace rest with
      | '\x7d' :: rest => some (objectAt depth [], rest)
      | rest => do
        let (members, rest) ← readMembers fuel (depth - 1) rest
        some (objectAt depth members, rest)
    | rest => scanNumber rest

/-- Reads items up to the closing bracket. -/
def readItems (fuel depth : Nat) (cs : List Char) : Option (List Json × List Char) :=
  match fuel with
  | 0 => none
  | fuel + 1 => do
    let (j, rest) ← readValue fuel depth cs
    match skipSpace rest with
    | ',' :: rest => do
      let (items, rest) ← readItems fuel depth rest
      some (j :: items, rest)
    | ']' :: rest => some ([j], rest)
    | _ => none

/-- Reads members up to the closing brace. A name that holds half a surrogate pair is absent. -/
def readMembers (fuel depth : Nat) (cs : List Char) :
    Option (List (Option String × Json) × List Char) :=
  match fuel with
  | 0 => none
  | fuel + 1 => do
    match skipSpace cs with
    | '\"' :: rest =>
      let (pieces, rest) ← scanText rest
      let name := (joinPieces pieces).map String.ofList
      match skipSpace rest with
      | ':' :: rest =>
        let (j, rest) ← readValue fuel depth rest
        match skipSpace rest with
        | ',' :: rest =>
          let (members, rest) ← readMembers fuel depth rest
          some ((name, j) :: members, rest)
        | '\x7d' :: rest => some ([(name, j)], rest)
        | _ => none
      | _ => none
    | _ => none

end

/-- The value that a whole text stands for. -/
def read? (s : String) : Option Json :=
  match readValue (s.length + 1) maxDepth s.toList with
  | some (j, rest) => if (skipSpace rest).isEmpty then some j else none
  | none => none

end Worksheet.Json
