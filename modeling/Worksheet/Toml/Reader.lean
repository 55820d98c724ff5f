import Worksheet.Decimal.Reader
import Worksheet.Toml
import Worksheet.Word
/-!
# Reading TOML

The grammar of TOML 1.0. A document is read line by line; a line holds a key with its value or the
header of a table, and a comment may follow.

* texts in four notations, numbers, truth values, dates and times, arrays, tables in braces;
* `TomlTable.read?`: a whole document.
-/

namespace Worksheet.Toml

/-! ## Blanks and comments -/

/-- A character that a comment or a text may hold as it stands. -/
def isPlain (c : Char) : Bool :=
  c == '\t' || (32 ≤ c.toNat && c.toNat != 127)

/-- The characters after the blanks of a line. -/
def skipBlanks (cs : List Char) : List Char :=
  cs.dropWhile fun c => c == ' ' || c == '\t'

/-- Takes a line ending off the front. -/
def newline? : List Char → Option (List Char)
  | '\n' :: rest => some rest
  | '\r' :: '\n' :: rest => some rest
  | _ => none

/-- The characters after a comment, if one starts here. -/
def skipComment : List Char → List Char
  | '#' :: rest => rest.dropWhile isPlain
  | cs => cs

/-- The characters after blanks, line endings and comments, `fuel` bounding their number. -/
def skipLines : Nat → List Char → List Char
  | 0, cs => cs
  | fuel + 1, cs =>
    let rest := skipComment (skipBlanks cs)
    match newline? rest with
    | some rest => skipLines fuel rest
    | none => rest

/-- Ends a line: blanks, a comment, and a line ending or the end of the document. -/
def endLine? (cs : List Char) : Option (List Char) :=
  match skipComment (skipBlanks cs) with
  | [] => some []
  | rest => newline? rest

/-! ## Texts -/

/-- The character of a number, which must not be half of a surrogate pair. -/
def scalarChar? (n : Nat) : Option Char :=
  if n.isValidChar then some (Char.ofNat n) else none

/-- The value of a digit in a base up to 16. -/
def digitIn? (base : Nat) (c : Char) : Option Nat :=
  let n := if '0' ≤ c ∧ c ≤ '9' then c.toNat - '0'.toNat
    else if 'a' ≤ c ∧ c ≤ 'f' then c.toNat - 'a'.toNat + 10
    else if 'A' ≤ c ∧ c ≤ 'F' then c.toNat - 'A'.toNat + 10
    else base
  if n < base then some n else none

/-- Reads a character by its number, in `width` hexadecimal digits. -/
def numbered? (width : Nat) (cs : List Char) : Option (Char × List Char) := do
  let digits ← (cs.take width).mapM (digitIn? 16)
  if digits.length = width then
    let c ← scalarChar? (digits.foldl (fun n d => 16 * n + d) 0)
    some (c, cs.drop width)
  else none

/-- Reads what follows a backslash. -/
def escape? : List Char → Option (Char × List Char)
  | 'b' :: rest => some (Char.ofNat 8, rest)
  | 't' :: rest => some ('\t', rest)
  | 'n' :: rest => some ('\n', rest)
  | 'f' :: rest => some (Char.ofNat 12, rest)
  | 'r' :: rest => some ('\r', rest)
  | '\"' :: rest => some ('\"', rest)
  | '\\' :: rest => some ('\\', rest)
  | 'u' :: rest => numbered? 4 rest
  | 'U' :: rest => numbered? 8 rest
  | _ => none

/-- Reads a text on one line, after its opening quote. Escapes count in double quotes. -/
def line? (quote : Char) : Nat → List Char → Option (List Char × List Char)
  | 0, _ => none
  | _, [] => none
  | fuel + 1, c :: rest =>
    if c = quote then some ([], rest)
    else if c = '\\' ∧ quote = '\"' then do
      let (c, rest) ← escape? rest
      let (s, rest) ← line? quote fuel rest
      some (c :: s, rest)
    else if isPlain c then do
      let (s, rest) ← line? quote fuel rest
      some (c :: s, rest)
    else none

/-- After a backslash at the end of a line, the characters from the next one that is no blank. -/
def continued? (cs : List Char) : Option (List Char) :=
  (newline? (skipBlanks cs)).map fun rest =>
    rest.dropWhile fun c => c == ' ' || c == '\t' || c == '\n' || c == '\r'

/-- Reads a text over several lines, after its opening quotes. Up to two quotes may stand right before
the closing ones. -/
def block? (quote : Char) : Nat → List Char → Option (List Char × List Char)
  | 0, _ => none
  | fuel + 1, cs =>
    let quotes := (cs.takeWhile (· == quote)).length
    if 3 ≤ quotes then
      if quotes ≤ 5 then some (List.replicate (quotes - 3) quote, cs.drop quotes) else none
    else
      match cs with
      | [] => none
      | c :: rest =>
        match newline? (c :: rest) with
        | some rest => do
          let (s, rest) ← block? quote fuel rest
          some ('\n' :: s, rest)
        | none =>
          if c = '\\' ∧ quote = '\"' then
            match continued? rest with
            | some rest => block? quote fuel rest
            | none => do
              let (c, rest) ← escape? rest
              let (s, rest) ← block? quote fuel rest
              some (c :: s, rest)
          else if isPlain c then do
            let (s, rest) ← block? quote fuel rest
            some (c :: s, rest)
          else none

/-- Reads a text in any of its notations. -/
def text? (cs : List Char) : Option (String × List Char) :=
  let several (quote : Char) (rest : List Char) : Option (String × List Char) :=
    let rest := (newline? rest).getD rest
    (block? quote (rest.length + 1) rest).map fun (s, rest) => (String.ofList s, rest)
  let single (quote : Char) (rest : List Char) : Option (String × List Char) :=
    (line? quote (rest.length + 1) rest).map fun (s, rest) => (String.ofList s, rest)
  match cs with
  | '\"' :: '\"' :: '\"' :: rest => several '\"' rest
  | '\'' :: '\'' :: '\'' :: rest => several '\'' rest
  | '\"' :: rest => single '\"' rest
  | '\'' :: rest => single '\'' rest
  | _ => none

/-! ## Numbers, truth values, dates -/

/-- Reads digits of a base, with single underscores between digits. -/
def digits (base : Nat) : List Char → List Char × List Char
  | [] => ([], [])
  | c :: rest =>
    if (digitIn? base c).isSome then
      match rest with
      | '_' :: d :: more =>
        if (digitIn? base d).isSome then
          let (ds, rest) := digits base (d :: more)
          (c :: ds, rest)
        else ([c], rest)
      | rest =>
        let (ds, rest) := digits base rest
        (c :: ds, rest)
    else ([], c :: rest)

/-- The number that digits of a base stand for. -/
def valueIn (base : Nat) (ds : List Char) : Nat :=
  ds.foldl (fun n c => base * n + (digitIn? base c).getD 0) 0

/-- An integer that fits into 64 bits. -/
def integerOf? (n : Int) : Option Toml :=
  if Word.fits n then some (.integer n) else none

/-- Reads an integer in a base other than ten, after its mark. -/
def basedInteger? (base : Nat) (cs : List Char) : Option (Toml × List Char) := do
  let (ds, rest) := digits base cs
  if ds.isEmpty then none else (integerOf? (valueIn base ds)).map (·, rest)

/-- Reads the whole part of a number: a zero alone, or digits that do not start with zero. -/
def whole? (cs : List Char) : Option (List Char × List Char) :=
  match digits 10 cs with
  | ([], _) => none
  | ('0' :: _ :: _, _) => some (['0'], cs.drop 1)
  | (ds, rest) => some (ds, rest)

/-- Reads a fraction, if there is one. -/
def fraction? : List Char → Option (List Char × List Char)
  | '.' :: rest =>
    match digits 10 rest with
    | ([], _) => none
    | (ds, rest) => some (ds, rest)
  | cs => some ([], cs)

/-- Reads an exponent, if there is one. -/
def exponent? : List Char → Option (Option Int × List Char)
  | [] => some (none, [])
  | c :: rest =>
    if c = 'e' ∨ c = 'E' then
      let (negative, rest) := takeSign rest
      match digits 10 rest with
      | ([], _) => none
      | (ds, rest) =>
        let n : Int := digitsValue ds
        some (some (if negative then -n else n), rest)
    else some (none, c :: rest)

/-- Reads a number in base ten. A fraction or an exponent makes it a scalar, which must not grow beyond
all doubles. -/
def number? (cs : List Char) : Option (Toml × List Char) := do
  let (negative, body) := takeSign cs
  match body with
  | 'i' :: 'n' :: 'f' :: rest => some (.scalar, rest)
  | 'n' :: 'a' :: 'n' :: rest => some (.scalar, rest)
  | _ =>
    let (ds, rest) ← whole? body
    let (fs, rest) ← fraction? rest
    let (e, rest) ← exponent? rest
    if fs.isEmpty && e.isNone then
      let n : Int := digitsValue ds
      (integerOf? (if negative then -n else n)).map (·, rest)
    else
      let d : Decimal := ⟨negative, digitsValue (ds ++ fs), e.getD 0 - fs.length⟩
      if negative || d.toBinary64.isFinite then some (.scalar, rest) else none

/-- Reads a number of exactly `width` digits within bounds. -/
def field? (width low high : Nat) (cs : List Char) : Option (Nat × List Char) :=
  let ds := cs.take width
  let n := digitsValue ds
  if ds.length = width ∧ ds.all Char.isDigit ∧ low ≤ n ∧ n ≤ high then some (n, cs.drop width)
  else none

/-- Takes a given character off the front. -/
def mark? (c : Char) : List Char → Option (List Char)
  | d :: rest => if d = c then some rest else none
  | [] => none

/-- The number of days in a month. -/
def daysIn (year month : Nat) : Nat :=
  if month = 2 then (if year % 4 = 0 ∧ (year % 100 ≠ 0 ∨ year % 400 = 0) then 29 else 28)
  else if month = 4 ∨ month = 6 ∨ month = 9 ∨ month = 11 then 30
  else 31

/-- Takes a date off the front. -/
def date? (cs : List Char) : Option (List Char) := do
  let (year, rest) ← field? 4 0 9999 cs
  let rest ← mark? '-' rest
  let (month, rest) ← field? 2 1 12 rest
  let rest ← mark? '-' rest
  let (_, rest) ← field? 2 1 (daysIn year month) rest
  some rest

/-- Takes a time of day off the front. -/
def time? (cs : List Char) : Option (List Char) := do
  let (_, rest) ← field? 2 0 23 cs
  let rest ← mark? ':' rest
  let (_, rest) ← field? 2 0 59 rest
  let rest ← mark? ':' rest
  let (_, rest) ← field? 2 0 60 rest
  match rest with
  | '.' :: more =>
    let (ds, more) := more.span Char.isDigit
    if ds.isEmpty then none else some more
  | rest => some rest

/-- Takes an offset from universal time off the front, if there is one. -/
def offset? : List Char → Option (List Char)
  | [] => some []
  | c :: rest =>
    if c = 'Z' ∨ c = 'z' then some rest
    else if c = '+' ∨ c = '-' then do
      let (_, rest) ← field? 2 0 23 rest
      let rest ← mark? ':' rest
      let (_, rest) ← field? 2 0 59 rest
      some rest
    else some (c :: rest)

/-- Takes a date, a time of day or both off the front. -/
def moment? (cs : List Char) : Option (List Char) :=
  match date? cs with
  | none => time? cs
  | some rest =>
    match rest with
    | c :: more =>
      if c = 'T' ∨ c = 't' then (time? more).bind offset?
      else if c = ' ' then
        match time? more with
        | some more => offset? more
        | none => some rest
      else some rest
    | [] => some []

/-- Reads a number, a date or a time. -/
def quantity? (cs : List Char) : Option (Toml × List Char) :=
  match moment? cs with
  | some rest => some (.scalar, rest)
  | none =>
    match cs with
    | '0' :: 'x' :: rest => basedInteger? 16 rest
    | '0' :: 'o' :: rest => basedInteger? 8 rest
    | '0' :: 'b' :: rest => basedInteger? 2 rest
    | cs => number? cs

/-! ## Keys and values -/

/-- A character of a bare key. -/
def isBare (c : Char) : Bool :=
  c.isAlphanum || c == '_' || c == '-'

/-- Reads one part of a key. -/
def keyPart? (cs : List Char) : Option (String × List Char) :=
  match cs with
  | '\"' :: rest => (line? '\"' (rest.length + 1) rest).map fun (s, rest) => (String.ofList s, rest)
  | '\'' :: rest => (line? '\'' (rest.length + 1) rest).map fun (s, rest) => (String.ofList s, rest)
  | cs =>
    let (name, rest) := cs.span isBare
    if name.isEmpty then none else some (String.ofList name, rest)

/-- Reads a key: its parts before the last one, and the last one. -/
def key? : Nat → List Char → Option ((List String × String) × List Char)
  | 0, _ => none
  | fuel + 1, cs => do
    let (part, rest) ← keyPart? (skipBlanks cs)
    match skipBlanks rest with
    | '.' :: rest =>
      let ((path, last), rest) ← key? fuel rest
      some ((part :: path, last), rest)
    | rest => some (([], part), rest)

/-- Reads a key and the equals sign after it. -/
def keyBefore? (cs : List Char) : Option ((List String × String) × List Char) := do
  let (key, rest) ← key? (cs.length + 1) cs
  let rest ← mark? '=' rest
  some (key, skipBlanks rest)

/-- A table as a finished value, tables that arose from dotted keys included. -/
def finished (t : TomlTable) : Toml :=
  .inlined t.entries

mutual

/-- Reads a value. -/
def value? (fuel : Nat) (cs : List Char) : Option (Toml × List Char) :=
  match fuel with
  | 0 => none
  | fuel + 1 =>
    match cs with
    | '\"' :: _ => (text? cs).map fun (s, rest) => (.text s, rest)
    | '\'' :: _ => (text? cs).map fun (s, rest) => (.text s, rest)
    | 't' :: 'r' :: 'u' :: 'e' :: rest => some (.scalar, rest)
    | 'f' :: 'a' :: 'l' :: 's' :: 'e' :: rest => some (.scalar, rest)
    | '[' :: rest => do
      let (items, rest) ← items? fuel rest
      some (.array items, rest)
    | '\x7b' :: rest =>
      match skipBlanks rest with
      | '\x7d' :: rest => some (.inlined [], rest)
      | rest => do
        let (t, rest) ← members? fuel .empty rest
        some (finished t, rest)
    | cs => quantity? cs

/-- Reads items up to the closing bracket; a comma may stand after the last one. -/
def items? (fuel : Nat) (cs : List Char) : Option (List Toml × List Char) :=
  match fuel with
  | 0 => none
  | fuel + 1 =>
    match skipLines cs.length cs with
    | ']' :: rest => some ([], rest)
    | rest => do
      let (v, rest) ← value? fuel rest
      match skipLines rest.length rest with
      | ',' :: rest =>
        let (items, rest) ← items? fuel rest
        some (v :: items, rest)
      | ']' :: rest => some ([v], rest)
      | _ => none

/-- Reads keys with their values up to the closing brace. -/
def members? (fuel : Nat) (t : TomlTable) (cs : List Char) : Option (TomlTable × List Char) :=
  match fuel with
  | 0 => none
  | fuel + 1 => do
    let ((path, key), rest) ← keyBefore? cs
    let (v, rest) ← value? fuel rest
    let t ← t.add? path key v
    match skipBlanks rest with
    | ',' :: rest => members? fuel t rest
    | '\x7d' :: rest => some (t, rest)
    | _ => none

end

/-! ## Documents -/

/-- A document as far as it has been read: all of it, and the path to the table that is open. -/
structure Draft where
  root : TomlTable
  current : List String

/-- Adds a value to the table that is open. -/
def Draft.add? (d : Draft) (path : List String) (key : String) (v : Toml) : Option Draft :=
  (d.root.descend? .implied (fun _ => true) (fun t => t.add? path key v) d.current).map
    fun root => { d with root := root }

/-- Reads the header of a table. -/
def header? (d : Draft) (cs : List Char) : Option (Draft × List Char) :=
  match cs with
  | '[' :: rest => do
    let ((path, key), rest) ← key? (rest.length + 1) rest
    let rest ← mark? ']' rest
    let rest ← mark? ']' rest
    let root ← d.root.append? path key
    some (⟨root, path ++ [key]⟩, rest)
  | rest => do
    let ((path, key), rest) ← key? (rest.length + 1) rest
    let rest ← mark? ']' rest
    let root ← d.root.open? path key
    some (⟨root, path ++ [key]⟩, rest)

/-- Reads what a line holds, if it holds anything. -/
def line (d : Draft) (cs : List Char) : Option (Draft × List Char) :=
  match skipBlanks cs with
  | [] => some (d, [])
  | '#' :: rest => some (d, '#' :: rest)
  | '\n' :: rest => some (d, '\n' :: rest)
  | '\r' :: rest => some (d, '\r' :: rest)
  | '[' :: rest => header? d rest
  | rest => do
    let ((path, key), rest) ← keyBefore? rest
    let (v, rest) ← value? (rest.length + 1) rest
    let d ← d.add? path key v
    some (d, rest)

/-- Reads the lines of a document. -/
def lines? : Nat → Draft → List Char → Option Draft
  | 0, _, _ => none
  | _, d, [] => some d
  | fuel + 1, d, cs => do
    let (d, rest) ← line d cs
    let rest ← endLine? rest
    lines? fuel d rest

end Toml

/-- Reads a document. A byte order mark at its start does not count. -/
def TomlTable.read? (s : String) : Option TomlTable :=
  let cs := match s.toList with
    | c :: rest => if c = Char.ofNat 0xFEFF then rest else c :: rest
    | [] => []
  (Toml.lines? (cs.length + 1) ⟨.empty, []⟩ cs).map Toml.Draft.root

end Worksheet
