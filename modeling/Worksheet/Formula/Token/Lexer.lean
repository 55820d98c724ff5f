import Worksheet.Decimal.Reader
import Worksheet.Formula.Vocabulary
import Worksheet.Text.Blank
import Worksheet.Word
/-!
# Cutting a script into tokens

The lexer reads one lexeme after the other. A lexeme is a token together with the number of
characters it takes; blanks and comments are lexemes without a token. A lexeme takes as many
characters as it can.

* `Lexeme` and the readers `wordLexeme`, `numberLexeme`, `quotedLexeme`, `pieceLexeme`, `signLexeme`;
* `skipLength`: how many characters of white space or comment come first;
* `lex`: all tokens of a script, the last one being `Token.finish` unless a fault comes first.

A text in back quotes may hold blocks of code. The lexer keeps the number of open braces of each
such block, and goes on with the text when its block closes.
-/

namespace Worksheet.Formula

open Worksheet.Text

/-- A token and the number of characters it takes. -/
structure Lexeme where
  token : Token
  length : Nat
  /-- How far into the lexeme a fault is reported. -/
  offset : Nat := 0
  deriving Inhabited

/-! ## White space and comments -/

/-- The number of characters up to the end of a block comment, given how many comments are open. -/
def commentLength : Nat → List Char → Nat
  | _, [] => 0
  | depth, '/' :: '*' :: rest => 2 + commentLength (depth + 1) rest
  | depth, '*' :: '/' :: rest => 2 + (if depth = 0 then 0 else commentLength (depth - 1) rest)
  | depth, _ :: rest => 1 + commentLength depth rest

/-- How many characters of white space or of one comment come first. -/
def skipLength : List Char → Nat
  | '/' :: '/' :: rest => 2 + (rest.takeWhile (· != '\n')).length
  | '/' :: '*' :: rest => 2 + commentLength 0 rest
  | cs => (cs.takeWhile isBlank).length

/-! ## Names -/

/-- What a row of name characters stands for. -/
def wordToken (cs : List Char) : Token :=
  let name := String.ofList cs
  match Keyword.table.find? (·.1 == name) with
  | some (_, k) => .keyword k
  | none =>
    if name = "_" then .mark .underscore
    else if name = "in" then .operator .within
    else if languageWords.contains name then .reserved name
    else if isNameForm cs then .word name
    else .fault (.badName name)

/-- The name at the front. -/
def wordLexeme (cs : List Char) : Lexeme :=
  let name := cs.takeWhile isNameChar
  ⟨wordToken name, name.length, 0⟩

/-! ## Numbers -/

/-- How far a decimal number has come. -/
structure DecimalPhase where
  /-- A point may still follow. -/
  point : Bool := true
  /-- An exponent may still follow. -/
  exponent : Bool := true
  /-- A sign may follow, right after the `e`. -/
  sign : Bool := false

/-- The characters that count of a decimal number, and how many were read. Underscores are read over;
a point needs a digit after it, or something that cannot start a name. -/
def scanDecimal (phase : DecimalPhase) : List Char → List Char × Nat
  | [] => ([], 0)
  | c :: rest =>
    let keep (cs : List Char) (r : List Char × Nat) : List Char × Nat := (cs ++ r.1, 1 + r.2)
    let digitNext : Bool := (rest.head?.map Char.isDigit).getD false
    let signNext : Bool := rest.head? == some '+' || rest.head? == some '-'
    let nameNext : Bool := (rest.head?.map fun d => d == '_' || d == '.' || isNameLetter d).getD false
    if c == '_' then keep [] (scanDecimal { phase with sign := false } rest)
    else if c.isDigit then keep [c] (scanDecimal { phase with sign := false } rest)
    else if phase.sign && (c == '+' || c == '-') then
      keep [c] (scanDecimal { phase with sign := false } rest)
    else if c == '.' && phase.point then
      if digitNext then keep [c] (scanDecimal { phase with point := false, sign := false } rest)
      else if nameNext then ([], 0)
      else (['.', '0'], 1)
    else if c == 'e' && phase.exponent && (digitNext || signNext) then
      keep [c] (scanDecimal ⟨false, false, true⟩ rest)
    else ([], 0)

/-- The number that hexadecimal or binary digits stand for. -/
def radixValue? (radix : Nat) (cs : List Char) : Option Nat :=
  if cs.isEmpty then none
  else cs.foldlM (fun n c =>
    let d := if c.isDigit then c.toNat - 48 else c.toLower.toNat - 87
    if (c.isDigit || ('a' ≤ c.toLower && c.toLower ≤ 'f')) && d < radix then some (radix * n + d)
    else none) 0

/-- The token of a decimal number: an integer if it fits, else the nearest double. -/
def decimalToken (negative : Bool) (kept : List Char) : Token :=
  let written := if negative then '-' :: kept else kept
  let n : Int := if negative then -(digitsValue kept : Int) else digitsValue kept
  if kept.all Char.isDigit && Word.fits n then .int n
  else
    match Decimal.read? written with
    | some d => .float d.toBinary64
    | none => .fault (.badNumber (String.ofList written))

/-- The number at the front, whose first character is a digit. -/
def numberLexeme (negative : Bool) (cs : List Char) : Lexeme :=
  let radix : Option Nat := match cs with
    | '0' :: c :: _ =>
      if c == 'x' || c == 'X' then some 16
      else if c == 'o' || c == 'O' then some 8
      else if c == 'b' || c == 'B' then some 2
      else none
    | _ => none
  match radix with
  | some r =>
    let isDigitHere (c : Char) : Bool :=
      c == '_' || (if r == 16 then c.isDigit || ('a' ≤ c.toLower && c.toLower ≤ 'f')
        else if r == 8 then '0' ≤ c && c ≤ '7' else c == '0' || c == '1')
    let run := (cs.drop 2).takeWhile isDigitHere
    match radixValue? r (run.filter (· != '_')) with
    | some n =>
      if n < Word.size then
        ⟨.int (Word.ofNat (if negative then Word.size - n else n)), 2 + run.length, 0⟩
      else ⟨.fault (.badNumber (String.ofList (cs.take (2 + run.length)))), 2 + run.length, 0⟩
    | none => ⟨.fault (.badNumber (String.ofList (cs.take (2 + run.length)))), 2 + run.length, 0⟩
  | none =>
    let (kept, length) := scanDecimal {} cs
    ⟨decimalToken negative kept, length, 0⟩

/-! ## Texts in quotes -/

/-- How a text between quotes ends. -/
inductive TextEnd
  | closed
  /-- At the dollar sign before a block. -/
  | block
  /-- At the end of the line or of the script. -/
  | missing
  /-- At an escape that is not known, after so many characters. -/
  | badEscape (written : List Char) (offset : Nat)
  deriving Inhabited

/-- The characters of a text, how many were read, and how it ended. -/
structure TextScan where
  chars : List Char
  length : Nat
  ending : TextEnd
  deriving Inhabited

namespace TextScan

/-- The scan of a text that starts with `n` characters more, which stand for `cs`. -/
def before (cs : List Char) (n : Nat) (s : TextScan) : TextScan :=
  ⟨cs ++ s.chars, n + s.length, match s.ending with
    | .badEscape written offset => .badEscape written (n + offset)
    | e => e⟩

end TextScan

/-- Reads `width` hexadecimal digits; a failure gives the characters up to the one that is none. -/
def readHex (width : Nat) (cs : List Char) : Except (List Char) Nat :=
  let run := cs.take width
  let good := run.takeWhile fun c => c.isDigit || ('a' ≤ c.toLower && c.toLower ≤ 'f')
  if good.length = width then .ok ((radixValue? 16 good).getD 0)
  else .error (run.take (good.length + 1))

/-- A code point that is a character. -/
def charOf? (n : Nat) : Option Char :=
  if n.isValidChar then some (Char.ofNat n) else none

/-- Reads a text up to its closing quote. A doubled quote stands for one quote; a backslash at the
end of a line joins the next line, whose blanks are left out up to column `margin`. The second
argument bounds the number of steps. -/
def scanQuoted (quote : Char) (margin : Nat) : Nat → List Char → TextScan
  | 0, _ => ⟨[], 0, .missing⟩
  | _, [] => ⟨[], 0, .missing⟩
  | fuel + 1, '\\' :: c :: rest =>
    let escape (width : Nat) : TextScan :=
      match readHex width rest with
      | .ok n =>
        match charOf? n with
        | some d => (scanQuoted quote margin fuel (rest.drop width)).before [d] (2 + width)
        | none => ⟨[], 0, .badEscape ('\\' :: c :: rest.take width) (1 + width)⟩
      | .error written => ⟨[], 0, .badEscape ('\\' :: c :: written) (1 + written.length)⟩
    if c == 'n' then (scanQuoted quote margin fuel rest).before ['\n'] 2
    else if c == 'r' then (scanQuoted quote margin fuel rest).before ['\r'] 2
    else if c == 't' then (scanQuoted quote margin fuel rest).before ['\t'] 2
    else if c == '\\' || c == '\"' || c == '\'' then
      (scanQuoted quote margin fuel rest).before [c] 2
    else if c == 'x' then escape 2
    else if c == 'u' then escape 4
    else if c == 'U' then escape 8
    else if c == '\n' && quote == '\"' then
      let blanks := (rest.take margin).takeWhile fun d => isBlank d && d != '\n'
      (scanQuoted quote margin fuel (rest.drop blanks.length)).before [] (2 + blanks.length)
    else ⟨[], 0, .badEscape ['\\', c] 1⟩
  | fuel + 1, c :: rest =>
    if c == quote then
      match rest with
      | d :: more =>
        if d == quote then (scanQuoted quote margin fuel more).before [quote] 2
        else ⟨[], 1, .closed⟩
      | [] => ⟨[], 1, .closed⟩
    else if c == '\n' then ⟨[], 0, .missing⟩
    else if c == '\r' && rest.head? == some '\n' then
      (scanQuoted quote margin fuel rest).before [] 1
    else (scanQuoted quote margin fuel rest).before [c] 1

/-- The back quote. -/
def backQuote : Char := Char.ofNat 96

/-- Reads a text in back quotes up to its end or up to the next block. -/
def scanVerbatim : List Char → TextScan
  | [] => ⟨[], 0, .missing⟩
  | [c] => if c == backQuote then ⟨[], 1, .closed⟩ else ⟨[c], 1, .missing⟩
  | c :: d :: rest =>
    if c == backQuote then
      if d == backQuote then (scanVerbatim rest).before [c] 2 else ⟨[], 1, .closed⟩
    else if c == '$' && d == '\x7b' then ⟨[], 1, .block⟩
    else if c == '\r' && d == '\n' then (scanVerbatim (d :: rest)).before [] 1
    else (scanVerbatim (d :: rest)).before [c] 1

/-- The text in double quotes at the front, given the column of its opening quote. -/
def quotedLexeme (column : Nat) (cs : List Char) : Lexeme :=
  let body := cs.drop 1
  let s := scanQuoted '\"' column (body.length + 1) body
  match s.ending with
  | .badEscape written offset => ⟨.fault (.badEscape (String.ofList written)), 1 + s.length, 1 + offset⟩
  | .missing => ⟨.fault .openText, 1 + s.length, 0⟩
  | _ => ⟨.text (String.ofList s.chars), 1 + s.length, 0⟩

/-- The character in single quotes at the front. -/
def charLexeme (cs : List Char) : Lexeme :=
  let body := cs.drop 1
  if body.head? == some '\'' then ⟨.fault (.badChar ""), 1, 0⟩
  else
    let s := scanQuoted '\'' 0 (body.length + 1) body
    match s.ending with
    | .badEscape written offset =>
      ⟨.fault (.badEscape (String.ofList written)), 1 + s.length, 1 + offset⟩
    | .missing => ⟨.fault .openText, 1 + s.length, 0⟩
    | _ =>
      match s.chars with
      | [c] => ⟨.char c, 1 + s.length, 0⟩
      | more => ⟨.fault (.badChar (String.ofList more)), 1 + s.length, 0⟩

/-- The next piece of a text in back quotes. -/
def pieceLexeme (cs : List Char) : Lexeme :=
  let s := scanVerbatim cs
  match s.ending with
  | .block => ⟨.piece (String.ofList s.chars), s.length, 0⟩
  | .closed => ⟨.text (String.ofList s.chars), s.length, 0⟩
  | _ => ⟨.fault .openText, s.length, 0⟩

/-- The length of a line ending right after an opening back quote, which is left out. -/
def leadingBreak : List Char → Nat
  | '\r' :: '\n' :: _ => 2
  | '\r' :: _ => 1
  | '\n' :: _ => 1
  | _ => 0

/-- The text in back quotes at the front. -/
def verbatimLexeme (cs : List Char) : Lexeme :=
  let skipped := 1 + leadingBreak (cs.drop 1)
  let l := pieceLexeme (cs.drop skipped)
  ⟨l.token, skipped + l.length, 0⟩

/-! ## Operators and marks -/

/-- The spellings of marks, operators and reserved signs, a longer one before its beginnings. -/
def signs : List (String × Token) := [
  ("\x7b", .mark .openBrace), ("\x7d", .mark .closeBrace),
  ("()", .mark .emptyParens), ("(*", .reserved "(*"), ("(", .mark .openParen),
  (")", .mark .closeParen), ("[", .mark .openBracket), ("]", .mark .closeBracket),
  ("#\x7b", .mark .openRecord), ("#!", .reserved "#!"), ("#", .reserved "#"),
  ("+=", .assign (some .add)), ("++", .reserved "++"), ("+", .operator .add),
  ("-=", .assign (some .sub)), ("->", .reserved "->"), ("--", .reserved "--"),
  ("-", .operator .sub),
  ("*)", .reserved "*)"), ("*=", .assign (some .mul)), ("**=", .assign (some .pow)),
  ("**", .operator .pow), ("*", .operator .mul),
  ("/=", .assign (some .div)), ("/", .operator .div),
  (";", .mark .semicolon), (",", .mark .comma),
  ("...", .reserved "..."), ("..=", .operator .rangeThrough), ("..", .operator .range),
  (".", .mark .dot),
  ("===", .reserved "==="), ("==", .operator .equal), ("=>", .mark .arrow), ("=", .assign none),
  ("::<", .reserved "::<"), ("::", .mark .doubleColon), (":=", .reserved ":="),
  (":;", .reserved ":;"), (":", .mark .colon),
  ("<=", .operator .lessEqual), ("<-", .reserved "<-"), ("<<=", .assign (some .shiftLeft)),
  ("<<|", .reserved "<<|"), ("<<", .operator .shiftLeft), ("<|", .reserved "<|"),
  ("<", .operator .less),
  (">=", .operator .greaterEqual), (">>=", .assign (some .shiftRight)),
  (">>", .operator .shiftRight), (">", .operator .greater),
  ("!==", .reserved "!=="), ("!=", .operator .unequal), ("!.", .reserved "!."), ("!", .mark .bang),
  ("||", .operator .either), ("|=", .assign (some .bitOr)), ("|>", .reserved "|>"),
  ("|", .operator .bitOr),
  ("&&", .operator .both), ("&=", .assign (some .bitAnd)), ("&", .operator .bitAnd),
  ("^=", .assign (some .bitXor)), ("^", .operator .bitXor),
  ("%=", .assign (some .rem)), ("%", .operator .rem),
  ("~", .reserved "~"), ("@", .reserved "@"), ("$", .reserved "$"),
  ("??", .operator .coalesce), ("?.", .reserved "?."), ("?[", .reserved "?["),
  ("?", .reserved "?")]

/-- The operator or mark at the front, or the fault of a character that starts no token. -/
def signLexeme (cs : List Char) : Lexeme :=
  match signs.find? (·.1.toList.isPrefixOf cs) with
  | some (written, token) => ⟨token, written.length, 0⟩
  | none => ⟨.fault (.strayChar (cs.headD ' ')), 1, 0⟩

/-! ## The whole script -/

/-- The next lexeme, where the first character is neither blank nor the start of a comment.
`operand` tells that an operand is due, so that a minus belongs to it. -/
def nextLexeme (operand : Bool) (column : Nat) (cs : List Char) : Lexeme :=
  match cs with
  | [] => ⟨.finish, 0, 0⟩
  | c :: rest =>
    if isNameLetter c || c == '_' then wordLexeme cs
    else if c.isDigit then numberLexeme false cs
    else if c == '\"' then quotedLexeme column cs
    else if c == '\'' then charLexeme cs
    else if c == backQuote then verbatimLexeme cs
    else if c == '-' && operand && (rest.head?.map Char.isDigit).getD false then
      let l := numberLexeme true rest
      ⟨l.token, 1 + l.length, 0⟩
    else
      let l := signLexeme cs
      match l.token with
      | .operator .sub => ⟨if operand then .negative else l.token, l.length, 0⟩
      | .operator .add => ⟨if operand then .positive else l.token, l.length, 0⟩
      | _ => l

/-- Where the lexer stands: the place of the next character, whether an operand is due, and the
number of open braces in each block inside a text. -/
structure LexState where
  place : Place
  operand : Bool
  blocks : List Nat
  deriving Inhabited

namespace LexState

/-- Counts a brace. The second part tells that a block inside a text has just closed. -/
def countBrace (blocks : List Nat) : Token → List Nat × Bool
  | .piece _ => (0 :: blocks, false)
  | .mark .openBrace | .mark .openRecord =>
    match blocks with
    | n :: others => ((n + 1) :: others, false)
    | [] => ([], false)
  | .mark .closeBrace =>
    match blocks with
    | n :: others => if n ≤ 1 then (others, true) else ((n - 1) :: others, false)
    | [] => ([], false)
  | _ => (blocks, false)

end LexState

/-- The tokens of the rest of a script. `resume` tells that the rest goes on with a text. Every round
but the last takes a character, so as many rounds as there are characters are enough. -/
def lexFrom : Nat → LexState → Bool → List Char → List Located
  | 0, st, _, _ => [⟨.finish, st.place⟩]
  | fuel + 1, st, resume, cs =>
    let skipped := if resume then 0 else skipLength cs
    if skipped ≠ 0 then
      lexFrom fuel { st with place := st.place.after (cs.take skipped) } false (cs.drop skipped)
    else
      let l := if resume then pieceLexeme cs else nextLexeme st.operand st.place.column cs
      match l.token with
      | .finish => [⟨.finish, st.place⟩]
      | .fault f => [⟨.fault f, st.place.after (cs.take l.offset)⟩]
      | token =>
        let (blocks, closed) := LexState.countBrace st.blocks token
        ⟨token, st.place⟩ :: lexFrom fuel
          ⟨st.place.after (cs.take l.length), token.expectsOperand, blocks⟩ closed
          (cs.drop l.length)

/-- The tokens of a script. -/
def lex (script : List Char) : List Located :=
  lexFrom (script.length + 1) ⟨Place.start, true, []⟩ false script

end Worksheet.Formula
