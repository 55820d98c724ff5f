import Worksheet.Decimal.Binary64
/-!
# Tokens of the formula language

The words a formula is made of, each with the place where it starts.

* `Place`: line and column, both counted from one;
* `Operator` with its text and its binding strength;
* `Keyword`, `Mark` and `Token`;
* `LexFault`: what can be wrong inside a single token.
-/

namespace Worksheet.Formula

/-- Line and column of a character, both counted from one. -/
structure Place where
  line : Nat
  column : Nat
  deriving DecidableEq, Inhabited, Repr

namespace Place

/-- The place of the first character of a text. -/
def start : Place := ⟨1, 1⟩

/-- The place right after a character that stands at `p`. -/
def next (p : Place) (c : Char) : Place :=
  if c = '\n' then ⟨p.line + 1, 1⟩ else ⟨p.line, p.column + 1⟩

/-- The place right after some characters, the first of which stands at `p`. -/
def after (p : Place) (cs : List Char) : Place :=
  cs.foldl next p

end Place

/-- The operators that stand between two operands. -/
inductive Operator
  | add | sub | mul | div | rem | pow | shiftLeft | shiftRight
  | bitAnd | bitOr | bitXor
  | equal | unequal | less | lessEqual | greater | greaterEqual
  | both | either | coalesce | within | range | rangeThrough
  deriving DecidableEq, Inhabited, Repr

namespace Operator

/-- The operator as it is written. -/
def text : Operator → String
  | add => "+" | sub => "-" | mul => "*" | div => "/" | rem => "%" | pow => "**"
  | shiftLeft => "<<" | shiftRight => ">>"
  | bitAnd => "&" | bitOr => "|" | bitXor => "^"
  | equal => "==" | unequal => "!=" | less => "<" | lessEqual => "<=" | greater => ">"
  | greaterEqual => ">="
  | both => "&&" | either => "||" | coalesce => "??" | within => "in"
  | range => ".." | rangeThrough => "..="

/-- How strongly an operator binds; the larger number binds first. -/
def strength : Operator → Nat
  | either | bitOr | bitXor => 30
  | both | bitAnd => 60
  | equal | unequal => 90
  | within => 110
  | less | lessEqual | greater | greaterEqual => 130
  | coalesce => 135
  | range | rangeThrough => 140
  | add | sub => 150
  | mul | div | rem => 180
  | pow => 190
  | shiftLeft | shiftRight => 210

/-- Of two equal operators in a row the right one is applied first. -/
def bindsRight : Operator → Bool
  | pow => true
  | _ => false

end Operator

/-- The words that the grammar uses itself. -/
inductive Keyword
  | true_ | false_ | let_ | const_ | if_ | else_ | switch_ | do_ | while_ | until_ | loop_ | for_
  | continue_ | break_ | return_ | throw_ | try_ | catch_ | fn_ | private_ | import_ | export_ | as_
  deriving DecidableEq, Inhabited, Repr

namespace Keyword

/-- Every keyword with its spelling. -/
def table : List (String × Keyword) := [
  ("true", true_), ("false", false_), ("let", let_), ("const", const_), ("if", if_),
  ("else", else_), ("switch", switch_), ("do", do_), ("while", while_), ("until", until_),
  ("loop", loop_), ("for", for_), ("continue", continue_), ("break", break_),
  ("return", return_), ("throw", throw_), ("try", try_), ("catch", catch_), ("fn", fn_),
  ("private", private_), ("import", import_), ("export", export_), ("as", as_)]

/-- The keyword as it is written. -/
def text (k : Keyword) : String :=
  ((table.find? (·.2 == k)).map (·.1)).getD ""

end Keyword

/-- Brackets and other marks. -/
inductive Mark
  | openBrace | closeBrace | openParen | closeParen | openBracket | closeBracket
  | emptyParens | openRecord
  | dot | comma | semicolon | colon | doubleColon | arrow | bang | underscore
  deriving DecidableEq, Inhabited, Repr

namespace Mark

/-- The mark as it is written. -/
def text : Mark → String
  | openBrace => "\x7b" | closeBrace => "\x7d" | openParen => "(" | closeParen => ")"
  | openBracket => "[" | closeBracket => "]" | emptyParens => "()" | openRecord => "#\x7b"
  | dot => "." | comma => "," | semicolon => ";" | colon => ":" | doubleColon => "::"
  | arrow => "=>" | bang => "!" | underscore => "_"

end Mark

/-- What can be wrong inside a single token. -/
inductive LexFault
  /-- A text that is not closed. -/
  | openText
  /-- An escape that is not known, up to the character that spoils it. -/
  | badEscape (written : String)
  /-- Not exactly one character between single quotes. -/
  | badChar (written : String)
  /-- Digits that form no number. -/
  | badNumber (written : String)
  /-- A name without a letter before its first digit. -/
  | badName (written : String)
  /-- A character that starts no token. -/
  | strayChar (c : Char)
  deriving DecidableEq, Inhabited, Repr

/-- The words a formula is made of. -/
inductive Token
  | word (name : String)
  | keyword (k : Keyword)
  /-- A word or mark that is kept for later use. -/
  | reserved (text : String)
  | int (n : Int)
  | float (x : Binary64)
  | char (c : Char)
  | text (s : String)
  /-- A piece of an interpolated text, up to the block that follows. -/
  | piece (s : String)
  | operator (op : Operator)
  /-- A minus where an operand is due. -/
  | negative
  /-- A plus where an operand is due. -/
  | positive
  /-- An assignment, with the operator applied on the way. -/
  | assign (op : Option Operator)
  | mark (m : Mark)
  | fault (f : LexFault)
  /-- The end of the script. -/
  | finish
  deriving DecidableEq, Inhabited

namespace Token

/-- The token as a complaint names it. -/
def display : Token → String
  | word name => name
  | keyword k => k.text
  | reserved s => s
  | int n => toString n
  | float _ => ""
  | char c => String.singleton c
  | text s => s
  | piece s => s
  | operator op => op.text
  | negative => "-"
  | positive => "+"
  | assign none => "="
  | assign (some op) => op.text ++ "="
  | mark m => m.text
  | fault _ => ""
  | finish => ""

/-- After this token an operand is due, so that a minus belongs to the operand. -/
def expectsOperand : Token → Bool
  | operator _ | negative | positive | assign _ => true
  | keyword .if_ | keyword .while_ | keyword .until_ | keyword .return_ | keyword .throw_ => true
  | mark .semicolon | mark .colon | mark .comma | mark .openBrace | mark .openParen
  | mark .openBracket | mark .bang => true
  | _ => false

end Token

/-- A token and the place where it starts. -/
structure Located where
  token : Token
  place : Place
  deriving DecidableEq, Inhabited

end Worksheet.Formula
