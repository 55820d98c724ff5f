import Worksheet.Formula.Preamble
import Worksheet.Text.Lines
/-!
# Compiled formulas

A formula is compiled for one row: the preamble, the text of the author, and a call of the entry
function `fx` make up a script. An expression becomes the body of `fx`, each line indented, with
`return` before the last line of code. A module is taken as it is.

* `wrappedLines`: the lines of an expression as they stand in the script;
* `Compiled` and `compile`;
* `Compiled.userLine?`, `Compiled.formulaLine?`: from lines of the script to lines of the author;
* `Compiled.locate`: a message with its place, in the author's lines where that is possible.
-/

namespace Worksheet.Formula

open Worksheet.Text

/-! ## Lines of an expression -/

/-- What stands before each line of an expression. -/
def indentation : List Char := [' ', ' ', ' ', ' ']

/-- The word put before the last line of code. -/
def returnWord : List Char := "return ".toList

/-- The line starts with the word `return`. -/
def returns (line : List Char) : Bool :=
  let t := trimStart line
  t == "return".toList || "return ".toList.isPrefixOf t || "return;".toList.isPrefixOf t ||
    "return(".toList.isPrefixOf t

/-- The line is taken for a comment. -/
def isCommentLine (line : List Char) : Bool :=
  let t := trim line
  "//".toList.isPrefixOf t || ("/*".toList.isPrefixOf t && "*/".toList.isSuffixOf t)

/-- The line starts with a closing brace. -/
def closesBlock (line : List Char) : Bool :=
  (trimStart line).head? == some '\x7d'

/-- The line holds code that a value may come from. -/
def isCodeLine (line : List Char) : Bool :=
  !isAllBlank line && !isCommentLine line

/-- The line with `return` after its leading white space, unless it returns by itself or closes a
block. -/
def returning (line : List Char) : List Char :=
  if returns line || closesBlock line then line
  else line.takeWhile isBlank ++ returnWord ++ trimStart line

/-- Applies a function to the last member with a property. -/
def changeLast {α : Type} (p : α → Bool) (f : α → α) : List α → List α
  | [] => []
  | a :: rest => if !rest.any p && p a then f a :: rest else a :: changeLast p f rest

/-- The lines up to the last one that is not blank. -/
def dropBlankEnd (lines : List (List Char)) : List (List Char) :=
  (lines.reverse.dropWhile isAllBlank).reverse

/-- The lines of an expression as they stand in the script, without their indentation. -/
def wrappedLines (source : List Char) : List (List Char) :=
  match dropBlankEnd (lines source) with
  | [] => ["return ();".toList]
  | kept => changeLast isCodeLine returning kept

/-! ## Scripts -/

/-- The lines joined, each ended by a line feed. -/
def unlines (lines : List (List Char)) : List Char :=
  lines.flatMap (· ++ ['\n'])

/-- A module as it stands in the script, ended by a line feed. -/
def moduleText (source : List Char) : List Char :=
  if source.getLast? = some '\n' then source else source ++ ['\n']

/-- A formula compiled for one row. -/
structure Compiled where
  script : List Char
  mode : FormulaMode
  /-- The number of lines before the first line of the wrapper, or of the module. -/
  preambleLines : Nat
  /-- The number of the author's lines in the script. -/
  userLines : Nat
  /-- The name of the formula in messages about lines that are not the author's. -/
  name : String
  deriving DecidableEq, Inhabited

/-- Compiles a formula for a row. The columns are those that are no formulas themselves. -/
def compile (mode : FormulaMode) (source : String) (columns : List Column) (row : Row) : Compiled :=
  let head := unlines ((preamble mode columns row).map String.toList)
  let name := "formula_" ++ row.id
  match mode with
  | .expression =>
    let body := wrappedLines source.toList
    { script := head ++ "let fx = || \x7b\n".toList ++ unlines (body.map (indentation ++ ·)) ++
        "\x7d;\nfx.call()\n".toList
      mode := mode
      preambleLines := (lines head).length
      userLines := body.length
      name := name }
  | .module =>
    { script := head ++ moduleText source.toList ++ "fx()\n".toList
      mode := mode
      preambleLines := (lines head).length
      userLines := (lines source.toList).length
      name := name }

namespace Compiled

/-- Gives the formula another name. -/
def named (c : Compiled) (name : String) : Compiled :=
  { c with name := name }

/-- The line of the script that holds the author's first line. -/
def firstUserLine (c : Compiled) : Nat :=
  match c.mode with
  | .expression => c.preambleLines + 2
  | .module => c.preambleLines + 1

/-- The number of columns that stand before each of the author's lines. -/
def indentWidth (c : Compiled) : Nat :=
  match c.mode with
  | .expression => indentation.length
  | .module => 0

/-- The author's line that stands in a line of the script. -/
def userLine? (c : Compiled) (line : Nat) : Option Nat :=
  if c.firstUserLine ≤ line ∧ line < c.firstUserLine + c.userLines then
    some (line - c.firstUserLine + 1)
  else none

/-- The same, but lines after the author's ones count as the line right after them. -/
def formulaLine? (c : Compiled) (line : Nat) : Option Nat :=
  if c.firstUserLine ≤ line then some (min (line - c.firstUserLine + 1) (c.userLines + 1)) else none

/-- A message with its place in front: in the author's lines, or after them, by line and column of
the formula; before them, by the name of the formula and the place in the script. -/
def locate (c : Compiled) (place : Option Place) (message : String) : String :=
  match place with
  | none => message
  | some p =>
    match c.formulaLine? p.line with
    | none => c.name ++ ":" ++ toString p.line ++ ":" ++ toString p.column ++ ": " ++ message
    | some line =>
      let column := if (c.userLine? p.line).isSome then max (p.column - c.indentWidth) 1 else p.column
      toString line ++ ":" ++ toString column ++ ": " ++ message

end Compiled

end Worksheet.Formula
