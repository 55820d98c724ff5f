import Worksheet.Formula.Grammar.Statement
import Worksheet.Formula.Builtin
/-!
# The library, parsed

What the grammar makes of the text of the library. The places of its tokens depend on the lines before it, so each
function is given for all places, the place of token `i` being `p i`.

* `Library.columnIndex` and the definitions after it: the functions;
* `library`: all of them, in their order.
-/

namespace Worksheet.Formula

namespace Library

variable (p : Nat → Place)

/-! ## Functions -/

/-- A round of the loop that looks for a title. -/
def columnRound : List Stmt := [
  .branch
    (.binary .equal
      (.chain (.name "cells" (p 75)) [.index (.name "index" (p 77)) (p 77), .member "column_name" (p 80)])
      (.name "name_or_index" (p 82)) (p 81))
    [.branch (.binary .equal (.name "seen" (p 85)) (.name "occurrence" (p 87)) (p 86))
      [.giveBack (some (.name "index" (p 90))) (p 89)] [],
      .assign (.name "seen" (p 93)) (some .add) (.literal (.int 1) (p 95)) (p 94)] []]

/-- What is done with a position. -/
def columnGiven : List Stmt := [
  .branch (.binary .less (.name "name_or_index" (p 33)) (.literal (.int 0) (p 35)) (p 34))
    [.raise (some (.literal (.text "Column index starts at 0!") (p 38))) (p 37)] [],
  .branch
    (.binary .greaterEqual (.name "name_or_index" (p 42)) (.chain (.name "cells" (p 44)) [.method "len" [] (p 46)])
      (p 43))
    [.raise (some (.binary .add (.literal (.text "Column index out of range: ") (p 50)) (.name "name_or_index" (p 52))
      (p 51))) (p 49)] [],
  .giveBack (some (.name "name_or_index" (p 56))) (p 55)]

def columnIndex : Function := ⟨"formula_column_index", ["name_or_index", "occurrence"], [
  .branch (.binary .less (.name "occurrence" (p 9)) (.literal (.int 0) (p 11)) (p 10))
    [.raise (some (.literal (.text "Occurrence index starts at 0!") (p 14))) (p 13)] [],
  .declare false "cells" (some (.qualified "global" "FORMULA_CELLS" (p 20))) (p 18),
  .branch
    (.binary .equal (.call "type_of" [.name "name_or_index" (p 27)] (p 25)) (.literal (.text "i64") (p 30)) (p 29))
    (columnGiven p) [],
  .declare false "seen" (some (.literal (.int 0) (p 62))) (p 60),
  .forLoop "index" none
    (.binary .range (.literal (.int 0) (p 67)) (.chain (.name "cells" (p 69)) [.method "len" [] (p 71)]) (p 68))
    (columnRound p),
  .expr (.literal (.int (-1)) (p 99))]⟩

/-- A round of the loop that looks for the options of a column. -/
def optionsRound : List Stmt := [
  .branch
    (.binary .equal (.chain (.name "column" (p 14)) [.member "index" (p 16)]) (.name "index" (p 18)) (p 17))
    [.giveBack (some (.chain (.name "column" (p 21)) [.member "values" (p 23)])) (p 20)] []]

def dropdownOptions : Function := ⟨"formula_dropdown_options", ["index"], [
  .forLoop "column" none (.qualified "global" "FORMULA_DROPDOWNS" (p 9)) (optionsRound p),
  .expr (.literal .unit (p 27))]⟩

/-- A function that calls the one of the same name with the first occurrence. -/
def firstOccurrence (name : String) (params : List String) : Function :=
  let n := params.length
  ⟨name, params, [.expr (.call name
    ((params.zipIdx.map fun (x, i) => .name x (p (2 * n + 6 + 2 * i))) ++ [.literal (.int 0) (p (4 * n + 6))])
    (p (2 * n + 4)))]⟩

/-- Looks for the position of a column, and gives a value back if there is none. The first token is token `k`. -/
def findColumn (k : Nat) (absent : Literal) : List Stmt := [
  .declare false "index"
    (some (.call "formula_column_index" [.name "name_or_index" (p (k + 5)), .name "occurrence" (p (k + 7))] (p (k + 3))))
    (p (k + 1)),
  .branch (.binary .less (.name "index" (p (k + 11))) (.literal (.int 0) (p (k + 13))) (p (k + 12)))
    [.giveBack (some (.literal absent (p (k + 16)))) (p (k + 15))] []]

/-- Looks for the options of the column that was found, and gives `()` back if it has none. -/
def findOptions (k : Nat) : List Stmt := [
  .declare false "options" (some (.call "formula_dropdown_options" [.name "index" (p (k + 5))] (p (k + 3)))) (p (k + 1)),
  .branch
    (.binary .equal (.call "type_of" [.name "options" (p (k + 11))] (p (k + 9))) (.literal (.text "()") (p (k + 14)))
      (p (k + 13)))
    [.giveBack (some (.literal .unit (p (k + 17)))) (p (k + 16))] []]

def getCell : Function := ⟨"get_cell", ["name_or_index", "occurrence"], findColumn p 8 (.text "") ++ [
  .declare false "cells" (some (.qualified "global" "FORMULA_CELLS" (p 30))) (p 28),
  .expr (.chain (.name "cells" (p 34)) [.index (.name "index" (p 36)) (p 36), .member "value" (p 39)])]⟩

/-- A round of the loop that looks for an option. -/
def positionRound : List Stmt := [
  .branch (.binary .equal (.name "option" (p 75)) (.name "value" (p 77)) (p 76))
    [.giveBack (some (.name "position" (p 80))) (p 79)] [],
  .assign (.name "position" (p 83)) (some .add) (.literal (.int 1) (p 85)) (p 84)]

def dropdownIndex : Function := ⟨"get_dropdown_index", ["name_or_index", "occurrence"],
  findColumn p 8 .unit ++ (findOptions p 27 ++ [
  .declare false "cells" (some (.qualified "global" "FORMULA_CELLS" (p 50))) (p 48),
  .declare false "value"
    (some (.chain (.name "cells" (p 57)) [.index (.name "index" (p 59)) (p 59), .member "value" (p 62)])) (p 55),
  .declare false "position" (some (.literal (.int 0) (p 67))) (p 65),
  .forLoop "option" none (.name "options" (p 72)) (positionRound p),
  .expr (.literal .unit (p 88))])⟩

/-- What is done with the position of an option. -/
def optionGiven : List Stmt := [
  .branch
    (.binary .either (.binary .less (.name "value" (p 62)) (.literal (.int 0) (p 64)) (p 63))
      (.binary .greaterEqual (.name "value" (p 66)) (.chain (.name "options" (p 68)) [.method "len" [] (p 70)]) (p 67))
      (p 65))
    [.giveBack (some (.literal .unit (p 74))) (p 73)] [],
  .expr (.chain (.name "options" (p 77)) [.index (.name "value" (p 79)) (p 79)])]

def dropdownValue : Function := ⟨"to_dropdown_value", ["value", "name_or_index", "occurrence"],
  findColumn p 10 .unit ++ (findOptions p 29 ++
    .branch
      (.binary .unequal (.call "type_of" [.name "value" (p 52)] (p 50)) (.literal (.text "i64") (p 55)) (p 54))
      [.giveBack (some (.literal .unit (p 58))) (p 57)] [] :: optionGiven p)⟩

/-! ## Tokens -/

/-- Tokens in braces. -/
def braced (ts : List Token) : List Token :=
  .mark .openBrace :: ts ++ [.mark .closeBrace]

/-- Tokens in round brackets, with commas between them. -/
def listed (ts : List Token) : List Token :=
  .mark .openParen :: ts.intersperse (.mark .comma) ++ [.mark .closeParen]

def fnTokens (name : String) (params : List String) (body : List Token) : List Token :=
  .keyword .fn_ :: .word name :: listed (params.map .word) ++ braced body

def letTokens (name : String) (value : List Token) : List Token :=
  .keyword .let_ :: .word name :: .assign none :: value ++ [.mark .semicolon]

def ifTokens (condition body : List Token) : List Token :=
  .keyword .if_ :: condition ++ braced body

def forTokens (name : String) (source body : List Token) : List Token :=
  .keyword .for_ :: .word name :: .operator .within :: source ++ braced body

def returnTokens (value : List Token) : List Token :=
  .keyword .return_ :: value ++ [.mark .semicolon]

def throwTokens (value : List Token) : List Token :=
  .keyword .throw_ :: value ++ [.mark .semicolon]

def addOneTokens (name : String) : List Token :=
  [.word name, .assign (some .add), .int 1, .mark .semicolon]

def globalTokens (name : String) : List Token :=
  [.reserved "global", .mark .doubleColon, .word name]

def typeTokens (name : String) (op : Operator) (type : String) : List Token :=
  .reserved "type_of" :: listed [.word name] ++ [.operator op, .text type]

def lengthTokens (name : String) : List Token :=
  [.word name, .mark .dot, .word "len", .mark .emptyParens]

def itemTokens (name index : String) : List Token :=
  [.word name, .mark .openBracket, .word index, .mark .closeBracket]

def memberTokens (name : String) : List Token :=
  [.mark .dot, .word name]

def columnIndexTokens : List Token :=
  fnTokens "formula_column_index" ["name_or_index", "occurrence"] (
    ifTokens [.word "occurrence", .operator .less, .int 0] (throwTokens [.text "Occurrence index starts at 0!"]) ++
    letTokens "cells" (globalTokens "FORMULA_CELLS") ++
    ifTokens (typeTokens "name_or_index" .equal "i64") (
      ifTokens [.word "name_or_index", .operator .less, .int 0] (throwTokens [.text "Column index starts at 0!"]) ++
      ifTokens (.word "name_or_index" :: .operator .greaterEqual :: lengthTokens "cells")
        (throwTokens [.text "Column index out of range: ", .operator .add, .word "name_or_index"]) ++
      returnTokens [.word "name_or_index"]) ++
    letTokens "seen" [.int 0] ++
    forTokens "index" (.int 0 :: .operator .range :: lengthTokens "cells") (
      ifTokens (itemTokens "cells" "index" ++ memberTokens "column_name" ++ [.operator .equal, .word "name_or_index"]) (
        ifTokens [.word "seen", .operator .equal, .word "occurrence"] (returnTokens [.word "index"]) ++
        addOneTokens "seen")) ++
    [.operator .sub, .int 1])

def dropdownOptionsTokens : List Token :=
  fnTokens "formula_dropdown_options" ["index"] (
    forTokens "column" (globalTokens "FORMULA_DROPDOWNS") (
      ifTokens (.word "column" :: memberTokens "index" ++ [.operator .equal, .word "index"])
        (returnTokens (.word "column" :: memberTokens "values"))) ++
    [.mark .emptyParens])

def firstOccurrenceTokens (name : String) (params : List String) : List Token :=
  fnTokens name params (.word name :: listed (params.map .word ++ [.int 0]))

def findColumnTokens (absent : Token) : List Token :=
  letTokens "index" (.word "formula_column_index" :: listed [.word "name_or_index", .word "occurrence"]) ++
  ifTokens [.word "index", .operator .less, .int 0] (returnTokens [absent])

def findOptionsTokens : List Token :=
  letTokens "options" (.word "formula_dropdown_options" :: listed [.word "index"]) ++
  ifTokens (typeTokens "options" .equal "()") (returnTokens [.mark .emptyParens])

def getCellTokens : List Token :=
  fnTokens "get_cell" ["name_or_index", "occurrence"] (
    findColumnTokens (.text "") ++
    letTokens "cells" (globalTokens "FORMULA_CELLS") ++
    itemTokens "cells" "index" ++ memberTokens "value")

def dropdownIndexTokens : List Token :=
  fnTokens "get_dropdown_index" ["name_or_index", "occurrence"] (
    findColumnTokens (.mark .emptyParens) ++
    findOptionsTokens ++
    letTokens "cells" (globalTokens "FORMULA_CELLS") ++
    letTokens "value" (itemTokens "cells" "index" ++ memberTokens "value") ++
    letTokens "position" [.int 0] ++
    forTokens "option" [.word "options"] (
      ifTokens [.word "option", .operator .equal, .word "value"] (returnTokens [.word "position"]) ++
      addOneTokens "position") ++
    [.mark .emptyParens])

def dropdownValueTokens : List Token :=
  fnTokens "to_dropdown_value" ["value", "name_or_index", "occurrence"] (
    findColumnTokens (.mark .emptyParens) ++
    findOptionsTokens ++
    ifTokens (typeTokens "value" .unequal "i64") (returnTokens [.mark .emptyParens]) ++
    ifTokens ([.word "value", .operator .less, .int 0, .operator .either, .word "value", .operator .greaterEqual] ++
      lengthTokens "options") (returnTokens [.mark .emptyParens]) ++
    itemTokens "options" "value")

/-- The functions of the library with their tokens. -/
def shelf : List (List Token × ((Nat → Place) → Function)) := [
  (columnIndexTokens, columnIndex),
  (dropdownOptionsTokens, dropdownOptions),
  (firstOccurrenceTokens "get_cell" ["name_or_index"], fun p => firstOccurrence p "get_cell" ["name_or_index"]),
  (getCellTokens, getCell),
  (firstOccurrenceTokens "get_dropdown_index" ["name_or_index"],
    fun p => firstOccurrence p "get_dropdown_index" ["name_or_index"]),
  (dropdownIndexTokens, dropdownIndex),
  (firstOccurrenceTokens "to_dropdown_value" ["value", "name_or_index"],
    fun p => firstOccurrence p "to_dropdown_value" ["value", "name_or_index"]),
  (dropdownValueTokens, dropdownValue)]

end Library

/-- The tokens of the library. -/
def libraryTokens : List Token :=
  Library.shelf.flatMap (·.1)

/-- The functions of the library. -/
def library : List ((Nat → Place) → Function) :=
  Library.shelf.map (·.2)

end Worksheet.Formula
