import Worksheet.Formula.Token
/-!
# Vocabulary

The words of the formula language that no variable may have as its name.

* `grammarWords` are used by the grammar;
* `serviceWords` name services of the language, most of them callable;
* `futureWords` are kept for later use.
-/

namespace Worksheet.Formula

/-- The words that the grammar uses. -/
def grammarWords : List String :=
  Keyword.table.map (·.1) ++ ["in"]

/-- How a reserved word may be used all the same. -/
structure ServiceUse where
  /-- It may be called like a function. -/
  asFunction : Bool
  /-- It may be called after a dot. -/
  asMethod : Bool

/-- The words that name services of the language. -/
def serviceWords : List (String × ServiceUse) := [
  ("global", ⟨false, false⟩), ("this", ⟨false, false⟩), ("is", ⟨false, false⟩),
  ("Fn", ⟨true, false⟩), ("call", ⟨true, true⟩), ("curry", ⟨true, true⟩),
  ("type_of", ⟨true, true⟩), ("print", ⟨true, false⟩), ("debug", ⟨true, false⟩),
  ("eval", ⟨true, false⟩), ("is_def_fn", ⟨true, false⟩), ("is_def_var", ⟨true, false⟩),
  ("is_shared", ⟨true, true⟩)]

/-- The words that are kept for later use. -/
def futureWords : List String := [
  "var", "static", "shared", "goto", "exit", "match", "case", "public", "protected", "new", "use",
  "with", "module", "package", "super", "spawn", "thread", "go", "sync", "async", "await", "yield",
  "default", "void", "null", "nil"]

/-- Every word that no variable may have as its name. -/
def languageWords : List String :=
  grammarWords ++ serviceWords.map (·.1) ++ futureWords

/-- A reserved word may be called like a function. -/
def isCallableWord (name : String) : Bool :=
  ((serviceWords.find? (·.1 == name)).map (·.2.asFunction)).getD false

/-- A reserved word may be called after a dot. -/
def isMethodWord (name : String) : Bool :=
  ((serviceWords.find? (·.1 == name)).map (·.2.asMethod)).getD false

/-- A first character of a name, underscores aside: an ASCII letter. -/
def isNameLetter (c : Char) : Bool :=
  c.isAlpha

/-- A later character of a name. -/
def isNameChar (c : Char) : Bool :=
  c.isAlphanum || c == '_'

/-- The form of a name: ASCII letters, digits and underscores, the first of them other than an
underscore being a letter. -/
def isNameForm (cs : List Char) : Bool :=
  cs.all isNameChar &&
    match cs.dropWhile (· == '_') with
    | c :: _ => isNameLetter c
    | [] => false

end Worksheet.Formula
