/-!
# The command line

What the program can be asked for. Options may stand anywhere after the command; `--` ends them. The
option `--config` may also stand before the command; given twice, the later one counts.

* `Verb`, `Command` and `Request`;
* `Request.ofArguments?` reads the arguments; there is no request when they do not fit.
-/

namespace Worksheet

/-- The kinds of commands. -/
inductive Verb
  | replay | eval | new | functions
  deriving DecidableEq, Inhabited, Repr

namespace Verb

/-- All kinds of commands, as they are listed. -/
def all : List Verb :=
  [replay, eval, new, functions]

/-- The word that asks for a command. -/
def word : Verb → String
  | replay => "replay"
  | eval => "eval"
  | new => "new"
  | functions => "functions"

/-- The kind of command that a word asks for. -/
def ofWord? (word : String) : Option Verb :=
  all.find? (·.word == word)

end Verb

/-- What the program does. -/
inductive Command
  /-- Applies the actions in a file to the sheet in another one. -/
  | replay (sheet actions : String) (out : Option String)
  /-- Computes the formula cells of the sheet in a file. -/
  | eval (sheet : String)
  /-- Prints a new sheet of a given name. -/
  | new (name : String)
  /-- Lists the built-in functions. -/
  | functions
  deriving DecidableEq, Inhabited, Repr

/-- What the program is asked for. -/
inductive Request
  | command (config : Option String) (command : Command)
  /-- Help on a kind of command, or on the program. -/
  | help (about : Option Verb)
  | version
  deriving DecidableEq, Inhabited, Repr

namespace CommandLine

/-- An argument that is an option: it starts with a hyphen and is longer than that. -/
def isOption (arg : String) : Bool :=
  arg.startsWith "-" && arg != "-"

/-- The text after the equals sign, in an argument such as `--out=file`. -/
def inlineValue? (option arg : String) : Option String :=
  if arg.startsWith (option ++ "=") then some (String.ofList (arg.toList.drop (option.length + 1)))
  else none

/-- Takes an option with its value off the front: the value and the arguments after it. A value is not
empty and no option itself. -/
def valueOf? (option arg : String) (rest : List String) : Option (String × List String) :=
  match inlineValue? option arg, rest with
  | some v, rest => if v.isEmpty then none else some (v, rest)
  | none, v :: rest => if v.isEmpty || isOption v then none else some (v, rest)
  | none, [] => none

/-- The argument names an option. -/
def isNamed (option arg : String) : Bool :=
  arg == option || (inlineValue? option arg).isSome

/-- What stands after a command. -/
structure Operands where
  /-- The operands that are no options, the last one first. -/
  reversed : List String
  config : Option String
  out : Option String

/-- What reading the arguments of a command comes to. -/
inductive Reading
  | operands (o : Operands)
  | help

/-- Reads the arguments after a command. `takesOut` tells whether it knows the option `--out`. -/
def operands? (takesOut : Bool) (o : Operands) : Nat → List String → Option Reading
  | _, [] => some (.operands o)
  | 0, _ => none
  | n + 1, arg :: rest =>
    if arg == "--" then some (.operands { o with reversed := rest.reverse ++ o.reversed })
    else if arg == "-h" || arg == "--help" then some .help
    else if isNamed "--config" arg then do
      if o.config.isSome then none
      else
        let (v, rest) ← valueOf? "--config" arg rest
        operands? takesOut { o with config := some v } n rest
    else if takesOut && isNamed "--out" arg then do
      if o.out.isSome then none
      else
        let (v, rest) ← valueOf? "--out" arg rest
        operands? takesOut { o with out := some v } n rest
    else if isOption arg then none
    else operands? takesOut { o with reversed := arg :: o.reversed } n rest

/-- A file name, which is not empty. -/
def fileName? (name : String) : Option String :=
  if name.isEmpty then none else some name

/-- The command of a kind with its operands. -/
def commandOf? (verb : Verb) (o : Operands) : Option Command :=
  match verb, o.reversed.reverse with
  | .replay, [sheet, actions] => do
    some (.replay (← fileName? sheet) (← fileName? actions) o.out)
  | .eval, [sheet] => (fileName? sheet).map .eval
  | .new, [name] => some (.new name)
  | .functions, [] => some .functions
  | _, _ => none

/-- Reads the arguments after the word `help`. -/
def helpRequest? : List String → Option Request
  | [] => some (.help none)
  | [word] => (Verb.ofWord? word).map fun verb => .help (some verb)
  | _ => none

/-- Reads the arguments from the command on. -/
def afterConfig? (config : Option String) (word : String) (rest : List String) : Option Request := do
  if word == "help" then helpRequest? rest
  else
    let verb ← Verb.ofWord? word
    match ← operands? (verb == .replay) ⟨[], none, none⟩ rest.length rest with
    | .help => some (.help (some verb))
    | .operands o =>
      let command ← commandOf? verb o
      some (.command (o.config.orElse fun _ => config) command)

end CommandLine

open CommandLine in
/-- The request that the arguments make. -/
def Request.ofArguments? : List String → Option Request
  | [] => none
  | arg :: rest =>
    if arg == "-h" || arg == "--help" then some (.help none)
    else if arg == "-V" || arg == "--version" then some .version
    else if isNamed "--config" arg then
      match valueOf? "--config" arg rest with
      | none => none
      | some (_, []) => none
      | some (v, next :: rest) =>
        if next == "-h" || next == "--help" then some (.help none)
        else if next == "-V" || next == "--version" then some .version
        else afterConfig? (some v) next rest
    else afterConfig? none arg rest

end Worksheet
