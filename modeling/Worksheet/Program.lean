import Worksheet.Action.Apply
import Worksheet.Action.Json
import Worksheet.Calculator
import Worksheet.CommandLine
import Worksheet.Json.Printer
import Worksheet.Json.Reader
import Worksheet.Settings
/-!
# The program

What the program does on a request, as a function of the files that it may read. Its result says what
is to be printed or written, so that nothing here touches the outside.

* `Surroundings`: files, directories, time and fresh ids;
* `defaultConfig?`: where the settings are looked for;
* `Result`, `Command.run` and `Request.run`.
-/

namespace Worksheet

open Formula

/-- What the program finds when it starts. -/
structure Surroundings where
  /-- The texts of files by their paths. -/
  read : String → Option String
  /-- The home directory, or an empty text if there is none. -/
  home : String
  /-- The directory for settings, if one is named. -/
  configHome : Option String := none
  now : Stamp
  /-- Two ids that were never used before. -/
  fresh : String × String

/-- What the program leaves behind. -/
inductive Result
  | print (text : String)
  | write (path text : String)
  | fail (message : String)
  deriving DecidableEq, Inhabited, Repr

namespace Program

/-- The name of the program. -/
def name : String := "tagsheet"

/-- The version of the program. -/
def version : String := "0.1.0"

/-- The path of something in a directory. -/
def inside (directory file : String) : String :=
  if directory.endsWith "/" then directory ++ file else directory ++ "/" ++ file

/-- The path of the settings that are read if they are there: in the directory for settings, if its path starts at the
root, or in the usual one in the home directory. Without a home directory there is no such path. -/
def defaultConfig? (home : String) (configHome : Option String) : Option String :=
  if home.isEmpty then none
  else
    let directory := (configHome.filter (·.startsWith "/")).getD (inside home ".config")
    some (inside (inside directory name) "config.toml")

/-- Reads the settings in a file. -/
def settingsIn (env : Surroundings) (path : String) : Except String Settings :=
  match env.read path with
  | none => .error ("reading config " ++ path)
  | some text =>
    match Settings.read? text with
    | none => .error ("parsing config " ++ path)
    | some settings => .ok settings

/-- Reads the settings: the ones of a given file, which must be there, or the ones at their usual
place, or none. -/
def settings (env : Surroundings) (config : Option String) : Except String Settings :=
  match config with
  | some path => settingsIn env path
  | none =>
    match (defaultConfig? env.home env.configHome).filter fun path => (env.read path).isSome with
    | some path => settingsIn env path
    | none => .ok .default

/-- Reads the value in a JSON file. -/
def valueIn {α : Type} (env : Surroundings) (read : Json → Option α) (path : String) :
    Except String α :=
  match env.read path with
  | none => .error ("reading " ++ path)
  | some text =>
    match (Json.read? text).bind read with
    | none => .error ("parsing " ++ path)
    | some a => .ok a

/-! ## Evaluation -/

/-- The line about a formula cell. -/
def cellLine (row column : String) (r : CellResult) : String :=
  row ++ "\t" ++ column ++ "\t" ++
    (match r with
      | .ok value => value
      | .error e => "#ERR: " ++ e.message) ++ "\n"

/-- The lines about a row. -/
def rowLines (s : Sheet) (computed : Computed) (r : Row) : List String :=
  (s.columns.filter Column.isFormula).filterMap fun c =>
    ((computed.find? r.id).bind (·.find? c.id)).map (cellLine r.id c.id)

/-- The lines about a sheet, row by row. -/
def sheetLines (s : Sheet) (computed : Computed) : List String :=
  s.rows.flatMap (rowLines s computed)

/-- The text about a sheet whose formula cells have been computed. -/
def report (s : Sheet) (timeout : Nat) : String :=
  String.join (sheetLines s ((Calculator.new timeout).compute s).1)

/-! ## The other commands -/

/-- The line about a built-in function. -/
def functionLine (b : Builtin) : String :=
  b.signature ++ String.ofList (List.replicate (50 - b.signature.length) ' ') ++ " " ++ b.description ++
    "\n"

/-- Applies actions to a sheet and says which one was refused. -/
def replayed (s : Sheet) (actions : List Action) (now : Stamp) : Except String Sheet :=
  match s.replay actions now with
  | .ok s => .ok s
  | .error (index, e) =>
    .error ("action " ++ toString index ++ " (" ++ ((actions[index]?.map Action.name).getD "") ++
      ") failed: " ++ e.message)

/-! ## Help -/

/-- What a kind of command is for. -/
def purpose : Verb → String
  | .replay => "Apply a JSON array of actions to a sheet and print the result"
  | .eval => "Evaluate every formula cell of a sheet"
  | .new => "Print a new sheet with one text column"
  | .functions => "List the built-in formula functions"

/-- A table of words with what there is to say about them: the words as wide as the widest one, between
two blanks on the left and on the right. -/
def table (entries : List (String × String)) : String :=
  let width := entries.foldr (fun e w => max e.1.length w) 0
  String.join <| entries.map fun (word, note) =>
    "  " ++ word ++ String.ofList (List.replicate (width - word.length) ' ') ++ "  " ++ note ++ "\n"

/-- The option that names the settings. -/
def configOption : String × String :=
  ("    --config <CONFIG>", "Config file (default: <config dir>/" ++ name ++ "/config.toml)")

/-- The option that asks for help. -/
def helpOption : String × String :=
  ("-h, --help", "Print help")

/-- The operands of a kind of command, as they are shown. -/
def operandNames : Verb → List String
  | .replay => ["<SHEET>", "<ACTIONS>"]
  | .eval => ["<SHEET>"]
  | .new => ["<NAME>"]
  | .functions => []

/-- The options of a kind of command. -/
def options (verb : Verb) : List (String × String) :=
  configOption ::
    (if verb == .replay then
      [("    --out <OUT>", "Write the resulting sheet here instead of stdout")] else []) ++ [helpOption]

/-- What is printed about the program. -/
def helpText : String :=
  "Tagged spreadsheets with Rhai formulas\n\n" ++
  "Usage: " ++ name ++ " [OPTIONS] <COMMAND>\n\n" ++
  "Commands:\n" ++
  table (Verb.all.map (fun verb => (verb.word, purpose verb)) ++
    [("help", "Print this message or the help of the given subcommand(s)")]) ++
  "\nOptions:\n" ++
  table [configOption, helpOption, ("-V, --version", "Print version")]

/-- What is printed about a kind of command. -/
def helpOn (verb : Verb) : String :=
  let operands := operandNames verb
  purpose verb ++ "\n\n" ++
  "Usage: " ++ " ".intercalate ([name, verb.word, "[OPTIONS]"] ++ operands) ++ "\n\n" ++
  (if operands.isEmpty then ""
    else "Arguments:\n" ++ table (operands.map fun operand => (operand, "")) ++ "\n") ++
  "Options:\n" ++ table (options verb)

end Program

open Program

namespace Command

/-- What a command comes to. -/
def run (env : Surroundings) (settings : Settings) : Command → Except String Result
  | replay sheet actions out => do
    let s ← valueIn env Sheet.ofJson? sheet
    let actions ← valueIn env (Json.listOf? Action.ofJson?) actions
    let s ← replayed s actions env.now
    let text := s.toJson.pretty
    match out with
    | some path => .ok (.write path text)
    | none => .ok (.print (text ++ "\n"))
  | eval sheet => do
    let s ← valueIn env Sheet.ofJson? sheet
    .ok (.print (report s settings.formulaTimeout))
  | new name =>
    .ok (.print
      ((Sheet.newWithColumn env.fresh.1 name env.fresh.2 env.now).toJson.pretty ++ "\n"))
  | functions => .ok (.print (String.join (Builtin.all.map functionLine)))

end Command

namespace Request

/-- What a request comes to. -/
def run (env : Surroundings) : Request → Result
  | help none => .print helpText
  | help (some verb) => .print (helpOn verb)
  | version => .print (Program.name ++ " " ++ Program.version ++ "\n")
  | command config c =>
    let outcome : Except String Result := do
      c.run env (← settings env config)
    match outcome with
    | .ok r => r
    | .error message => .fail message

/-- The files that a request may read, the usual settings being at the given path. -/
def paths (usual : Option String) : Request → List String
  | command config c =>
    (config.or usual).toList ++
      (match c with
        | .replay sheet actions _ => [sheet, actions]
        | .eval sheet => [sheet]
        | _ => [])
  | _ => []

end Request

end Worksheet
