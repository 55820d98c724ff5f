import Std.Time
import Worksheet.Program
/-!
# The program on the outside

Reads the files that a request needs, runs it, and prints or writes what comes of it. Arguments that
make no request end the program with the code 2, failures with the code 1.
-/

namespace Worksheet.Console

/-- The time of the clock. -/
def clockStamp : IO Stamp := do
  let now := Std.Time.PlainDateTime.ofWallTime ((← Std.Time.Timestamp.now).toWallTime .zero)
  let day : Day := ⟨now.year, now.month.val.toNat, now.day.val.toNat⟩
  pure ((Stamp.of? day now.hour.val.toNat now.minute.val.toNat now.second.val.toNat
    now.nanosecond.val.toNat).getD .epoch)

/-- Sixteen random bytes as an id in five groups. -/
def freshId : IO String := do
  let bytes := (← IO.getRandomBytes 16).toList
  let marked := bytes.mapIdx fun i b =>
    if i = 6 then b % 16 + 64 else if i = 8 then b % 64 + 128 else b
  let digits := marked.flatMap fun b => Text.hexPadded 2 b.toNat
  let group (start size : Nat) : String := String.ofList ((digits.drop start).take size)
  pure ("-".intercalate [group 0 8, group 8 4, group 12 4, group 16 4, group 20 12])

/-- The text of a file, if it can be read. -/
def fileText? (path : String) : IO (Option String) := do
  try
    let text ← IO.FS.readFile path
    pure (some text)
  catch _ => pure none

/-- Tells of a failure. -/
def complain (message : String) : IO UInt32 := do
  IO.eprintln ("Error: " ++ message)
  pure 1

/-- Prints or writes what has come of a request. -/
def conclude : Result → IO UInt32
  | .print text => do
    IO.print text
    pure 0
  | .write path text => do
    try
      IO.FS.writeFile path text
      pure 0
    catch _ => complain ("writing " ++ path)
  | .fail message => complain message

end Worksheet.Console

open Worksheet Worksheet.Console in
/-- Runs the program on its arguments. -/
def main (args : List String) : IO UInt32 := do
  match Request.ofArguments? args with
  | none =>
    IO.eprint Program.helpText
    pure 2
  | some request =>
    let home := (← IO.getEnv "HOME").getD ""
    let configHome ← IO.getEnv "XDG_CONFIG_HOME"
    let paths := request.paths (Program.defaultConfig? home configHome)
    let files ← paths.mapM fun path => do pure (path, ← fileText? path)
    let env : Surroundings :=
      { read := fun path => (files.find? (·.1 == path)).bind (·.2)
        home := home
        configHome := configHome
        now := ← clockStamp
        fresh := (← freshId, ← freshId) }
    conclude (request.run env)
