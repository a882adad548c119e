import Std.Time.Date.PlainDate
import Std.Time.DateTime.Timestamp
import Unnest.CommandLine.Run

/-!
# The program

A run on the files of the machine. Reports go to the error output or to the log file.
-/

namespace Unnest.Program

/-- Work on files, with the path of the log if there is one. -/
abbrev Work := StateT (Option String) IO

/-- Whether an action works. -/
def succeeds (action : IO Unit) : Work Bool := do
  try
    action
    return true
  catch _ => return false

/-- The bytes of a file, if it can be read. -/
def bytesOf (path : String) : Work (Option ByteArray) := do
  try return some (← IO.FS.readBinFile path)
  catch _ => return none

/-- Adds text to the end of a file, which is made if there is none. -/
def append (path text : String) : IO Unit := do
  let file ← IO.FS.Handle.mk path .append
  file.putStr text

/-- Reports that are worth a line. -/
def isShown (event : Event) : Bool := Level.info.rank ≤ event.level.rank

instance : FileAccess Work where
  isFile path := return (← bytesOf path).isSome
  read path := bytesOf path
  makeDirectories path := succeeds (IO.FS.createDirAll path)
  write path content := succeeds (IO.FS.writeBinFile path content.toBytes)
  reportTo path := do
    set (some path)
    succeeds (append path "")
  report event := do
    if isShown event then
      match ← get with
      | some path => append path (event.line ++ "\n")
      | none => IO.eprintln event.line

/-- A number in at least two digits. -/
def twoDigits (n : Int) : String := (if n < 10 then "0" else "") ++ toString n

/-- The present day of the universal calendar. -/
def today : IO String := do
  let now ← Std.Time.Timestamp.now
  let day := Std.Time.PlainDate.ofEpochDay now.toDaysSinceUnixEpoch
  return toString day.year.toInt ++ "-" ++ twoDigits day.month.val ++ "-" ++ twoDigits day.day.val

def environment : IO Environment := do
  try
    let content ← IO.FS.readBinFile "/proc/self/environ"
    return Environment.ofBlock (Text.Symbol.ofBytes content)
  catch _ => return []

end Unnest.Program

open Unnest Program CommandLine in
/-- Runs the program and exits with its code. -/
def main (arguments : List String) : IO UInt32 := do
  let action : Work Outcome := run .standard (← today) (← environment) arguments
  let (outcome, _) ← action.run none
  IO.print outcome.output
  match outcome with
  | .misused error => IO.eprintln ("error: " ++ error.message)
  | _ =>
    match outcome.errorLine? with
    | some line => IO.eprintln line
    | none => pure ()
  return outcome.exitCode.toUInt32
