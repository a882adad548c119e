import Unnest.CommandLine.Arguments
import Unnest.FileName
import Unnest.Files.Access
import Unnest.Flatten
import Unnest.Frame.Reader

/-!
# Inputs of a run

An input is a file of frames. `flattenInput` reads it, flattens its frames and writes them, either all to
one file of frames or each to a file of its own. What keeps an input from that is an `InputError`; the
files that were written before stay. The inputs of a run share a describer with its state and nothing
else (`flattenInputs`).
-/

namespace Unnest.CommandLine
open Text

/-- Why the frames of an input are not all in the output. -/
inductive InputError where
  | unreadable
  /-- The input is no list of frames. -/
  | malformed (fault : Json.Fault) (position : Position)
  | invalid (error : FrameError)
  | noTable (error : TableError)
  | unwritable (path : String)
deriving DecidableEq, Repr

def InputError.message (input : String) : InputError → String
  | unreadable => "reading " ++ input ++ ": I/O error on " ++ input
  | malformed fault position => "reading " ++ input ++ ": JSON error: " ++ fault.describe position
  | invalid error => "reading " ++ input ++ ": " ++ error.message
  | noTable error => error.message
  | unwritable path => "writing " ++ path ++ ": I/O error on " ++ path

variable {m : Type → Type} [Monad m] [FileAccess m]

def readInput (path : String) : ExceptT InputError m (List (Frame Float)) := do
  match ← FileAccess.read (m := m) path with
  | none => throw .unreadable
  | some content =>
    match Frame.parseFile content with
    | .ok frames => return frames
    | .error (.json failure) =>
      throw (.malformed failure.fault (failure.position (Symbol.ofBytes content)))
    | .error (.frame error) => throw (.invalid error)

/-- Does what has to work for a file to be written. -/
def require (path : String) (action : m Bool) : ExceptT InputError m Unit := do
  if ← action then return () else throw (.unwritable path)

def writeFrames (directory stem : String) (frames : List (Frame Float)) :
    ExceptT InputError m Unit := do
  let path := FileName.framesPath directory stem
  require path (FileAccess.makeDirectories directory)
  require path (FileAccess.write path (.bytes (Frame.renderFile frames).toUTF8))
  FileAccess.report (m := m) (.framesWritten path frames.length)

/-- Writes the table of a frame to a file of its own. -/
def writeTable (directory stem : String) (index : Nat) (frame : Frame Float) :
    ExceptT InputError m Unit := do
  let path := FileName.tablePath directory stem index frame.name
  require path (FileAccess.makeDirectories directory)
  match Table.ofFrame? frame with
  | .error error => throw (.noTable error)
  | .ok table =>
    require path (FileAccess.write path (.table table.stored))
    FileAccess.report (m := m) (.tableWritten path frame.name frame.rowCount)

/-- Writes the tables of frames, the first of which has a place among the frames of its input. -/
def writeTables (directory stem : String) : (index : Nat) → List (Frame Float) →
    ExceptT InputError m Unit
  | _, [] => return ()
  | index, frame :: rest => do
    writeTable directory stem index frame
    writeTables directory stem (index + 1) rest

def writeOutput (arguments : Arguments) (stem : String) (frames : List (Frame Float)) :
    ExceptT InputError m Unit :=
  match arguments.format with
  | .json => writeFrames arguments.outputDirectory stem frames
  | .parquet => writeTables arguments.outputDirectory stem 0 frames

variable {σ : Type}

/-- Runs a session from a state and reports its events. -/
def runSession {α : Type} (session : Session σ α) (state : σ) : m (α × σ) := do
  let outcome := session.run state
  outcome.events.forM FileAccess.report
  return outcome.value

/-- Flattens an input. The describer's state is handed on whatever happens. -/
def flattenInput (describer : Describer σ) (options : Options) (arguments : Arguments) (input : String)
    (state : σ) : m (Except InputError Unit × σ) := do
  match ← (readInput input).run with
  | .error error => return (.error error, state)
  | .ok frames =>
    let (frames, state) ←
      runSession (Frame.flattenAll describer options arguments.assetId frames) state
    return (← (writeOutput arguments (FileName.stem input) frames).run, state)

/-- Flattens inputs one after another and counts those that fail. -/
def flattenInputs (describer : Describer σ) (options : Options) (arguments : Arguments) :
    (inputs : List String) → (state : σ) → m Nat
  | [], _ => return 0
  | input :: inputs, state => do
    let (outcome, state) ← flattenInput describer options arguments input state
    let failed ← match outcome with
      | .ok () => pure 0
      | .error error =>
        FileAccess.report (.inputFailed input (error.message input))
        pure 1
    return failed + (← flattenInputs describer options arguments inputs state)

end Unnest.CommandLine
