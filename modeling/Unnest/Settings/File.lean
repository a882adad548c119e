import Unnest.Files.Access
import Unnest.Settings.Basic
import Unnest.Settings.Environment
import Unnest.Settings.Format

/-!
# Files of settings

`load` reads the file of settings, if one is named, puts the environment on top and makes settings of that. It
fails if there is no such file, if the file is not well-formed and if a value does not fit its setting. It breaks
down if a path in the file or in the environment leads nowhere, and if the environment is not made of texts.
-/

namespace Unnest.Settings
open Text

/-- Bytes that may come next in a sequence that encodes a character: the range of the next one, and how many may come
after it before the last. -/
structure Awaited where
  low : UInt8
  high : UInt8
  more : Nat

/-- What may come between the first byte of a sequence and its last one. -/
def awaited? (first : UInt8) : Option Awaited :=
  if first = 0xE0 then some ⟨0xA0, 0xBF, 0⟩
  else if first = 0xED then some ⟨0x80, 0x9F, 0⟩
  else if 0xE1 ≤ first ∧ first ≤ 0xEF then some ⟨0x80, 0xBF, 0⟩
  else if first = 0xF0 then some ⟨0x90, 0xBF, 1⟩
  else if first = 0xF4 then some ⟨0x80, 0x8F, 1⟩
  else if 0xF1 ≤ first ∧ first ≤ 0xF3 then some ⟨0x80, 0xBF, 1⟩
  else none

/-- What may come after a byte that was awaited. -/
def Awaited.next? (awaited : Awaited) : Option Awaited :=
  if awaited.more = 0 then none else some ⟨0x80, 0xBF, awaited.more - 1⟩

/-- The characters that symbols stand for. A sequence of bytes that breaks off before its last one reads as one
replacement character, and so does any other stray byte. -/
def charactersOf : Option Awaited → List Symbol → List Char
  | _, [] => []
  | _, .char c :: rest => c :: charactersOf none rest
  | none, .stray byte :: rest => '\uFFFD' :: charactersOf (awaited? byte) rest
  | some awaited, .stray byte :: rest =>
    if awaited.low ≤ byte ∧ byte ≤ awaited.high then charactersOf awaited.next? rest
    else '\uFFFD' :: charactersOf (awaited? byte) rest

/-- The text of a file. A mark of the byte order at its front is left out. -/
def textOf (content : ByteArray) : List Char :=
  match charactersOf none (Symbol.ofBytes content) with
  | '\uFEFF' :: text => text
  | text => text

/-- The settings in the layer of a file and in an environment. -/
def ofLayer (loader : Loader) (path : Option String) (layer : List (String × Node)) (environment : Environment) :
    Except Failure Settings := do
  let assigned ← Failure.broken.unless (layerOfEnvironment? environment)
  let filed ← Failure.broken.unless
    (Node.overlay loader.room (.table []) (loader.order.layer path.toList layer))
  let root ← Failure.broken.unless (Node.overlay loader.room filed (loader.order.layer [] assigned))
  Failure.refused.unless (ofNode? root)

section
variable {m : Type → Type} [Monad m] [FileAccess m]

/-- The first of some files that is there. -/
def firstFile? : List (String × FileFormat) → m (Option (String × FileFormat))
  | [] => return none
  | (path, format) :: rest => do
    if ← FileAccess.isFile path then return some (path, format) else firstFile? rest

/-- The file that a path means and its format. If nothing is there, an extension may be missing. -/
def find? (loader : Loader) (path : String) : m (Option (String × FileFormat)) := do
  if ← FileAccess.isFile path then
    return (FileFormat.ofPath? path).map fun format => (path, format)
  else firstFile? (loader.candidates path)

/-- The layer of settings in a file. -/
def layerOfFile (loader : Loader) (path : String) : m (Except Failure (List (String × Node))) := do
  match ← find? loader path with
  | none => return .error .refused
  | some (path, format) =>
    match ← FileAccess.read path with
    | none => return .error .refused
    | some content => return loader.parse (textOf content) format

/-- The settings in a file, if one is named, and an environment. -/
def load (loader : Loader) (path : Option String) (environment : Environment) : m (Except Failure Settings) := do
  let layer ← match path with
    | none => pure (.ok [])
    | some path => layerOfFile loader path
  return layer.bind fun layer => ofLayer loader path layer environment

end

end Unnest.Settings
