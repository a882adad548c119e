import Unnest.Describe.Describer

/-!
# Directories

A directory is a describer whose every answer is listed and may change between questions: an asset has
a model, has none, or fails; a model has properties or fails. It remembers the questions it was asked.
-/

namespace Unnest

/-- Listed answers and the questions asked so far. An answer that fails gives the reason. -/
structure Directory where
  assets : Entries String (Except String (Option String)) := []
  models : Entries String (Except String (List Property)) := []
  calls : List Call := []

namespace Directory

/-- A listed answer; what is not listed is not found. -/
def answer {α : Type} (listed : Option (Except String α)) (absent : DescribeError) : Answer α :=
  match listed with
  | some (.ok a) => .ok a
  | some (.error reason) => .error (.unavailable reason)
  | none => .error absent

/-- The directory with a question added to those asked. -/
def remember (directory : Directory) (call : Call) : Directory :=
  { directory with calls := directory.calls ++ [call] }

/-- The describer that looks into the directory which is its state. -/
def describer : Describer Directory where
  asset id := do
    let directory ← getModify fun directory => directory.remember (.asset id)
    return answer (Entries.get? directory.assets id) (.assetNotFound id)
  model id := do
    let directory ← getModify fun directory => directory.remember (.model id)
    return answer (Entries.get? directory.models id) (.modelNotFound id)

end Directory

end Unnest
