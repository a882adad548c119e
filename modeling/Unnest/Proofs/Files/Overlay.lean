import Unnest.Proofs.Entries
import Unnest.Proofs.Files.Tree

/-!
# Files laid over a tree

Files can be laid over a tree at places that are no directories (`FileTree.Fits`). They change no directory, so
every path leads where it led before (`follow?_overlay`), and at every place there is the last of the files that were
laid there, or else what was there before (`content?_overlay`).
-/

namespace Unnest.FileTree
variable {tree : FileTree} {files : List (Place × Content)} {place : Place}

/-- The place at which a path lets a file be written. -/
def vacant? (tree : FileTree) (path : String) : Option Place :=
  (tree.follow? path).filter fun place => !tree.isDirectory place

theorem vacant?_eq_some {path : String} :
    tree.vacant? path = some place ↔ tree.follow? path = some place ∧ tree.isDirectory place = false := by
  rw [vacant?, Option.filter_eq_some_iff, Bool.not_eq_true']

theorem write?_eq_map (tree : FileTree) (path : String) (content : Content) :
    tree.write? path content = (tree.vacant? path).map fun place => tree.put place (.file content) := by
  rw [write?, vacant?]
  cases tree.follow? path with
  | none => rfl
  | some place => by_cases hd : tree.isDirectory place <;> simp [Option.filter, hd]

/-- The tree with files put into it one after another. -/
def overlay (tree : FileTree) (files : List (Place × Content)) : FileTree :=
  files.foldl (fun tree file => tree.put file.1 (.file file.2)) tree

/-- The files are to be at places where there is no directory. -/
def Fits (tree : FileTree) (files : List (Place × Content)) : Prop :=
  ∀ file ∈ files, tree.isDirectory file.1 = false

theorem isOuter_of_isDirectory (h : tree.isDirectory place = false) : place.isOuter = false := by
  by_contra ho
  rw [tree.isDirectory_of_isOuter (by simpa using ho)] at h
  cases h

theorem isDirectory_put_file (h : tree.isDirectory place = false) (content : Content) (other : Place) :
    (tree.put place (.file content)).isDirectory other = tree.isDirectory other := by
  rw [isDirectory, get?_put tree place other _ (isOuter_of_isDirectory h)]
  by_cases hother : place = other
  · rw [if_pos hother, ← hother, h]
  · rw [if_neg hother, isDirectory]

theorem get?_overlay (h : tree.Fits files) (place : Place) :
    (tree.overlay files).get? place = ((Entries.last? files place).map .file).or (tree.get? place) := by
  induction files generalizing tree with
  | nil => rfl
  | cons file files ih =>
    obtain ⟨hfile, hfiles⟩ := List.forall_mem_cons.1 h
    have hfits : (tree.put file.1 (.file file.2)).Fits files := by
      intro other hother
      rw [isDirectory_put_file hfile, hfiles other hother]
    rw [overlay, List.foldl_cons]
    refine (ih hfits).trans ?_
    rw [Entries.last?_cons, get?_put tree file.1 place _ (isOuter_of_isDirectory hfile)]
    cases Entries.last? files place with
    | some content => rfl
    | none => split <;> rfl

theorem isDirectory_overlay (h : tree.Fits files) (place : Place) :
    (tree.overlay files).isDirectory place = tree.isDirectory place := by
  rw [isDirectory, get?_overlay h]
  cases hlast : Entries.last? files place with
  | none => rfl
  | some content =>
    rw [h _ (Entries.mem_of_last? hlast)]
    rfl

theorem content?_overlay (h : tree.Fits files) (place : Place) :
    (tree.overlay files).content? place = (Entries.last? files place).or (tree.content? place) := by
  rw [content?, get?_overlay h]
  cases Entries.last? files place <;> rfl

theorem follow?_overlay (h : tree.Fits files) (path : String) : (tree.overlay files).follow? path = tree.follow? path :=
  follow?_congr (isDirectory_overlay h)

theorem vacant?_overlay (h : tree.Fits files) (path : String) :
    (tree.overlay files).vacant? path = tree.vacant? path := by
  rw [vacant?, vacant?, follow?_overlay h]
  simp only [isDirectory_overlay h]

theorem read?_overlay (h : tree.Fits files) (path : String) : (tree.overlay files).read? path =
    (tree.follow? path).bind fun place => (Entries.last? files place).or (tree.content? place) := by
  rw [read?_eq_bind, follow?_overlay h]
  exact congrArg _ (funext (content?_overlay h))

theorem overlay_append (tree : FileTree) (files more : List (Place × Content)) :
    tree.overlay (files ++ more) = (tree.overlay files).overlay more := List.foldl_append

theorem Fits.append {more : List (Place × Content)} (h : tree.Fits files) (hmore : tree.Fits more) :
    tree.Fits (files ++ more) :=
  List.forall_mem_append.2 ⟨h, hmore⟩

end Unnest.FileTree
