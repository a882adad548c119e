import Unnest.Entries
import Unnest.Table
import Unnest.Text.Pieces

/-!
# Trees of files

A file tree says what is at each place: a file or a directory. A place is the list of names that lead to
it from the directory in which a run starts. A path is followed name by name (`FileTree.follow?`), and
every name but the last has to be that of a directory. What lies outside of the starting directory is
taken to be directories. `get?_write` says that writing a file changes that file and nothing else.
-/

namespace Unnest

/-- The names on the way to a place, last one first. `..` stands at the end of the list only: it leads
out of the starting directory. A slash stands for the root of all absolute paths. -/
abbrev Place := List String

/-- What is in a file: bytes, or a typed table. -/
inductive Content where
  | bytes (content : ByteArray)
  | table (content : Table Float)

/-- What is at a place. -/
inductive FileEntry where
  | directory
  | file (content : Content)

/-- A tree of files. -/
structure FileTree where
  entries : Entries Place FileEntry := []

namespace Place

/-- The longest name of a file in bytes. -/
def longestName : Nat := 255

/-- The longest path in bytes. -/
def longestPath : Nat := 4095

def root : Place := ["/"]

/-- Whether a place lies on the way out of the starting directory. -/
def isOuter (place : Place) : Bool := place = root || place.all (· = "..")

/-- Whether a place lies below the starting directory. -/
def isInner (place : Place) : Bool := place.all fun name => name ≠ ".." && name ≠ "/"

/-- The path from the starting directory to a place below it. -/
def path (place : Place) : String :=
  String.ofList (['/'].intercalate (place.reverse.map String.toList))

def parent (place : Place) : Place :=
  if place = root then root else if place.isOuter then ".." :: place else place.tail

/-- Where a path starts and the names in it. The empty path, a path that is too long and one with a null
character lead nowhere. -/
def ofPath? (path : String) : Option (Place × List String) :=
  if path.isEmpty || longestPath < path.utf8ByteSize || path.toList.contains '\x00' then none
  else
    some (if path.toList.head? = some '/' then root else [],
      (Text.pieces '/' path.toList).map String.ofList)

end Place

namespace FileTree

/-- What is at a place. -/
def get? (tree : FileTree) (place : Place) : Option FileEntry :=
  if place.isOuter then some .directory else Entries.get? tree.entries place

/-- Whether there is a directory at a place. -/
def isDirectory (tree : FileTree) (place : Place) : Bool :=
  match tree.get? place with
  | some .directory => true
  | _ => false

/-- The tree with an entry at a place. -/
def put (tree : FileTree) (place : Place) (entry : FileEntry) : FileTree :=
  { entries := Entries.put tree.entries place entry }

/-- Follows one name from a place, which has to be a directory. -/
def step? (tree : FileTree) (place : Place) (name : String) : Option Place :=
  if !tree.isDirectory place || Place.longestName < name.utf8ByteSize then none
  else if name = "" || name = "." then some place
  else if name = ".." then some place.parent
  else some (name :: place)

/-- The place to which a path leads. Nothing need be there yet. -/
def follow? (tree : FileTree) (path : String) : Option Place := do
  let (start, names) ← Place.ofPath? path
  names.foldlM tree.step? start

def isFile (tree : FileTree) (path : String) : Bool :=
  match (tree.follow? path).bind tree.get? with
  | some (.file _) => true
  | _ => false

/-- The content of the file to which a path leads. -/
def read? (tree : FileTree) (path : String) : Option Content :=
  match (tree.follow? path).bind tree.get? with
  | some (.file content) => some content
  | _ => none

/-- The tree in which the file to which a path leads has a content. There is none if a directory is in
the way. -/
def write? (tree : FileTree) (path : String) (content : Content) : Option FileTree := do
  let place ← tree.follow? path
  if tree.isDirectory place then none else some (tree.put place (.file content))

/-- Makes the directories that the names lead to from a place. The tree keeps those that were made before
one could not be. -/
def makeDirectories (tree : FileTree) (place : Place) : List String → Bool × FileTree
  | [] => (true, tree)
  | name :: names =>
    match tree.step? place name with
    | none => (false, tree)
    | some next =>
      match tree.get? next with
      | some .directory => makeDirectories tree next names
      | some (.file _) => (false, tree)
      | none => makeDirectories (tree.put next .directory) next names

/-- The tree with a file added, and with the directories on the way to it. -/
def plant (tree : FileTree) (path : String) (content : Content) : FileTree :=
  match Place.ofPath? path with
  | none => tree
  | some (start, names) =>
    let (_, tree) := tree.makeDirectories start names.dropLast
    (tree.write? path content).getD tree

/-- The tree of files given by their paths and contents. -/
def ofFiles (files : List (String × Content)) : FileTree :=
  files.foldl (fun tree (path, content) => tree.plant path content) {}

/-- The files below the starting directory, by their paths. -/
def files (tree : FileTree) : List (String × Content) :=
  tree.entries.filterMap fun (place, entry) =>
    match entry with
    | .directory => none
    | .file content => if place.isInner then some (place.path, content) else none

theorem get?_put (tree : FileTree) (place other : Place) (entry : FileEntry)
    (h : place.isOuter = false) :
    (tree.put place entry).get? other = if place = other then some entry else tree.get? other := by
  unfold get? put
  by_cases ho : place = other
  · subst ho
    simp [h, Entries.get?_put]
  · simp [ho, Entries.get?_put]

theorem isDirectory_of_isOuter (tree : FileTree) {place : Place} (h : place.isOuter = true) :
    tree.isDirectory place = true := by
  simp [isDirectory, get?, h]

/-- Writing changes what is at the place of the path and nothing else. -/
theorem get?_write {tree written : FileTree} {path : String} {content : Content}
    (h : tree.write? path content = some written) :
    ∃ place, tree.follow? path = some place ∧
      ∀ other, written.get? other = if place = other then some (.file content) else tree.get? other := by
  unfold write? at h
  obtain ⟨place, hp, h⟩ := Option.bind_eq_some_iff.1 h
  refine ⟨place, hp, fun other => ?_⟩
  by_cases hd : tree.isDirectory place
  · simp [hd] at h
  · simp only [hd, Bool.false_eq_true, ↓reduceIte, Option.some.injEq] at h
    subst h
    refine get?_put tree place other _ ?_
    rw [← Bool.not_eq_true]
    exact fun ho => hd (tree.isDirectory_of_isOuter ho)

end FileTree

end Unnest
