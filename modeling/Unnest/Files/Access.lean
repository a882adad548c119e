import Unnest.Event
import Unnest.Files.Tree
import Unnest.Parquet.File

/-!
# Access to files

What a run needs of its surroundings: to look at files, to make directories and files, and to report
events. Every action tells whether it worked. A file tree gives this access as a state, where nothing
listens to the events.
-/

namespace Unnest

/-- Files that can be read and written by their paths, and a place to report events. -/
class FileAccess (m : Type → Type) where
  /-- Whether a path leads to a file. -/
  isFile : String → m Bool
  /-- The bytes of a file. -/
  read : String → m (Option ByteArray)
  /-- Makes a directory and those on the way to it, as far as they are missing. -/
  makeDirectories : String → m Bool
  /-- Gives a file a content; the directory that it is in must be there. -/
  write : String → Content → m Bool
  /-- Lets reports go to a file from now on, which is made if there is none. -/
  reportTo : String → m Bool
  report : Event → m Unit

def Content.toBytes : Content → ByteArray
  | bytes content => content
  | table content => Parquet.ofTable content

namespace FileTree

/-- Makes a directory and those on the way to it. -/
def makePath (tree : FileTree) (path : String) : Bool × FileTree :=
  match Place.ofPath? path with
  | none => (false, tree)
  | some (start, names) => tree.makeDirectories start names

/-- The outcome of a change that may be refused. -/
def attempt (tree : FileTree) : Option FileTree → Bool × FileTree
  | some changed => (true, changed)
  | none => (false, tree)

instance : FileAccess (StateM FileTree) where
  isFile path := return (← get).isFile path
  read path := return ((← get).read? path).map Content.toBytes
  makeDirectories path := modifyGet fun tree => tree.makePath path
  write path content := modifyGet fun tree => tree.attempt (tree.write? path content)
  reportTo path := modifyGet fun tree =>
    if tree.isFile path then (true, tree) else tree.attempt (tree.write? path (.bytes .empty))
  report _ := pure ()

end FileTree

end Unnest
