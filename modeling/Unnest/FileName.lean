/-!
# Names of files

A path ends in the name of a file, which may have an extension after its last point (`stem`,
`extension`); a point at the front of the name begins none. The table of a frame is stored in a file
called after the file it came from, its place there and its name. Only ASCII letters and digits, hyphens
and underscores are kept of those names; every other character becomes an underscore, so that a name can
never lead out of its directory.
-/

namespace Unnest.FileName

/-- The name at the end of a path. -/
def ofPath (path : String) : List Char := (path.toList.reverse.takeWhile (· ≠ '/')).reverse

/-- A name as the characters before its last point and those after it, unless the point is the first
character or there is none. -/
def split (name : List Char) : List Char × Option (List Char) :=
  match name.reverse.dropWhile (· ≠ '.') with
  | [] | [_] => (name, none)
  | _ :: front => (front.reverse, some (name.reverse.takeWhile (· ≠ '.')).reverse)

/-- The name at the end of a path without its extension. -/
def stem (path : String) : String := String.ofList (split (ofPath path)).1

/-- The extension of the name at the end of a path. -/
def extension? (path : String) : Option String := (split (ofPath path)).2.map String.ofList

/-- A path, last character first, without the slashes and points at its end that mean the place itself. -/
def named : List Char → List Char
  | '/' :: rest => named rest
  | ['.'] => []
  | '.' :: '/' :: rest => named rest
  | cs => cs

/-- A path with an extension after the name at its end, if there is a name at its end. -/
def extended? (path extension : String) : Option String :=
  let cs := named path.toList.reverse
  match cs.takeWhile (· ≠ '/') with
  | [] | ['.', '.'] => none
  | _ => some (String.ofList cs.reverse ++ "." ++ extension)

/-- Whether a character may stand in the name of a file. -/
def isPlain (c : Char) : Bool := c.isAlphanum || c = '-' || c = '_'

/-- A name in which every character may stand in the name of a file; nothing becomes `frame`. -/
def plain (name : String) : String :=
  if name.isEmpty then "frame"
  else String.ofList (name.toList.map fun c => if isPlain c then c else '_')

/-- A path below a directory. The empty directory is the current one, and an absolute path stays as it
is. -/
def join (directory name : String) : String :=
  if name.toList.head? = some '/' then name
  else if directory.isEmpty || directory.toList.getLast? = some '/' then directory ++ name
  else directory ++ "/" ++ name

/-- The directory that a path leads into; it is empty for a mere name. -/
def directory (path : String) : String :=
  String.ofList ((path.toList.reverse.dropWhile (· ≠ '/')).dropWhile (· = '/')).reverse

/-- The name of the file for a frame: the name of the input, the place of the frame in it and the name
of the frame. -/
def table (input : String) (index : Nat) (frame : String) : String :=
  plain input ++ "-" ++ toString index ++ "-" ++ plain frame ++ ".parquet"

/-- The path of the file for a frame. -/
def tablePath (directory input : String) (index : Nat) (frame : String) : String :=
  join directory (table input index frame)

/-- The path of the file for all frames of an input. -/
def framesPath (directory input : String) : String := join directory (input ++ ".flat.json")

end Unnest.FileName
