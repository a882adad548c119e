/-!
# Segments of diagnostic names

The name of a diagnostic is a path of segments between backslashes: a root, then a property identifier,
then perhaps more. A `SegmentRule` says which segment after the root is the identifier.
-/

namespace Unnest

/-- Which segment of a diagnostic's name holds the property identifier. -/
inductive SegmentRule where
  /-- The segment after the first backslash. -/
  | index1
  /-- The segment after the last backslash. -/
  | last
deriving DecidableEq, Repr

namespace SegmentRule

def name : SegmentRule → String
  | index1 => "index1"
  | last => "last"

def ofName? : String → Option SegmentRule
  | "index1" => some index1
  | "last" => some last
  | _ => none

def firstSegment (cs : List Char) : List Char := cs.takeWhile (· ≠ '\\')

/-- The characters after the first backslash; nothing when there is none. -/
def afterRoot (cs : List Char) : List Char := (cs.dropWhile (· ≠ '\\')).drop 1

/-- The characters of the segment that a rule chooses. -/
def segment : SegmentRule → List Char → List Char
  | index1, cs => firstSegment (afterRoot cs)
  | last, cs => (firstSegment (afterRoot cs).reverse).reverse

/-- The property identifier in a name; `none` if the name has no backslash or the chosen segment is
empty. -/
def propertyId? (rule : SegmentRule) (name : String) : Option String :=
  match rule.segment name.toList with
  | [] => none
  | id => some (String.ofList id)

end SegmentRule

end Unnest
