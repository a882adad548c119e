import Unnest.Describe.Basic
import Unnest.Entries

/-!
# Name maps

A name map gives properties their readable names. Properties without an identifier or without a name are
left out, the last description of a property counts, and a property that is not in the map is called by
its identifier.
-/

namespace Unnest

/-- Readable names by property identifier. -/
structure NameMap where
  names : Entries String String := []
deriving DecidableEq, Repr

namespace NameMap

/-- The names that a model's properties give. -/
def ofProperties (properties : List Property) : NameMap :=
  ⟨Entries.ofList ((properties.filter fun p => !p.id.isEmpty && !p.name.isEmpty).map
    fun p => (p.id, p.name))⟩

def resolve (map : NameMap) (propertyId : String) : String :=
  (Entries.get? map.names propertyId).getD propertyId

/-- The number of properties that have a name. -/
def size (map : NameMap) : Nat := map.names.length

def isEmpty (map : NameMap) : Bool := map.names.isEmpty

end NameMap

end Unnest
