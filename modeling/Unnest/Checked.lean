import Unnest.Event

/-!
# Computations that may fail to find something

A `Checked` computation reports events, and it fails when it looks up what is not there.
-/

namespace Unnest

/-- A computation that reports events and may fail to find something. -/
abbrev Checked := OptionT Logged

/-- What was looked up. If there is nothing, the computation fails. -/
def Checked.look {β : Type} (found : Option β) : Checked β := OptionT.mk (pure found)

end Unnest
