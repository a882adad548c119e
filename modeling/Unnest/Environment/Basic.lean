import Unnest.Entries
import Unnest.Text.Pieces
import Unnest.Text.Symbol

/-!
# Environments

An environment gives values to variables. Names and values are byte texts; what asks for the value of a variable
gets a text, and nothing if the value is none (`Environment.value?`). `Environment.add` never changes a variable
whose value is a text.
-/

namespace Unnest
open Text

/-- The variables of an environment and their values. -/
abbrev Environment := Entries (List Symbol) (List Symbol)

namespace Environment

/-- The environment with texts for variables. -/
def ofTexts (texts : List (String × String)) : Environment :=
  texts.map fun (name, value) => (Symbol.ofString name, Symbol.ofString value)

/-- The value of a variable, if it has one that is a text. -/
def value? (environment : Environment) (name : String) : Option String :=
  (Entries.get? environment (Symbol.ofString name)).bind Symbol.text?

/-- The environment with a value for a variable, unless it has one that is a text. -/
def add (environment : Environment) (name value : String) : Environment :=
  if (environment.value? name).isSome then environment
  else Entries.put environment (Symbol.ofString name) (Symbol.ofString value)

/-- The variables in a byte text of entries `NAME=value`, each of which ends in a null character. -/
def ofBlock (symbols : List Symbol) : Environment :=
  (Text.pieces (.char '\x00') symbols).filterMap fun entry =>
    match entry.dropWhile (· ≠ .char '=') with
    | [] => none
    | _ :: value => some (entry.takeWhile (· ≠ .char '='), value)

theorem value?_add (environment : Environment) (name value other : String) :
    (environment.add name value).value? other =
      (environment.value? other).or (if name = other then some value else none) := by
  unfold add
  split
  · rename_i h
    by_cases ho : name = other
    · subst ho
      obtain ⟨found, hf⟩ := Option.isSome_iff_exists.1 h
      simp [hf]
    · simp [ho]
  · rename_i h
    rw [value?, Entries.get?_put]
    by_cases ho : name = other
    · subst ho
      simp [Option.not_isSome_iff_eq_none.1 h]
    · rw [if_neg (mt Symbol.ofString_inj.1 ho), if_neg ho, Option.or_none, value?]

end Environment

end Unnest
