/-!
# Symbols of a byte text

A file is a sequence of bytes that need not be well-formed UTF-8. `Symbol.ofBytes` splits it into
the characters that it encodes and the stray bytes between them, so that a reader works on one list
and still meets ill-formed text at the place where it stands. A text that is a `String` has no stray
bytes (`Symbol.ofString`).
-/

namespace Unnest.Text

/-- One piece of a byte text: an encoded character, or a byte that encodes none. -/
inductive Symbol where
  | char (c : Char)
  | stray (byte : UInt8)
deriving DecidableEq, Repr

namespace Symbol

/-- The number of bytes that a symbol takes up. -/
def size : Symbol → Nat
  | char c => c.utf8Size
  | stray _ => 1

def ofString (s : String) : List Symbol := s.toList.map char

/-- The character that a symbol is, if it is one. -/
def char? : Symbol → Option Char
  | char c => some c
  | stray _ => none

/-- The text that symbols make; none if there is a stray byte among them. -/
def text? (symbols : List Symbol) : Option String := (symbols.mapM char?).map String.ofList

/-- The symbols from byte `i` on, in reverse order before those found so far. A symbol takes at least
one byte, so `fuel` never runs out when it starts at the number of bytes. -/
def scan (bytes : ByteArray) : (fuel i : Nat) → List Symbol → List Symbol
  | 0, _, found => found
  | fuel + 1, i, found =>
    if h : i < bytes.size then
      match bytes.utf8DecodeChar? i with
      | some c => scan bytes fuel (i + c.utf8Size) (char c :: found)
      | none => scan bytes fuel (i + 1) (stray bytes[i] :: found)
    else found

/-- The symbols of a byte text. -/
def ofBytes (bytes : ByteArray) : List Symbol := (scan bytes bytes.size 0 []).reverse

/-- The number of bytes that a list of symbols takes up. -/
def totalSize (symbols : List Symbol) : Nat := symbols.foldr (fun symbol n => symbol.size + n) 0

@[simp] theorem text?_ofString (s : String) : text? (ofString s) = some s := by
  have hchars : ∀ cs : List Char, (cs.map char).mapM char? = some cs := fun cs => by
    induction cs with
    | nil => rfl
    | cons c cs ih => simp [List.mapM_cons, char?, ih]
  rw [text?, ofString, hchars, Option.map_some, String.ofList_toList]

theorem ofString_inj {s t : String} : ofString s = ofString t ↔ s = t :=
  ⟨fun h => Option.some_inj.1 (by rw [← text?_ofString s, h, text?_ofString]), congrArg ofString⟩

@[simp] theorem totalSize_nil : totalSize [] = 0 := rfl

@[simp] theorem totalSize_cons (symbol : Symbol) (rest : List Symbol) :
    totalSize (symbol :: rest) = symbol.size + totalSize rest := rfl

theorem size_pos (symbol : Symbol) : 0 < symbol.size := by
  cases symbol with
  | char c => exact c.utf8Size_pos
  | stray _ => exact Nat.one_pos

end Symbol

end Unnest.Text
