import Unnest.Text.Symbol

/-!
# Positions in a text

A position names a line and a column, both counted from one byte before the text's first: nothing
read is line 1, column 0. A column counts bytes, so a character of several bytes moves it by several,
and a position may fall inside a character.
-/

namespace Unnest.Text

/-- A line, counted from 1, and the bytes read of it. -/
structure Position where
  line : Nat
  column : Nat
deriving DecidableEq, Repr

namespace Position

/-- The position before anything has been read. -/
def start : Position := ⟨1, 0⟩

/-- The position after a whole symbol. -/
def advance (p : Position) : Symbol → Position
  | .char '\n' => ⟨p.line + 1, 0⟩
  | symbol => ⟨p.line, p.column + symbol.size⟩

/-- The position `count` bytes further on, or at the end of a text that has fewer. -/
def after (p : Position) : (count : Nat) → List Symbol → Position
  | _, [] => p
  | count, symbol :: rest =>
    if symbol.size ≤ count then after (p.advance symbol) (count - symbol.size) rest
    else ⟨p.line, p.column + count⟩

/-- The position in `text` at which `unread` of its bytes are still to be read. -/
def ofUnread (text : List Symbol) (unread : Nat) : Position :=
  start.after (Symbol.totalSize text - unread) text

end Position

end Unnest.Text
