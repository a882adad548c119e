/-!
# Blank characters

`isBlank` is the Unicode property White_Space. `trim` removes blanks at both ends of a text and
`trimStart` those before its first other character; a text is blank when nothing is left.
-/

namespace Unnest.Text

/-- The code points with the property White_Space, as closed intervals. -/
def blankRanges : List (Nat × Nat) :=
  [(0x09, 0x0D), (0x20, 0x20), (0x85, 0x85), (0xA0, 0xA0), (0x1680, 0x1680), (0x2000, 0x200A),
    (0x2028, 0x2029), (0x202F, 0x202F), (0x205F, 0x205F), (0x3000, 0x3000)]

/-- Whether a character has the property White_Space. -/
def isBlank (c : Char) : Bool :=
  blankRanges.any fun range => range.1 ≤ c.toNat && c.toNat ≤ range.2

/-- The characters from the first that is not blank. -/
def dropBlanks (cs : List Char) : List Char := cs.dropWhile isBlank

/-- A text without the blanks at its start. -/
def trimStart (s : String) : String := String.ofList (dropBlanks s.toList)

/-- A text without the blanks at its start and at its end. -/
def trim (s : String) : String :=
  String.ofList (dropBlanks (dropBlanks s.toList).reverse).reverse

/-- Whether every character of a text is blank. -/
def allBlank (s : String) : Bool := s.toList.all isBlank

/-- A text that starts with a character that is not blank is its own trimmed start. -/
theorem dropBlanks_eq_self {c : Char} {cs : List Char} (h : isBlank c = false) :
    dropBlanks (c :: cs) = c :: cs := by
  simp [dropBlanks, h]

end Unnest.Text
