import Unnest.Environment.Basic
import Unnest.Text.Blank
import Unnest.Text.Symbol

/-!
# Files of variables

A file of variables holds assignments `NAME=value`, one a line; a quoted value may span lines. Blank
lines and comments do not matter. In a value a backslash escapes, single quotes keep everything as it
is, and `$NAME` and `${NAME}` stand for variables. A file is read up to the first line that is broken
(`Environment.addFile?`), and what it assigns is added to an environment without changing a variable that
has a value.

Where a line ends is found out first (`Scan`) and what it says afterwards (`Assignment.parse?`,
`expand?`). The two do not agree on what a quote or a backslash means in every place, so a broken line
may take the next ones with it.
-/

namespace Unnest.Environment
open Text

/-- What has been met in a line so far, as far as it matters for where the line ends. -/
inductive Scan where
  /-- Nothing special. -/
  | plain
  /-- One blank, behind which a comment may start. -/
  | blank
  | escape
  | singleQuotes
  | singleQuotesEscape
  | doubleQuotes
  | doubleQuotesEscape
  | comment
deriving DecidableEq, Repr

namespace Scan

/-- What a character outside of quotes begins. -/
def start (c : Char) : Scan :=
  if c = '\\' then escape
  else if c = '"' then doubleQuotes
  else if c = '\x27' then singleQuotes
  else plain

/-- The scan after one more character. -/
def next (scan : Scan) (c : Char) : Scan :=
  match scan with
  | plain => if isBlank c && c ≠ '\n' && c ≠ '\r' then blank else start c
  | blank => if c = '#' then comment else start c
  | escape => plain
  | singleQuotes =>
    if c = '\\' then singleQuotesEscape else if c = '\x27' then plain else singleQuotes
  | singleQuotesEscape => singleQuotes
  | doubleQuotes =>
    if c = '\\' then doubleQuotesEscape else if c = '"' then plain else doubleQuotes
  | doubleQuotesEscape => doubleQuotes
  | comment => comment

/-- Scans a physical line; `found` is what was read of it, last character first. A comment is not
read. -/
def run (scan : Scan) (found : List Char) : List Char → Scan × List Char
  | [] => (scan, found.reverse)
  | c :: rest =>
    if scan.next c = comment then (comment, found.reverse) else run (scan.next c) (c :: found) rest

end Scan

/-- The physical lines of a text, with their line feeds. -/
def physicalLines : List Char → List (List Char)
  | [] => []
  | '\n' :: rest => ['\n'] :: physicalLines rest
  | c :: rest =>
    match physicalLines rest with
    | [] => [[c]]
    | line :: lines => (c :: line) :: lines

/-- The lines of a file, of which `front` has been read and scanned. A line that is not finished at the
end of the file is broken. -/
def logicalLines (scan : Scan) (front : List Char) : List (List Char) → List (Option (List Char))
  | [] => if scan = .plain then [] else [none]
  | line :: lines =>
    if (dropBlanks (front ++ line)).head? = some '#' then logicalLines .plain [] lines
    else
      match scan.run [] line with
      | (.plain, _) => some (front ++ line) :: logicalLines .plain [] lines
      | (.comment, kept) => some (front ++ kept) :: logicalLines .plain [] lines
      | (scan, _) => logicalLines scan (front ++ line) lines

/-- A variable and the unexpanded text of its value. -/
structure Assignment where
  name : String
  value : List Char
deriving DecidableEq, Repr

namespace Assignment

/-- Reads the name of a variable and the blanks behind it. -/
def readName? (cs : List Char) : Option (String × List Char) :=
  let isInner (c : Char) : Bool := c.isAlphanum || c = '_' || c = '.'
  match cs with
  | [] => none
  | c :: rest =>
    if c.isAlpha || c = '_' then
      some (String.ofList (c :: rest.takeWhile isInner), dropBlanks (rest.dropWhile isInner))
    else none

/-- Reads the equals sign and makes an assignment of what follows. A comment is no value. -/
def readValue? (name : String) : List Char → Option Assignment
  | '=' :: rest =>
    let value := dropBlanks rest
    some ⟨name, if value.head? = some '#' then [] else value⟩
  | _ => none

/-- The assignment on a line, which may start with the word `export`; `none` if the line is broken and
`some none` if there is nothing on it. -/
def parse? (line : List Char) : Option (Option Assignment) :=
  let cs := dropBlanks (dropBlanks line.reverse).reverse
  if cs.isEmpty || cs.head? = some '#' then some none
  else do
    let (name, rest) ← readName? cs
    if name = "export" && rest.head? ≠ some '=' then
      let (name, rest) ← readName? rest
      return some (← readValue? name rest)
    else return some (← readValue? name rest)

end Assignment

/-- Blocks of punctuation and symbols beyond ASCII, as closed intervals of code points. -/
def markRanges : List (Nat × Nat) :=
  [(0x80, 0xA9), (0xAB, 0xB1), (0xB4, 0xB4), (0xB6, 0xB8), (0xBB, 0xBB), (0xBF, 0xBF), (0xD7, 0xD7),
    (0xF7, 0xF7), (0x2000, 0x206F), (0x207A, 0x207E), (0x208A, 0x208E), (0x20A0, 0x20FF),
    (0x2190, 0x245F), (0x249C, 0x24B5), (0x2500, 0x2775), (0x2794, 0x2BFF), (0x3000, 0x3004),
    (0x3008, 0x3020), (0x3030, 0x3030), (0xD800, 0xF8FF), (0xFE10, 0xFE6F), (0xFEFF, 0xFF0F),
    (0xFF1A, 0xFF20), (0xFF3B, 0xFF40), (0xFF5B, 0xFF65), (0xFFE0, 0xFFFF), (0x1F000, 0x1F0FF),
    (0x1F18A, 0x1FAFF)]

/-- Whether a character belongs to the name behind a dollar sign. -/
def isNameChar (c : Char) : Bool :=
  c.isAlphanum || (0x80 ≤ c.toNat && !isBlank c &&
    !markRanges.any fun range => range.1 ≤ c.toNat && c.toNat ≤ range.2)

/-- What is being read of a value. -/
inductive Expansion where
  | plain
  | escape
  | singleQuotes
  /-- The name of a variable, last character first. -/
  | bare (name : List Char)
  /-- The name of a variable between braces, last character first. -/
  | braced (name : List Char)
  /-- The value has ended; only blanks and a comment may follow. -/
  | ended
deriving DecidableEq, Repr

/-- The value of the variable with a reversed name; a variable that is not set is empty. -/
def valueOf (environment : Environment) (name : List Char) : List Char :=
  ((environment.value? (String.ofList name.reverse)).getD "").toList

/-- The value of a text that has ended. `found` is what was read, last character first. -/
def finish? (environment : Environment) (expansion : Expansion) (inQuotes : Bool) (found : List Char) :
    Option (List Char) :=
  if inQuotes then none
  else
    match expansion with
    | .singleQuotes | .braced _ => none
    | .bare name => some (found.reverse ++ environment.valueOf name)
    | .plain | .escape | .ended => some found.reverse

/-- Expands a text. `inQuotes` says whether double quotes are open, `found` is what was read, last
character first. -/
def expandFrom? (environment : Environment) (expansion : Expansion) (inQuotes : Bool)
    (found : List Char) : List Char → Option (List Char)
  | [] => environment.finish? expansion inQuotes found
  | c :: rest =>
    match expansion with
    | .ended =>
      if c = ' ' || c = '\t' then environment.expandFrom? .ended inQuotes found rest
      else if c = '#' then environment.finish? .ended inQuotes found
      else none
    | .escape =>
      if ['\\', '\x27', '"', '$', ' '].contains c then
        environment.expandFrom? .plain inQuotes (c :: found) rest
      else if c = 'n' then environment.expandFrom? .plain inQuotes ('\n' :: found) rest
      else none
    | .singleQuotes =>
      if c = '\x27' then environment.expandFrom? .plain inQuotes found rest
      else environment.expandFrom? .singleQuotes inQuotes (c :: found) rest
    | .bare name =>
      if isNameChar c then environment.expandFrom? (.bare (c :: name)) inQuotes found rest
      else if c = '\x7b' && name.isEmpty then environment.expandFrom? (.braced []) inQuotes found rest
      else
        let found := (environment.valueOf name).reverse ++ found
        if c = '$' then environment.expandFrom? (.bare []) inQuotes found rest
        else environment.expandFrom? .plain inQuotes (c :: found) rest
    | .braced name =>
      if c = '\x7d' then
        environment.expandFrom? .plain inQuotes ((environment.valueOf name).reverse ++ found) rest
      else environment.expandFrom? (.braced (c :: name)) inQuotes found rest
    | .plain =>
      if c = '$' then environment.expandFrom? (.bare []) inQuotes found rest
      else if c = '\\' then environment.expandFrom? .escape inQuotes found rest
      else if c = '"' then environment.expandFrom? .plain (!inQuotes) found rest
      else if c = '\x27' && !inQuotes then environment.expandFrom? .singleQuotes inQuotes found rest
      else if (c = ' ' || c = '\t') && !inQuotes then
        environment.expandFrom? .ended inQuotes found rest
      else environment.expandFrom? .plain inQuotes (c :: found) rest

/-- The value that a text stands for; `none` if it is broken. -/
def expand? (environment : Environment) (value : List Char) : Option (List Char) :=
  environment.expandFrom? .plain false [] value

/-- Adds what lines assign, up to the first that is broken. There is no environment in which a variable
has a null character in its value. -/
def addLines? (environment : Environment) : List (Option (List Char)) → Option Environment
  | [] | none :: _ => some environment
  | some line :: lines =>
    match Assignment.parse? line with
    | none => some environment
    | some none => addLines? environment lines
    | some (some ⟨name, value⟩) =>
      match environment.expand? value with
      | none => some environment
      | some value =>
        if value.contains '\x00' && (environment.value? name).isNone then none
        else addLines? (environment.add name (String.ofList value)) lines

/-- The characters of a byte text up to the line that holds the first stray byte. -/
def wholeLines (symbols : List Symbol) : List Char :=
  let cs := (symbols.takeWhile fun symbol => symbol.char?.isSome).filterMap Symbol.char?
  if cs.length = symbols.length then cs else (cs.reverse.dropWhile (· ≠ '\n')).reverse

/-- The environment with what a file assigns. A mark of the byte order at the front is left out. -/
def addFile? (environment : Environment) (content : ByteArray) : Option Environment :=
  let text := match wholeLines (Symbol.ofBytes content) with
    | '\uFEFF' :: text => text
    | text => text
  environment.addLines? (logicalLines .plain [] (physicalLines text))

end Unnest.Environment
