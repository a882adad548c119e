import Unnest.Text.Position

/-!
# Faults in JSON texts

A reader that stops says what is wrong (`Fault`) and how many bytes of its input it has not read
(`Failure`). `Fault.describe` is the text of both, with the line and the column reached. Faults fall into three categories: the text ended too early, it breaks the grammar, or it is a JSON text of the
wrong shape for what it should hold.
-/

namespace Unnest.Json
open Text

/-- What is wrong with a JSON text. -/
inductive Fault where
  | endInValue
  | endInList
  | endInObject
  | endInString
  | expectedValue
  | expectedIdentifier
  | invalidNumber
  | numberOutOfRange
  | expectedColon
  | expectedCommaOrBrace
  | expectedCommaOrBracket
  | keyNotText
  | trailingComma
  | trailingCharacters
  | invalidEscape
  | loneSurrogate
  | unpairedSurrogate
  | controlCharacter
  | illFormedText
  | tooDeep
  | wrongShape
deriving DecidableEq, Repr

/-- How a text fails to be what it should be. -/
inductive Category where
  /-- The text ended too early. -/
  | ended
  /-- The text breaks the grammar. -/
  | grammar
  /-- The text is JSON and holds something else. -/
  | shape
deriving DecidableEq, Repr

namespace Fault

def message : Fault → String
  | endInValue => "EOF while parsing a value"
  | endInList => "EOF while parsing a list"
  | endInObject => "EOF while parsing an object"
  | endInString => "EOF while parsing a string"
  | expectedValue => "expected value"
  | expectedIdentifier => "expected ident"
  | invalidNumber => "invalid number"
  | numberOutOfRange => "number out of range"
  | expectedColon => "expected `:`"
  | expectedCommaOrBrace => "expected `,` or `\x7d`"
  | expectedCommaOrBracket => "expected `,` or `]`"
  | keyNotText => "key must be a string"
  | trailingComma => "trailing comma"
  | trailingCharacters => "trailing characters"
  | invalidEscape => "invalid escape"
  | loneSurrogate => "lone leading surrogate in hex escape"
  | unpairedSurrogate => "unexpected end of hex escape"
  | controlCharacter => "control character (\\u0000-\\u001F) found while parsing a string"
  | illFormedText => "invalid unicode code point"
  | tooDeep => "recursion limit exceeded"
  | wrongShape => "unexpected shape"

def category : Fault → Category
  | endInValue | endInList | endInObject | endInString => .ended
  | wrongShape => .shape
  | _ => .grammar

end Fault

/-- A fault and the number of bytes that were still to be read when it was found. -/
structure Failure where
  fault : Fault
  unread : Nat
deriving DecidableEq, Repr

namespace Failure

/-- The fault found when the first `taken` bytes of `rest` have been looked at. -/
def within (fault : Fault) (taken : Nat) (rest : List Symbol) : Failure :=
  ⟨fault, Symbol.totalSize rest - taken⟩

/-- The fault that the first byte of `rest` shows, or the end of the text if nothing is left. -/
def here (fault : Fault) (rest : List Symbol) : Failure := within fault 1 rest

/-- Where in `text` the fault was found. -/
def position (failure : Failure) (text : List Symbol) : Position :=
  Position.ofUnread text failure.unread

end Failure

/-- The wording of a fault and where it was found. -/
def Fault.describe (fault : Fault) (position : Position) : String :=
  fault.message ++ " at line " ++ toString position.line ++ " column " ++ toString position.column

/-- A reader takes the front of a text and gives what it read and the rest, or fails. -/
abbrev Reader (α : Type) := List Symbol → Except Failure (α × List Symbol)

end Unnest.Json
