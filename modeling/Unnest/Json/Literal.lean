import Unnest.Json.Fault

/-!
# Reading JSON strings

`readString` reads the text of a string after its opening quote, and `skipString` passes over one
without asking what it says: it does not mind surrogates that are not paired and bytes that encode no
character. Both refuse control characters and escapes that do not exist.
-/

namespace Unnest.Json
open Text

def hexDigit? : Symbol → Option Nat
  | .char c =>
    if c.isDigit then some (c.toNat - '0'.toNat)
    else if 'a' ≤ c ∧ c ≤ 'f' then some (c.toNat - 'a'.toNat + 10)
    else if 'A' ≤ c ∧ c ≤ 'F' then some (c.toNat - 'A'.toNat + 10)
    else none
  | .stray _ => none

/-- Reads the four hexadecimal digits of a `\u` escape. Four bytes are looked at before any of them is
refused. -/
def hexUnit (input : List Symbol) : Except Failure Nat :=
  if Symbol.totalSize (input.take 4) < 4 then .error (.within .endInString 4 input)
  else
    match (input.take 4).mapM hexDigit? with
    | some digits => .ok (digits.foldl (fun n d => n * 16 + d) 0)
    | none => .error (.within .invalidEscape 4 input)

/-- Whether a 16-bit unit is the first of a surrogate pair. -/
def isLeadingSurrogate (unit : Nat) : Bool := 0xD800 ≤ unit && unit ≤ 0xDBFF

/-- Whether a 16-bit unit is the second of a surrogate pair. -/
def isTrailingSurrogate (unit : Nat) : Bool := 0xDC00 ≤ unit && unit ≤ 0xDFFF

/-- The character that a surrogate pair stands for. -/
def pairedChar (leading trailing : Nat) : Char :=
  Char.ofNat (0x10000 + (leading - 0xD800) * 0x400 + (trailing - 0xDC00))

/-- The character that a backslash and this character stand for. -/
def shortEscape? : Char → Option Char
  | '"' => some '"'
  | '\\' => some '\\'
  | '/' => some '/'
  | 'b' => some '\x08'
  | 'f' => some '\x0c'
  | 'n' => some '\n'
  | 'r' => some '\r'
  | 't' => some '\t'
  | _ => none

/-- Reads what follows the backslash and the `u` of an escape: the character it stands for and the
number of symbols taken. A leading surrogate needs a second escape, which holds the trailing one. -/
def unicodeEscape (input : List Symbol) : Except Failure (Char × Nat) := do
  let unit ← hexUnit input
  if isTrailingSurrogate unit then .error (.within .loneSurrogate 4 input)
  else if !isLeadingSurrogate unit then .ok (Char.ofNat unit, 4)
  else
    match input.drop 4 with
    | [] => .error (.here .endInString [])
    | .char '\\' :: [] => .error (.here .endInString [])
    | .char '\\' :: .char 'u' :: rest =>
      let second ← hexUnit rest
      if isTrailingSurrogate second then .ok (pairedChar unit second, 10)
      else .error (.within .loneSurrogate 4 rest)
    | .char '\\' :: rest => .error (.here .unpairedSurrogate rest)
    | rest => .error (.here .unpairedSurrogate rest)

/-- Reads what follows the backslash of an escape: the character it stands for and the number of
symbols taken. -/
def escape (input : List Symbol) : Except Failure (Char × Nat) :=
  match input with
  | [] => .error (.here .endInString [])
  | .char 'u' :: rest => (unicodeEscape rest).map fun (c, taken) => (c, taken + 1)
  | .char c :: _ =>
    match shortEscape? c with
    | some e => .ok (e, 1)
    | none => .error (.here .invalidEscape input)
  | .stray _ :: _ => .error (.here .invalidEscape input)

/-- Reads on in a string of which `found` has been read, last character first; `sound` says that no
stray byte was met, and the next `taken` symbols belong to an escape that has been read. -/
def stringBody (found : List Char) (sound : Bool) :
    (taken : Nat) → List Symbol → Except Failure (String × List Symbol)
  | _, [] => .error (.here .endInString [])
  | taken + 1, _ :: rest => stringBody found sound taken rest
  | 0, .stray _ :: rest => stringBody found false 0 rest
  | 0, .char c :: rest =>
    if c = '"' then
      if sound then .ok (String.ofList found.reverse, rest)
      else .error (.within .illFormedText 0 rest)
    else if c = '\\' then
      match escape rest with
      | .ok (e, taken) => stringBody (e :: found) sound taken rest
      | .error failure => .error failure
    else if c.toNat < 0x20 then .error (.here .controlCharacter (.char c :: rest))
    else stringBody (c :: found) sound 0 rest

def readString : Reader String := stringBody [] true 0

/-- The number of symbols that an escape takes after its backslash, whatever it stands for. -/
def escapeLength (input : List Symbol) : Except Failure Nat :=
  match input with
  | [] => .error (.here .endInString [])
  | .char 'u' :: rest => (hexUnit rest).map fun _ => 5
  | .char c :: _ => if (shortEscape? c).isSome then .ok 1 else .error (.here .invalidEscape input)
  | .stray _ :: _ => .error (.here .invalidEscape input)

/-- Passes over the rest of a string, of which the next `taken` symbols belong to an escape. -/
def skipBody : (taken : Nat) → List Symbol → Except Failure (List Symbol)
  | _, [] => .error (.here .endInString [])
  | taken + 1, _ :: rest => skipBody taken rest
  | 0, .stray _ :: rest => skipBody 0 rest
  | 0, .char c :: rest =>
    if c = '"' then .ok rest
    else if c = '\\' then
      match escapeLength rest with
      | .ok taken => skipBody taken rest
      | .error failure => .error failure
    else if c.toNat < 0x20 then .error (.here .controlCharacter (.char c :: rest))
    else skipBody 0 rest

/-- Passes over a string after its opening quote. -/
def skipString (input : List Symbol) : Except Failure (List Symbol) := skipBody 0 input

end Unnest.Json
