import Unnest.Proofs.Json.Numeral

/-!
# The grammar of JSON

`Derives limits kind depth text` says that a text is of a kind of the grammar and opens at most `depth` containers
at once; the kinds are the rules of the grammar for values and what they consist of. A text is JSON if it is an
element at some depth, a value with space around it. Numerals (`IsNumeral`) and what stands between the quotes of a
string (`IsBody`) have rules of their own.

Readers allow less than the grammar does. `Limits` are what a reader may refuse besides deep texts: numerals that are
out of its range (`InRange`), and escapes of a 16-bit unit that stands for no character alone. An object within limits
is one by the grammar too (`IsObject.unlimited`).
-/

namespace Unnest.Json
open Text

/-- Space between tokens. -/
def IsSpace (text : List Char) : Prop := ∀ c ∈ text, c ∈ [' ', '\n', '\t', '\r']

/-! ### Numerals -/

/-- At least one digit. -/
def IsDigits (text : List Char) : Prop := Digits text ∧ text ≠ []

/-- The digits before a point, without a superfluous zero in front. -/
def IsWhole (text : List Char) : Prop := IsDigits text ∧ (text.head? = some '0' → text = ['0'])

/-- Nothing, or a point and digits. -/
def IsFraction (text : List Char) : Prop := text = [] ∨ ∃ ds, text = '.' :: ds ∧ IsDigits ds

/-- Nothing, or the mark of a power of ten, perhaps its sign, and digits. -/
def IsPower (text : List Char) : Prop :=
  text = [] ∨ ∃ mark ∈ ['e', 'E'], ∃ sign ∈ [[], ['+'], ['-']], ∃ ds, text = mark :: (sign ++ ds) ∧ IsDigits ds

/-- The text of a number. -/
def IsNumeral (text : List Char) : Prop :=
  ∃ sign ∈ [[], ['-']], ∃ whole fraction power, text = sign ++ (whole ++ (fraction ++ power)) ∧
    IsWhole whole ∧ IsFraction fraction ∧ IsPower power

/-! ### The range of numbers -/

/-- The digits before the point of a numeral. -/
def wholeOf (text : List Char) : List Char := (text.dropWhile (· = '-')).takeWhile Char.isDigit

/-- The digits after the point of a numeral. -/
def fractionOf (text : List Char) : List Char := ((text.dropWhile (· ≠ '.')).drop 1).takeWhile Char.isDigit

/-- The power of ten that is written in a numeral. -/
def writtenPower (text : List Char) : Int :=
  match text.dropWhile fun c => c ≠ 'e' && c ≠ 'E' with
  | [] => 0
  | _ :: '-' :: ds => -Nat.ofDigitChars 10 ds 0
  | _ :: '+' :: ds => Nat.ofDigitChars 10 ds 0
  | _ :: ds => Nat.ofDigitChars 10 ds 0

/-- The significand of a numeral. -/
def significandOf (text : List Char) : Nat :=
  (accumulate (accumulate 0 (wholeOf text)).1 (fractionOf text)).1

/-- The power of ten that goes with the significand of a numeral: digits before the point that do not count raise it,
and digits after the point that do count lower it. -/
def powerOf (text : List Char) : Int :=
  ((wholeOf text).length - (accumulate 0 (wholeOf text)).2 : Nat)
    - (accumulate (accumulate 0 (wholeOf text)).1 (fractionOf text)).2 + writtenPower text

/-- A numeral that stands for a double. Its significand times its power of ten is finite in double arithmetic; nothing
needs to be finite if the significand is zero, or if a power is written that is too small for any significand. -/
def InRange (text : List Char) : Prop :=
  significandOf text = 0 ∨ writtenPower text ≤ -Numeral.powerLimit ∨
    writtenPower text < Numeral.powerLimit ∧
      (0 ≤ powerOf text → powerOf text ≤ 308 ∧
        ((significandOf text).toUInt64.toFloat * Numeral.powerOfTen (powerOf text).toNat).isInf = false)

/-! ### Strings -/

/-- Four hexadecimal digits that stand for a 16-bit unit. -/
def IsUnit (unit : Nat) (text : List Char) : Prop :=
  text.length = 4 ∧ ∃ digits, text.mapM (fun c => hexDigit? (.char c)) = some digits ∧
    unit = digits.foldl (fun n d => n * 16 + d) 0

/-- What stands between the quotes of a string: characters that stand for themselves and escapes, where `alone` says
which 16-bit units may be escaped without being one of a surrogate pair. -/
inductive IsBody (alone : Nat → Prop) : List Char → Prop
  | nil : IsBody alone []
  | plain {c : Char} {text : List Char} (hcontrol : 0x20 ≤ c.toNat) (hquote : c ≠ '"') (hslash : c ≠ '\\')
    (rest : IsBody alone text) : IsBody alone (c :: text)
  | short {c : Char} {text : List Char} (hc : c ∈ ['"', '\\', '/', 'b', 'f', 'n', 'r', 't'])
    (rest : IsBody alone text) : IsBody alone ('\\' :: c :: text)
  | unit {unit : Nat} {digits text : List Char} (hunit : IsUnit unit digits) (halone : alone unit)
    (rest : IsBody alone text) : IsBody alone ('\\' :: 'u' :: (digits ++ text))
  | pair {leading trailing : Nat} {digits digits' text : List Char} (hunit : IsUnit leading digits)
    (hleading : isLeadingSurrogate leading = true) (hunit' : IsUnit trailing digits')
    (htrailing : isTrailingSurrogate trailing = true) (rest : IsBody alone text) :
    IsBody alone ('\\' :: 'u' :: (digits ++ '\\' :: 'u' :: (digits' ++ text)))

/-! ### Values -/

/-- What a reader allows of the grammar. -/
structure Limits where
  /-- The numerals that are in range. -/
  inRange : List Char → Prop
  /-- The 16-bit units that may be escaped alone. -/
  alone : Nat → Prop

/-- The grammar as it is. -/
def Limits.none : Limits where
  inRange _ := True
  alone _ := True

/-- What `readValue` allows: numerals that stand for doubles, and surrogates in pairs only. -/
def Limits.reader : Limits where
  inRange := InRange
  alone unit := isLeadingSurrogate unit = false ∧ isTrailingSurrogate unit = false

/-- What a text may be. -/
inductive Kind where
  | value
  | list
  | object
  /-- A value and the space around it. -/
  | element
  /-- Elements with commas between them. -/
  | elements
  /-- A key, a colon and an element. -/
  | member
  /-- Members with commas between them. -/
  | members

/-- The rules of the grammar. -/
inductive Derives (limits : Limits) : Kind → Nat → List Char → Prop
  | null {depth : Nat} : Derives limits .value depth ['n', 'u', 'l', 'l']
  | true {depth : Nat} : Derives limits .value depth ['t', 'r', 'u', 'e']
  | false {depth : Nat} : Derives limits .value depth ['f', 'a', 'l', 's', 'e']
  | number {depth : Nat} {text : List Char} (htext : IsNumeral text) (hrange : limits.inRange text) :
    Derives limits .value depth text
  | string {depth : Nat} {body : List Char} (hbody : IsBody limits.alone body) :
    Derives limits .value depth ('"' :: (body ++ ['"']))
  | list {depth : Nat} {text : List Char} (h : Derives limits .list depth text) : Derives limits .value depth text
  | object {depth : Nat} {text : List Char} (h : Derives limits .object depth text) :
    Derives limits .value depth text
  | emptyList {depth : Nat} {gap : List Char} (hgap : IsSpace gap) :
    Derives limits .list (depth + 1) ('[' :: (gap ++ [']']))
  | elements {depth : Nat} {text : List Char} (h : Derives limits .elements depth text) :
    Derives limits .list (depth + 1) ('[' :: (text ++ [']']))
  | emptyObject {depth : Nat} {gap : List Char} (hgap : IsSpace gap) :
    Derives limits .object (depth + 1) ('{' :: (gap ++ ['}']))
  | members {depth : Nat} {text : List Char} (h : Derives limits .members depth text) :
    Derives limits .object (depth + 1) ('{' :: (text ++ ['}']))
  | element {depth : Nat} {front text back : List Char} (hfront : IsSpace front)
    (h : Derives limits .value depth text) (hback : IsSpace back) :
    Derives limits .element depth (front ++ (text ++ back))
  | lastElement {depth : Nat} {text : List Char} (h : Derives limits .element depth text) :
    Derives limits .elements depth text
  | nextElement {depth : Nat} {first rest : List Char} (h : Derives limits .element depth first)
    (hrest : Derives limits .elements depth rest) : Derives limits .elements depth (first ++ ',' :: rest)
  | member {depth : Nat} {front key gap text : List Char} (hfront : IsSpace front) (hkey : IsBody limits.alone key)
    (hgap : IsSpace gap) (h : Derives limits .element depth text) :
    Derives limits .member depth (front ++ '"' :: (key ++ '"' :: (gap ++ ':' :: text)))
  | lastMember {depth : Nat} {text : List Char} (h : Derives limits .member depth text) :
    Derives limits .members depth text
  | nextMember {depth : Nat} {first rest : List Char} (h : Derives limits .member depth first)
    (hrest : Derives limits .members depth rest) : Derives limits .members depth (first ++ ',' :: rest)

/-- The text of an object, with space around it. -/
def IsObject (limits : Limits) (depth : Nat) (text : List Char) : Prop :=
  ∃ front body back, text = front ++ (body ++ back) ∧ IsSpace front ∧ Derives limits .object depth body ∧ IsSpace back

/-! ### Fewer limits -/

section
variable {limits limits' : Limits}

theorem IsBody.mono {alone alone' : Nat → Prop} (halone : ∀ unit, alone unit → alone' unit) {text : List Char}
    (h : IsBody alone text) : IsBody alone' text := by
  induction h with
  | nil => exact .nil
  | plain hcontrol hquote hslash _ ih => exact .plain hcontrol hquote hslash ih
  | short hc _ ih => exact .short hc ih
  | unit hunit h _ ih => exact .unit hunit (halone _ h) ih
  | pair hunit hleading hunit' htrailing _ ih => exact .pair hunit hleading hunit' htrailing ih

/-- Whatever derives with limits derives with fewer. -/
theorem Derives.mono (hrange : ∀ text, limits.inRange text → limits'.inRange text)
    (halone : ∀ unit, limits.alone unit → limits'.alone unit) {kind : Kind} {depth : Nat} {text : List Char}
    (h : Derives limits kind depth text) : Derives limits' kind depth text := by
  induction h with
  | null => exact .null
  | true => exact .true
  | false => exact .false
  | number htext h => exact .number htext (hrange _ h)
  | string hbody => exact .string (hbody.mono halone)
  | list _ ih => exact .list ih
  | object _ ih => exact .object ih
  | emptyList hgap => exact .emptyList hgap
  | elements _ ih => exact .elements ih
  | emptyObject hgap => exact .emptyObject hgap
  | members _ ih => exact .members ih
  | element hfront _ hback ih => exact .element hfront ih hback
  | lastElement _ ih => exact .lastElement ih
  | nextElement _ _ ih ih' => exact .nextElement ih ih'
  | member hfront hkey hgap _ ih => exact .member hfront (hkey.mono halone) hgap ih
  | lastMember _ ih => exact .lastMember ih
  | nextMember _ _ ih ih' => exact .nextMember ih ih'

/-- What a reader allows is JSON. -/
theorem IsObject.unlimited {depth : Nat} {text : List Char} (h : IsObject limits depth text) :
    IsObject .none depth text := by
  obtain ⟨front, body, back, htext, hfront, hbody, hback⟩ := h
  exact ⟨front, body, back, htext, hfront, hbody.mono (fun _ _ => trivial) (fun _ _ => trivial), hback⟩

end

end Unnest.Json
