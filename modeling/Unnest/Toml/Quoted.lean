/-!
# Quoted texts of TOML

A text in double quotes knows escapes, one in single quotes does not. Either may have three quotes on
each side and then spans lines; a line break right after the opening quotes does not belong to it, and
every line break in it is read as a single line feed. Control characters are refused.
-/

namespace Unnest.Toml

/-- Whether a character may stand unescaped in a text or a comment. -/
def isPrintable (c : Char) : Bool := c = '\t' || (0x20 ≤ c.toNat && c.toNat ≠ 0x7F)

def afterBreak? : List Char → Option (List Char)
  | '\n' :: rest => some rest
  | '\r' :: '\n' :: rest => some rest
  | _ => none

def hexValue? (c : Char) : Option Nat :=
  if c.isDigit then some (c.toNat - '0'.toNat)
  else if 'a' ≤ c ∧ c ≤ 'f' then some (c.toNat - 'a'.toNat + 10)
  else if 'A' ≤ c ∧ c ≤ 'F' then some (c.toNat - 'A'.toNat + 10)
  else none

/-- The character whose code point `count` hexadecimal digits spell. -/
def codePoint? (count : Nat) (cs : List Char) : Option (Char × Nat) := do
  let digits ← (cs.take count).mapM hexValue?
  let n := digits.foldl (fun n d => n * 16 + d) 0
  if digits.length = count && n.isValidChar then some (Char.ofNat n, count + 1) else none

/-- The character that an escape stands for and the number of characters it takes after its backslash. -/
def escape? : List Char → Option (Char × Nat)
  | 'b' :: _ => some ('\x08', 1)
  | 't' :: _ => some ('\t', 1)
  | 'n' :: _ => some ('\n', 1)
  | 'f' :: _ => some ('\x0c', 1)
  | 'r' :: _ => some ('\r', 1)
  | '"' :: _ => some ('"', 1)
  | '\\' :: _ => some ('\\', 1)
  | 'u' :: rest => codePoint? 4 rest
  | 'U' :: rest => codePoint? 8 rest
  | _ => none

/-- Reads on in a text in double quotes on one line; `found` is what was read, last character first, and
the next `taken` characters belong to an escape. -/
def basicBody (found : List Char) : (taken : Nat) → List Char → Option (List Char × List Char)
  | _, [] => none
  | taken + 1, _ :: rest => basicBody found taken rest
  | 0, '"' :: rest => some (found.reverse, rest)
  | 0, '\\' :: rest =>
    match escape? rest with
    | some (c, taken) => basicBody (c :: found) taken rest
    | none => none
  | 0, c :: rest => if isPrintable c then basicBody (c :: found) 0 rest else none

/-- Reads a text in single quotes on one line after the opening quote. -/
def literalBody (found : List Char) : List Char → Option (List Char × List Char)
  | [] => none
  | c :: rest =>
    if c = '\x27' then some (found.reverse, rest)
    else if isPrintable c then literalBody (c :: found) rest
    else none

/-- The number of quotes at the front of a text. -/
def quotesAt (quote : Char) (cs : List Char) : Nat := (cs.takeWhile (· = quote)).length

/-- The number of characters that a backslash at the end of a line takes with it: the rest of the line,
which must be blank, and all blanks and line breaks that follow. -/
def lineJoin? (cs : List Char) : Option Nat :=
  let isGap (c : Char) : Bool := c = ' ' || c = '\t'
  let gap := (cs.takeWhile isGap).length
  match afterBreak? (cs.drop gap) with
  | none => none
  | some _ =>
    let rec blanks : List Char → Nat
      | '\r' :: '\n' :: rest => 2 + blanks rest
      | c :: rest => if c = ' ' || c = '\t' || c = '\n' then 1 + blanks rest else 0
      | [] => 0
    some (gap + blanks (cs.drop gap))

/-- Reads on in a text over several lines between three `quote`s on each side. Up to two quotes may stand
before the closing ones. Only a text in double quotes knows escapes. -/
def linesBody (quote : Char) (found : List Char) :
    (taken : Nat) → List Char → Option (List Char × List Char)
  | _, [] => none
  | taken + 1, _ :: rest => linesBody quote found taken rest
  | 0, c :: rest =>
    if c = quote then
      let count := quotesAt quote (c :: rest)
      if 3 ≤ count then
        let kept := min count 5 - 3
        some ((List.replicate kept quote ++ found).reverse, (c :: rest).drop (kept + 3))
      else linesBody quote (c :: found) 0 rest
    else if c = '\\' && quote = '"' then
      match escape? rest, lineJoin? rest with
      | some (e, taken), _ => linesBody quote (e :: found) taken rest
      | none, some taken => linesBody quote found taken rest
      | none, none => none
    else if c = '\n' then linesBody quote ('\n' :: found) 0 rest
    else if c = '\r' then
      match rest with
      | '\n' :: _ => linesBody quote ('\n' :: found) 1 rest
      | _ => none
    else if isPrintable c then linesBody quote (c :: found) 0 rest
    else none

/-- Reads a text over several lines after its opening quotes. -/
def readLines (quote : Char) (input : List Char) : Option (List Char × List Char) :=
  linesBody quote [] 0 ((afterBreak? input).getD input)

/-- Reads a text on one line, from its opening quote. -/
def readLine : List Char → Option (List Char × List Char)
  | '"' :: rest => basicBody [] 0 rest
  | '\x27' :: rest => literalBody [] rest
  | _ => none

/-- Reads a text, from its opening quote. -/
def readQuoted (input : List Char) : Option (String × List Char) :=
  let result := match input with
    | '"' :: '"' :: '"' :: rest => readLines '"' rest
    | '\x27' :: '\x27' :: '\x27' :: rest => readLines '\x27' rest
    | input => readLine input
  result.map fun (cs, rest) => (String.ofList cs, rest)

end Unnest.Toml
