import DominoTiling.BoardText.Number

/-!
# Reading board texts

An array of arrays of whole numbers, with blank space around any token. A reader takes the text that
is left and gives a value with the text after it, or the place where it stopped. The first wrong
character decides: what stands in the wrong place is read to its end only to be named.

The readers of sequences and strings take a bound on the number of steps. Every step reads a
character, so the length of the text is enough.
-/

namespace DominoTiling.BoardText
open Text (isDigit digitValue)

def isSpace (c : Char) : Bool := c == ' ' || c == '\n' || c == '\t' || c == '\r'

def skipSpace (text : List Char) : List Char := text.dropWhile isSpace

def hexValue? (c : Char) : Option Nat :=
  if isDigit c then some (digitValue c)
  else if 'a' ≤ c && c ≤ 'f' then some (c.toNat - 'a'.toNat + 10)
  else if 'A' ≤ c && c ≤ 'F' then some (c.toNat - 'A'.toNat + 10)
  else none

def readHex : List Char → Except Stop (Nat × List Char)
  | text@(a :: b :: c :: d :: rest) =>
    match hexValue? a, hexValue? b, hexValue? c, hexValue? d with
    | some a, some b, some c, some d => .ok (((a * 16 + b) * 16 + c) * 16 + d, rest)
    | _, _, _, _ => .error ⟨.invalidEscape, text, 4⟩
  | text =>
    if Text.byteLength text < 4 then .error (.here .endInString [])
    else .error ⟨.invalidEscape, text, 4⟩

/-- One given character of a surrogate pair. -/
def readMark (mark : Char) : List Char → Except Stop (List Char)
  | [] => .error (.here .endInString [])
  | c :: rest => if c = mark then .ok rest else .error (.next .endOfSurrogate (c :: rest))

/-- A character by its code point. One past the first 65536 is two numbers, the leading and the
trailing surrogate. -/
def readCodePoint (text : List Char) : Except Stop (Char × List Char) := do
  let (n, rest) ← readHex text
  if 0xdc00 ≤ n ∧ n ≤ 0xdfff then
    .error (.here .loneSurrogate rest)
  else if 0xd800 ≤ n ∧ n ≤ 0xdbff then
    let rest ← readMark '\\' rest
    let rest ← readMark 'u' rest
    let (m, rest) ← readHex rest
    if 0xdc00 ≤ m ∧ m ≤ 0xdfff then
      return (Char.ofNat ((n - 0xd800) * 0x400 + (m - 0xdc00) + 0x10000), rest)
    else
      .error (.here .loneSurrogate rest)
  else
    return (Char.ofNat n, rest)

/-- What follows a backslash. -/
def readEscape : List Char → Except Stop (Char × List Char)
  | [] => .error (.here .endInString [])
  | '"' :: rest => .ok ('"', rest)
  | '\\' :: rest => .ok ('\\', rest)
  | '/' :: rest => .ok ('/', rest)
  | 'b' :: rest => .ok ('\x08', rest)
  | 'f' :: rest => .ok ('\x0c', rest)
  | 'n' :: rest => .ok ('\n', rest)
  | 'r' :: rest => .ok ('\r', rest)
  | 't' :: rest => .ok ('\t', rest)
  | 'u' :: rest => readCodePoint rest
  | c :: rest => .error (.next .invalidEscape (c :: rest))

/-- A string after its opening quote. -/
def readString : Nat → List Char → Except Stop (List Char × List Char)
  | 0, rest => .error (.here .endInString rest)
  | _ + 1, [] => .error (.here .endInString [])
  | _ + 1, '"' :: rest => .ok ([], rest)
  | steps + 1, '\\' :: rest => do
    let (c, rest) ← readEscape rest
    let (cs, rest) ← readString steps rest
    return (c :: cs, rest)
  | steps + 1, c :: rest =>
    if c.toNat < 0x20 then
      .error (.next .controlCharacter (c :: rest))
    else do
      let (cs, rest) ← readString steps rest
      return (c :: cs, rest)

/-- A word that must go on with these characters. -/
def readWord (found : Found) : List Char → List Char → Except Stop (Found × List Char)
  | [], rest => .ok (found, rest)
  | _ :: _, [] => .error (.here .endInValue [])
  | w :: ws, c :: rest =>
    if c = w then readWord found ws rest else .error (.next .expectedIdent (c :: rest))

/-- Any value. Of an array and of an object only the first character is looked at. -/
def readAny (steps : Nat) : List Char → Except Stop (Found × List Char)
  | [] => .error (.next .endInValue [])
  | 'n' :: rest => readWord .null ['u', 'l', 'l'] rest
  | 't' :: rest => readWord (.boolean true) ['r', 'u', 'e'] rest
  | 'f' :: rest => readWord (.boolean false) ['a', 'l', 's', 'e'] rest
  | '"' :: rest => do
    let (cs, rest) ← readString steps rest
    return (.string (String.ofList cs), rest)
  | '[' :: rest => .ok (.sequence, '[' :: rest)
  | '\x7b' :: rest => .ok (.map, '\x7b' :: rest)
  | c :: rest =>
    if c == '-' || isDigit c then readNumber (c :: rest)
    else .error (.next .expectedValue (c :: rest))

def wrongType (expected : Expected) (steps : Nat) (text : List Char) : Stop :=
  match readAny steps text with
  | .ok (found, rest) => .here (.wrongType found expected) rest
  | .error stop => stop

/-- A pip count: a whole number of at most 32 bits. -/
def readPips (steps : Nat) (text : List Char) : Except Stop (Nat × List Char) :=
  match skipSpace text with
  | [] => .error (.next .endInValue [])
  | c :: rest =>
    if c == '-' || isDigit c then do
      let (found, after) ← readNumber (c :: rest)
      match found with
      | .natural n =>
        if n < 2 ^ 32 then return (n, after) else .error (.here (.wrongValue found) after)
      | .negative _ => .error (.here (.wrongValue found) after)
      | _ => .error (.here (.wrongType found .pips) after)
    else
      .error (wrongType .pips steps (c :: rest))

/-- The rest of a sequence after one of its elements. -/
def readElements {α : Type} (element : List Char → Except Stop (α × List Char)) :
    Nat → List Char → Except Stop (List α × List Char)
  | 0, rest => .error (.here .endInList rest)
  | steps + 1, text =>
    match skipSpace text with
    | [] => .error (.next .endInList [])
    | ']' :: rest => .ok ([], rest)
    | ',' :: rest =>
      match skipSpace rest with
      | [] => .error (.next .endInValue [])
      | ']' :: rest => .error (.next .trailingComma (']' :: rest))
      | rest => do
        let (a, rest) ← element rest
        let (as, rest) ← readElements element steps rest
        return (a :: as, rest)
    | rest => .error (.next .expectedCommaOrBracket rest)

def readSequence {α : Type} (element : List Char → Except Stop (α × List Char)) (steps : Nat)
    (text : List Char) : Except Stop (List α × List Char) :=
  match skipSpace text with
  | [] => .error (.next .endInValue [])
  | '[' :: rest =>
    match skipSpace rest with
    | [] => .error (.next .endInList [])
    | ']' :: rest => .ok ([], rest)
    | rest => do
      let (a, rest) ← element rest
      let (as, rest) ← readElements element steps rest
      return (a :: as, rest)
  | rest => .error (wrongType .sequence steps rest)

/-- The rows of a board text and the text after them. -/
def readRows (text : List Char) : Except Stop (List (List Nat) × List Char) :=
  readSequence (readSequence (readPips text.length) text.length) text.length text

/-- Nothing but blank space may follow the rows. -/
def readEnd (text : List Char) : Except Stop Unit :=
  match skipSpace text with
  | [] => .ok ()
  | rest => .error (.next .trailingCharacters rest)

end DominoTiling.BoardText
