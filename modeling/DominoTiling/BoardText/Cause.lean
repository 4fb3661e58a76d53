import DominoTiling.Decimal.Shortest
import DominoTiling.Text.Quoted
import DominoTiling.Text.Basic

/-!
# Why a board text is refused

A board is written as an array of rows, each an array of whole numbers. `Cause` names everything
that can be wrong with a text before its shape is looked at, `Found` the values that can stand where
an array or a pip count should. `Cause.message` is the wording, without the place.
-/

namespace DominoTiling.BoardText

/-- What a text should hold at some place. -/
inductive Expected where
  | sequence
  | pips
  deriving DecidableEq

/-- What a text holds instead. A number is `negative` only if it is a whole number. -/
inductive Found where
  | null
  | boolean (b : Bool)
  | natural (n : Nat)
  | negative (n : Nat)
  | float (minus : Bool) (magnitude : Decimal.Binary)
  | string (s : String)
  | sequence
  | map
  deriving DecidableEq

inductive Cause where
  | endInValue
  | endInList
  | endInString
  | expectedCommaOrBracket
  | expectedValue
  | expectedIdent
  | trailingComma
  | trailingCharacters
  | invalidNumber
  | numberOutOfRange
  | invalidEscape
  | loneSurrogate
  | endOfSurrogate
  | controlCharacter
  | wrongType (found : Found) (expected : Expected)
  | wrongValue (found : Found)
  deriving DecidableEq

def Expected.text : Expected → String
  | .sequence => "a sequence"
  | .pips => "u32"

def Found.text : Found → String
  | .null => "null"
  | .boolean b => "boolean `" ++ toString b ++ "`"
  | .natural n => "integer `" ++ toString n ++ "`"
  | .negative n => "integer `-" ++ toString n ++ "`"
  | .float minus b => "floating point `" ++ Decimal.floatText minus b ++ "`"
  | .string s => "string " ++ Text.quoted s
  | .sequence => "sequence"
  | .map => "map"

def Cause.message : Cause → String
  | .endInValue => "EOF while parsing a value"
  | .endInList => "EOF while parsing a list"
  | .endInString => "EOF while parsing a string"
  | .expectedCommaOrBracket => "expected `,` or `]`"
  | .expectedValue => "expected value"
  | .expectedIdent => "expected ident"
  | .trailingComma => "trailing comma"
  | .trailingCharacters => "trailing characters"
  | .invalidNumber => "invalid number"
  | .numberOutOfRange => "number out of range"
  | .invalidEscape => "invalid escape"
  | .loneSurrogate => "lone leading surrogate in hex escape"
  | .endOfSurrogate => "unexpected end of hex escape"
  | .controlCharacter => "control character (\\u0000-\\u001F) found while parsing a string"
  | .wrongType found expected => "invalid type: " ++ found.text ++ ", expected " ++ expected.text
  | .wrongValue found => "invalid value: " ++ found.text ++ ", expected " ++ Expected.pips.text

/-- A place in a text: its line from 1, and the bytes before it on that line. -/
structure Position where
  line : Nat
  column : Nat
  deriving DecidableEq

/-- The place `k` bytes further on, or the end of the text if that comes first. -/
def Position.advance : Nat → List Char → Position → Position
  | 0, _, p => p
  | _ + 1, [], p => p
  | k + 1, c :: cs, p =>
    if c = '\n' then advance k cs ⟨p.line + 1, 0⟩
    else if k + 1 < c.utf8Size then ⟨p.line, p.column + (k + 1)⟩
    else advance (k + 1 - c.utf8Size) cs ⟨p.line, p.column + c.utf8Size⟩

/-- Where reading stopped: the text not yet read there, and the bytes of it that the place lies
further on. -/
structure Stop where
  cause : Cause
  rest : List Char
  extra : Nat

/-- Stopped at the place reached. -/
def Stop.here (cause : Cause) (rest : List Char) : Stop := ⟨cause, rest, 0⟩

/-- Stopped one byte behind the place reached. -/
def Stop.next (cause : Cause) (rest : List Char) : Stop := ⟨cause, rest, 1⟩

def Stop.position (s : Stop) (text : List Char) : Position :=
  Position.advance (Text.byteLength text - Text.byteLength s.rest + s.extra) text ⟨1, 0⟩

/-- Why a text is not a board where it has to be one by itself: it is no array of rows of numbers,
or its rows make no board, for which there is no place. -/
inductive Failure where
  | malformed (cause : Cause) (position : Position)
  | misshapen (reason : String)
  deriving DecidableEq

def Failure.message : Failure → String
  | .malformed cause p =>
    cause.message ++ " at line " ++ toString p.line ++ " column " ++ toString p.column
  | .misshapen reason => reason

/-- The failure with its parts shown one by one. -/
def Failure.debugText : Failure → String
  | .malformed cause p =>
    "Error(" ++ Text.quoted cause.message ++ ", line: " ++ toString p.line ++ ", column: " ++
      toString p.column ++ ")"
  | .misshapen reason => "Error(" ++ Text.quoted reason ++ ", line: 0, column: 0)"

end DominoTiling.BoardText
