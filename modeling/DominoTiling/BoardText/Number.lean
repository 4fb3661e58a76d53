import DominoTiling.BoardText.Cause
import DominoTiling.Text.Digits

/-!
# Numbers in a board text

A number is an optional minus, digits with no needless zero in front, and an optional fraction and
power of ten. It is whole if it has neither and fits 64 bits; any other number is a binary fraction.
Its digits are gathered into one significand for as long as that fits 64 bits. Later digits are
dropped, those before the point counting as a power of ten.
-/

namespace DominoTiling.BoardText
open Text (isDigit digitValue)

def startsWithDigit : List Char → Bool
  | [] => false
  | c :: _ => isDigit c

/-- Gathers digits for as long as the number stays below `limit`: the number, how many digits were
read, and the text after them. -/
def gatherDigits (limit : Nat) : Nat → Nat → List Char → Nat × Nat × List Char
  | n, count, [] => (n, count, [])
  | n, count, c :: rest =>
    if isDigit c && n * 10 + digitValue c < limit then
      gatherDigits limit (n * 10 + digitValue c) (count + 1) rest
    else
      (n, count, c :: rest)

/-- A significand is a 64-bit word. -/
def significandLimit : Nat := 2 ^ 64

/-- The power of ten of an exponent is below this number. -/
def exponentLimit : Nat := 2 ^ 31

/-- The fraction with this significand and power of ten. -/
def finishFloat (minus : Bool) (significand : Nat) (exponent : Int) (rest : List Char) :
    Except Stop (Found × List Char) :=
  match Decimal.Binary.ofDecimal significand exponent with
  | some b => .ok (.float minus b, rest)
  | none => .error (.here .numberOutOfRange rest)

/-- A power of ten too large to be counted: a number below one is zero then, and so is zero. -/
def finishHugeExponent (minus down : Bool) (significand : Nat) (rest : List Char) :
    Except Stop (Found × List Char) :=
  if significand ≠ 0 ∧ !down then .error (.here .numberOutOfRange rest)
  else .ok (.float minus .zero, rest.dropWhile isDigit)

/-- The power of ten after its sign. -/
def readExponentDigits (minus down : Bool) (significand : Nat) (exponent : Int) :
    List Char → Except Stop (Found × List Char)
  | [] => .error (.here .endInValue [])
  | c :: rest =>
    if isDigit c then
      let (e, _, rest) := gatherDigits exponentLimit (digitValue c) 0 rest
      match rest with
      | d :: rest' =>
        if isDigit d then finishHugeExponent minus down significand rest'
        else finishFloat minus significand (if down then exponent - e else exponent + e) rest
      | [] => finishFloat minus significand (if down then exponent - e else exponent + e) rest
    else
      .error (.next .invalidNumber (c :: rest))

/-- The power of ten after its letter. -/
def readExponent (minus : Bool) (significand : Nat) (exponent : Int) :
    List Char → Except Stop (Found × List Char)
  | '+' :: rest => readExponentDigits minus false significand exponent rest
  | '-' :: rest => readExponentDigits minus true significand exponent rest
  | rest => readExponentDigits minus false significand exponent rest

/-- What may follow the last digit of a fraction. -/
def readAfterFraction (minus : Bool) (significand : Nat) (exponent : Int) :
    List Char → Except Stop (Found × List Char)
  | 'e' :: rest => readExponent minus significand exponent rest
  | 'E' :: rest => readExponent minus significand exponent rest
  | rest => finishFloat minus significand exponent rest

def readFraction (minus : Bool) (significand : Nat) (exponent : Int) (text : List Char) :
    Except Stop (Found × List Char) :=
  let (n, count, rest) := gatherDigits significandLimit significand 0 text
  if startsWithDigit rest then
    readAfterFraction minus n (exponent - count) (rest.dropWhile isDigit)
  else if count = 0 then
    .error (.next (if rest.isEmpty then .endInValue else .invalidNumber) rest)
  else
    readAfterFraction minus n (exponent - count) rest

/-- What may follow the digits in front of the point where they all fit the significand. -/
def readAfterWhole (minus : Bool) (n : Nat) : List Char → Except Stop (Found × List Char)
  | '.' :: rest => readFraction minus n 0 rest
  | 'e' :: rest => readExponent minus n 0 rest
  | 'E' :: rest => readExponent minus n 0 rest
  | rest =>
    if !minus then .ok (.natural n, rest)
    else if 0 < n ∧ n ≤ 2 ^ 63 then .ok (.negative n, rest)
    else finishFloat minus n 0 rest

/-- Digits in front of the point that the significand has no room for, and what may follow them. -/
def readLongWhole (minus : Bool) (n : Nat) (text : List Char) : Except Stop (Found × List Char) :=
  let dropped := (text.takeWhile isDigit).length
  match text.dropWhile isDigit with
  | '.' :: rest => readFraction minus n dropped rest
  | rest => readAfterFraction minus n dropped rest

/-- A number after its minus, if it has one. -/
def readMagnitude (minus : Bool) : List Char → Except Stop (Found × List Char)
  | [] => .error (.here .endInValue [])
  | '0' :: rest =>
    if startsWithDigit rest then .error (.next .invalidNumber rest)
    else readAfterWhole minus 0 rest
  | c :: rest =>
    if isDigit c then
      let (n, _, rest) := gatherDigits significandLimit (digitValue c) 0 rest
      if startsWithDigit rest then readLongWhole minus n rest else readAfterWhole minus n rest
    else
      .error (.next .invalidNumber (c :: rest))

def readNumber : List Char → Except Stop (Found × List Char)
  | '-' :: rest => readMagnitude true rest
  | rest => readMagnitude false rest

end DominoTiling.BoardText
