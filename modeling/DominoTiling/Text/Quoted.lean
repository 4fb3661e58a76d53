import DominoTiling.Text.Unprintable
import DominoTiling.Text.Combining

/-!
# Quoted text

A text between double quotes in which every character can be seen: a quote and a backslash get a
backslash, tab, line ends and NUL their letter, and whatever would not show, or would merge with the
character before it, is written by its code point in lower-case hexadecimal.
-/

namespace DominoTiling.Text

/-- A character by its code point, in hexadecimal between braces. -/
def codePointEscape (c : Char) : List Char :=
  ['\\', 'u', '\x7b'] ++ Nat.toDigits 16 c.toNat ++ ['\x7d']

/-- One character of a quoted text. -/
def quotedChar (c : Char) : List Char :=
  if c = '"' then ['\\', '"']
  else if c = '\\' then ['\\', '\\']
  else if c = '\t' then ['\\', 't']
  else if c = '\r' then ['\\', 'r']
  else if c = '\n' then ['\\', 'n']
  else if c.toNat = 0 then ['\\', '0']
  else if isUnprintable c || isCombining c then codePointEscape c
  else [c]

/-- The quoted form of a text. -/
def quoted (s : String) : String :=
  String.ofList ('"' :: s.toList.flatMap quotedChar ++ ['"'])

end DominoTiling.Text
