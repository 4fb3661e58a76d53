import DominoTiling.EnvFile.Value
import DominoTiling.Text.Basic

/-!
# What a line of an environment file says

A line gives a value to a name, `NAME=value`, with blank space around both parts and an optional
`export` in front. A blank line and a comment say nothing. The place of a name or a `=` that is
missing counts the bytes of the line in front of it.
-/

namespace DominoTiling.EnvFile

structure Assignment where
  name : String
  value : List Piece
  deriving DecidableEq

/-- A name starts with a letter or `_`. -/
def isNameStart (c : Char) : Bool := c.isAlpha || c == '_'

/-- A name goes on with letters, digits, `_` and dots. -/
def isNameChar (c : Char) : Bool := c.isAlphanum || c == '_' || c == '.'

/-- A name at the start of a text, and the text after it and the blank space behind it. -/
def readName (text : List Char) : Option (String × List Char) :=
  match text with
  | [] => none
  | c :: _ =>
    if isNameStart c then
      some (String.ofList (text.takeWhile isNameChar), Text.trimStart (text.dropWhile isNameChar))
    else none

/-- The name that a line gives a value to, and the text behind its `=`. Failing that, the text at
which the name or the `=` is missing. -/
def readTarget (text : List Char) : Except (List Char) (String × List Char) :=
  match readName text with
  | none => .error text
  | some (name, '=' :: rest) => .ok (name, rest)
  | some (name, rest) =>
    if name = "export" then
      match readName rest with
      | none => .error rest
      | some (name, '=' :: rest) => .ok (name, rest)
      | some (_, rest) => .error rest
    else .error rest

/-- What one line says: nothing, if it is blank or a comment. -/
def readLine (line : List Char) : Except LineFault (Option Assignment) :=
  let text := Text.trimEnd line
  match Text.trimStart text with
  | [] => .ok none
  | '#' :: _ => .ok none
  | start =>
    match readTarget start with
    | .error rest =>
      .error ⟨String.ofList line, Text.byteLength text - Text.byteLength rest⟩
    | .ok (name, rest) =>
      match Text.trimStart rest with
      | [] => .ok (some ⟨name, []⟩)
      | '#' :: _ => .ok (some ⟨name, []⟩)
      | value => (readValue value).map fun v => some ⟨name, v⟩

end DominoTiling.EnvFile
