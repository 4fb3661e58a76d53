import DominoTiling.EnvFile.Cause
import DominoTiling.Text.Basic

/-!
# Where the lines of an environment file end

A line of a file is read as it stands, without its line end and without the comment behind it. A
line at whose end a quote is still open goes on in the next one (`logicalLines`). A comment begins
at a `#` behind blank space, or fills a line of its own. The bytes of a file are cut into lines before
they are read as text, so a line that is not in UTF-8 does not touch the lines in front of it.
-/

namespace DominoTiling.EnvFile

/-- What the characters of a line so far leave open. After `blank`, a comment may begin. -/
inductive Quoting where
  | plain
  | blank
  | escaped
  | single
  | singleEscaped
  | double
  | doubleEscaped
  deriving DecidableEq

namespace Quoting

def outside (c : Char) : Quoting :=
  if c = '\\' then .escaped else if c = '"' then .double else if c = '\'' then .single else .plain

/-- What is open after one more character; none where a comment begins. -/
def step : Quoting → Char → Option Quoting
  | .blank, c => if c = '#' then none else some (outside c)
  | .plain, c =>
    if Text.isBlank c && c != '\n' && c != '\r' then some .blank else some (outside c)
  | .escaped, _ => some .plain
  | .single, c => some (if c = '\\' then .singleEscaped else if c = '\'' then .plain else .single)
  | .singleEscaped, _ => some .single
  | .double, c => some (if c = '\\' then .doubleEscaped else if c = '"' then .plain else .double)
  | .doubleEscaped, _ => some .double

/-- Runs over a text: what is open at its end, or the part in front of its comment. -/
def scan : Quoting → List Char → Except (List Char) Quoting
  | q, [] => .ok q
  | q, c :: cs =>
    match q.step c with
    | none => .error []
    | some q => (scan q cs).mapError (c :: ·)

end Quoting

/-- The lines of a file, each with its line end. -/
def physicalLines : List UInt8 → List (List UInt8)
  | [] => []
  | c :: cs =>
    if c = 10 then [c] :: physicalLines cs
    else match physicalLines cs with
      | [] => [[c]]
      | line :: lines => (c :: line) :: lines

/-- The text of a line in UTF-8. -/
def decodeLine (line : List UInt8) : Option (List Char) :=
  (String.fromUTF8? line.toByteArray).map String.toList

def dropLineEnd (line : List Char) : List Char :=
  match line.reverse with
  | '\n' :: '\r' :: rest => rest.reverse
  | '\n' :: rest => rest.reverse
  | _ => line

/-- The lines as they are read: joined while a quote is open, without comments and line ends. The
text must not end within a quote, nor after blank space that no line end follows, and a line without
a text ends the reading. -/
def logicalLines : (pending : List Char) → Quoting → List (Option (List Char)) →
    List (Except Cause (List Char))
  | pending, q, [] =>
    if q = .plain then []
    else [.error (.line ⟨String.ofList pending, Text.byteLength pending⟩)]
  | _, _, none :: _ => [.error .undecodable]
  | pending, q, some line :: lines =>
    let whole := pending ++ line
    if (Text.trimStart whole).head? = some '#' then
      logicalLines [] .plain lines
    else
      match q.scan line with
      | .error front => .ok (pending ++ front) :: logicalLines [] .plain lines
      | .ok .plain => .ok (dropLineEnd whole) :: logicalLines [] .plain lines
      | .ok q => logicalLines whole q lines

end DominoTiling.EnvFile
