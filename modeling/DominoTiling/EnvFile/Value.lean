import DominoTiling.EnvFile.Cause
import DominoTiling.Text.Alphanumeric
import DominoTiling.Text.Basic

/-!
# Values in an environment file

A value ends at the first space or tab outside quotes; only a comment may follow. Quotes around any
part of it are dropped, a backslash gives the character behind it, and `\n` a line end. Nothing but
the closing quote means anything between single quotes.

Everywhere else a `$` with the letters and digits behind it, or with the text in braces behind it,
refers to another value. The first character behind a name without braces is taken as it is, even a
quote or a blank, unless it is the `$` of the next reference. What a value says is therefore a list
of pieces (`readValue`), and its text depends on what the references find.
-/

namespace DominoTiling.EnvFile

/-- A piece of a value: a character, or a reference to the value of a name. -/
inductive Piece where
  | char (c : Char)
  | reference (name : List Char)
  deriving DecidableEq

/-- Where the next character of a value stands. Between double quotes it is `quoted`. -/
inductive Standing where
  | plain (quoted : Bool)
  | escaped (quoted : Bool)
  | single
  /-- Behind a `$` and so much of a name. -/
  | name (quoted : Bool) (front : List Char)
  /-- Behind a `$`, a brace and so much of a name. -/
  | braced (quoted : Bool) (front : List Char)
  /-- Behind the value. -/
  | ended
  deriving DecidableEq

inductive Reading where
  | next (pieces : List Piece) (s : Standing)
  /-- A comment begins. -/
  | done
  /-- The character cannot stand here. -/
  | refused

namespace Standing

/-- A character outside single quotes that no backslash precedes. -/
def stepPlain (quoted : Bool) (c : Char) : Reading :=
  if c = '$' then .next [] (.name quoted [])
  else if c = '"' then .next [] (.plain !quoted)
  else if c = '\\' then .next [] (.escaped quoted)
  else if quoted then .next [.char c] (.plain true)
  else if c = '\'' then .next [] .single
  else if c = ' ' ∨ c = '\t' then .next [] .ended
  else .next [.char c] (.plain false)

def stepEscaped (quoted : Bool) (c : Char) : Reading :=
  if c ∈ ['\\', '\'', '"', '$', ' '] then .next [.char c] (.plain quoted)
  else if c = 'n' then .next [.char '\n'] (.plain quoted)
  else .refused

/-- A character behind a `$` and a part of a name. -/
def stepName (quoted : Bool) (front : List Char) (c : Char) : Reading :=
  if Text.isAlphanumeric c then .next [] (.name quoted (front ++ [c]))
  else if c = '\x7b' ∧ front = [] then .next [] (.braced quoted [])
  else if c = '$' then .next [.reference front] (.name quoted [])
  else .next [.reference front, .char c] (.plain quoted)

def step : Standing → Char → Reading
  | .plain quoted, c => stepPlain quoted c
  | .escaped quoted, c => stepEscaped quoted c
  | .single, c => if c = '\'' then .next [] (.plain false) else .next [.char c] .single
  | .name quoted front, c => stepName quoted front c
  | .braced quoted front, c =>
    if c = '\x7d' then .next [.reference front] (.plain quoted)
    else .next [] (.braced quoted (front ++ [c]))
  | .ended, c =>
    if c = ' ' ∨ c = '\t' then .next [] .ended else if c = '#' then .done else .refused

/-- The last pieces of a value that ends here; none where a quote or a brace is open. -/
def finish : Standing → Option (List Piece)
  | .plain false => some []
  | .escaped false => some []
  | .name false front => some [.reference front]
  | .ended => some []
  | _ => none

/-- The pieces of the rest of a value. The index is that of the next character; a failure is the
index of a character that cannot stand there, or `last` where the value stops short. -/
def read (last : Nat) : Nat → Standing → List Char → Except Nat (List Piece)
  | _, s, [] =>
    match s.finish with
    | some pieces => .ok pieces
    | none => .error last
  | i, s, c :: cs =>
    match s.step c with
    | .next pieces s => (read last (i + 1) s cs).map (pieces ++ ·)
    | .done => .ok []
    | .refused => .error i

end Standing

/-- The value written by a text that is not empty. Places in it count characters, but one that stops
short does so at its last byte. -/
def readValue (text : List Char) : Except LineFault (List Piece) :=
  (Standing.read (Text.byteLength text - 1) 0 (.plain false) text).mapError fun i =>
    ⟨String.ofList text, i⟩

end DominoTiling.EnvFile
