import DominoTiling.Fault
import DominoTiling.EnvFile.Line
import DominoTiling.EnvFile.Assignment

/-!
# Environment files

Named environments keep their settings in files of assignments. A file is read from the top up to
its first faulty line; what was read before that line counts. An assignment never replaces a value:
the environment that was there before wins, then the first assignment of the name. References in a
value find what the environment holds when the assignment is made (`Assignment.text`).

Variables and files hold bytes. What counts is the text of a variable, so one that is set to bytes which
are not in UTF-8 is treated as one that is not set, and an assignment does replace them.
-/

namespace DominoTiling

/-- What the variables are set to. -/
abbrev Environment := String → Option ByteArray

namespace Environment

/-- The text of a variable. -/
def text (env : Environment) (name : String) : Option String := (env name).bind String.fromUTF8?

theorem text_of_toUTF8 {env : Environment} {name s : String} (h : env name = some s.toUTF8) :
    env.text name = some s := by
  rw [text, h]
  exact dif_pos s.isValidUTF8

theorem text_congr {env env' : Environment} {name : String} (h : env name = env' name) :
    env.text name = env'.text name := by
  rw [text, h, text]

/-- The text found under a name. An entry of an environment reads `NAME=value`, and a name with `=`
in it is matched on into the value: `A=B` finds `C` where `A` has the value `B=C`. -/
def find (env : Environment) (name : List Char) : Option (List Char) :=
  -- the front that is cut off is in UTF-8, so the rest is where the whole value is
  let value := (env.text (String.ofList (name.takeWhile (· != '=')))).map String.toList
  match name.dropWhile (· != '=') with
  | [] => value
  | _ :: more =>
    let front := more ++ ['=']
    value.bind fun v => if front.isPrefixOf v then some (v.drop front.length) else none

end Environment

namespace EnvFile

/-- What stands at the path of a file. -/
inductive File where
  | missing
  | refused (refusal : Refusal)
  | content (bytes : ByteArray)

/-- What was read from a file: its assignments in order, and what stopped the reading. -/
structure Contents where
  assignments : List Assignment
  cause : Option Cause

/-- The assignments of these lines up to the first one that cannot be read. -/
def readLines : List (Except Cause (List Char)) → Contents
  | [] => ⟨[], none⟩
  | .error cause :: _ => ⟨[], some cause⟩
  | .ok line :: lines =>
    match readLine line with
    | .error fault => ⟨[], some (.line fault)⟩
    | .ok none => readLines lines
    | .ok (some a) =>
      let rest := readLines lines
      ⟨a :: rest.assignments, rest.cause⟩

/-- The bytes behind a byte order mark. -/
def dropMark (bytes : List UInt8) : List UInt8 :=
  if [0xef, 0xbb, 0xbf].isPrefixOf bytes then bytes.drop 3 else bytes

/-- The lines of a file as they are read. A byte order mark in front of the first one is skipped. -/
def lines (bytes : ByteArray) : List (Except Cause (List Char)) :=
  logicalLines [] .plain ((physicalLines (dropMark bytes.data.toList)).map decodeLine)

def read (bytes : ByteArray) : Contents := readLines (lines bytes)

/-- The path of the file of an environment, a member of the directory `.env` unless the name is an
absolute path. -/
def path (env : String) : String :=
  if env.toList.head? = some '/' then env ++ ".env" else ".env/" ++ env ++ ".env"

/-- The text of a piece in an environment. A reference that finds nothing is empty. -/
def Piece.text (env : Environment) : Piece → List Char
  | .char c => [c]
  | .reference name => (env.find name).getD []

/-- The text of the value of an assignment made in an environment. -/
def Assignment.text (env : Environment) (a : Assignment) : List Char :=
  a.value.flatMap (Piece.text env)

/-- The environment after an assignment. A variable that has a text keeps it, and a new value cannot
hold a NUL character. -/
def assign (env : Environment) (a : Assignment) : Except Fault Environment :=
  if (env.text a.name).isSome then .ok env
  else if '\x00' ∈ a.text env then .error .nulInValue
  else .ok fun name => if name = a.name then some (String.ofList (a.text env)).toUTF8 else env name

/-- The environment after these assignments, one after the other up to the first that cannot be
made. -/
def extend (env : Environment) : List Assignment → Environment × Option Fault
  | [] => (env, none)
  | a :: rest =>
    match assign env a with
    | .ok env => extend env rest
    | .error fault => (env, some fault)

end EnvFile
end DominoTiling
