import DominoTiling.Text.Quoted

/-!
# Why an environment file cannot be read

The system does not open the file or does not read from it, or a line of the file is no text, or none
that can be understood.
-/

namespace DominoTiling.EnvFile

/-- A line, or the value part of one, that cannot be read, and the place in it. -/
structure LineFault where
  text : String
  index : Nat
  deriving DecidableEq

/-- Why the system refuses to open a file or to read from it. -/
inductive Refusal where
  | denied
  | directory
  deriving DecidableEq

namespace Refusal

/-- The error number of the system. -/
def code : Refusal → Nat
  | .denied => 13
  | .directory => 21

def kind : Refusal → String
  | .denied => "PermissionDenied"
  | .directory => "IsADirectory"

def message : Refusal → String
  | .denied => "Permission denied"
  | .directory => "Is a directory"

end Refusal

/-- What is wrong with a file. -/
inductive Cause where
  | line (fault : LineFault)
  /-- A line whose bytes are not in UTF-8. -/
  | undecodable
  | refused (refusal : Refusal)
  deriving DecidableEq

def undecodableText : String := "stream did not contain valid UTF-8"

def Cause.message : Cause → String
  | .line fault =>
    "Error parsing line: '" ++ fault.text ++ "', error at line index: " ++ toString fault.index
  | .undecodable => undecodableText
  | .refused refusal => refusal.message ++ " (os error " ++ toString refusal.code ++ ")"

/-- The cause with its parts shown one by one. -/
def Cause.debugText : Cause → String
  | .line fault => "LineParse(" ++ Text.quoted fault.text ++ ", " ++ toString fault.index ++ ")"
  | .undecodable =>
    "Io(Error \x7b kind: InvalidData, message: " ++ Text.quoted undecodableText ++ " \x7d)"
  | .refused refusal =>
    "Io(Os \x7b code: " ++ toString refusal.code ++ ", kind: " ++ refusal.kind ++ ", message: " ++
      Text.quoted refusal.message ++ " \x7d)"

end DominoTiling.EnvFile
