import DominoTiling.CommandLine.Run

/-!
# The program

Hands the command line, the environment and a seed taken by chance to `CommandLine.run`, and prints
what comes of it.
-/

namespace DominoTiling

/-- The refusal that an error of the system stands for. -/
def refusal? : IO.Error → Option EnvFile.Refusal
  | .permissionDenied _ code _ => if code = 13 then some .denied else none
  | .inappropriateType _ code _ => if code = 21 then some .directory else none
  | _ => none

/-- What stands at a path. Nothing does where the path leads nowhere. Errors of the system other than a
refusal end the program. -/
def readFile (path : String) : IO EnvFile.File := do
  let found ← try
      discard (IO.FS.realPath path)
      pure true
    catch _ => pure false
  if !found then return .missing
  try
    return .content (← IO.FS.readBinFile path)
  catch e =>
    match refusal? e with
    | some refusal => return .refused refusal
    | none => throw e

/-- An environment from its entries, each a name, a `=` and the bytes of the value. -/
def Environment.ofEntries (entries : List (List UInt8)) : Environment := fun name =>
  let front := (name ++ "=").toUTF8.data.toList
  (entries.find? front.isPrefixOf).map fun entry => (entry.drop front.length).toByteArray

/-- The environment of this run of the program. The system shows its entries with a NUL after each. -/
def processEnvironment : IO Environment := do
  let bytes ← IO.FS.readBinFile "/proc/self/environ"
  return .ofEntries (bytes.data.toList.splitOn 0)

/-- The surroundings of this run of the program. Of the files only the one that the command line names
matters. -/
def surroundings (words : List String) : IO CommandLine.Surroundings := do
  let environment ← processEnvironment
  let seed := (← IO.getRandomBytes 8).foldl (fun n b => n * 256 + b.toNat.toUInt64) 0
  let path := match CommandLine.readArguments words with
    | .ok args => some (EnvFile.path args.env)
    | .error _ => none
  let file ← match path with
    | some path => readFile path
    | none => pure .missing
  return {
    environment
    file := fun name => if some name == path then file else .missing
    workers := 1
    source := ⟨[], seed⟩ }

end DominoTiling

open DominoTiling in
def main (words : List String) : IO UInt32 := do
  let outcome := CommandLine.run (← surroundings words) words
  for event in outcome.events do
    if event.level = .info then
      IO.eprintln event.report
  IO.print outcome.printed
  match outcome.ending with
  | .failed _ => IO.eprintln (outcome.ending.errorLine.getD "")
  | .usage => IO.eprint CommandLine.helpText
  | .fault _ => IO.eprintln "The numbers of this request are out of bounds."
  | .success => pure ()
  return outcome.ending.code.toUInt32
