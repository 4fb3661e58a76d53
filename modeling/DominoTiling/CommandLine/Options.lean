import DominoTiling.Settings

/-!
# Options of a command line

Words that start with a dash name options; any other word is an operand, and so is a dash alone. An
option has a long name after two dashes and a letter after one. It takes no value, or one: behind
`=`, behind its letter in the same word, or as the next word. A value that is a word by itself does
not start with a dash. Letters of options without a value can share a word with others behind them.

Words are read from the left up to the first operand, and the first thing that is wrong decides.
A request for help or for the version is met as soon as it is reached.
-/

namespace DominoTiling.CommandLine

/-- What an option takes. A count is a number of at most 64 bits. -/
inductive Kind where
  | flag
  | text
  | count
  | help
  | version
  deriving DecidableEq

structure OptionName where
  long : String
  letter : Char
  kind : Kind
  deriving DecidableEq

/-- Why a command line gives no command. -/
inductive Stop where
  | usage
  | help
  | version
  deriving DecidableEq

/-- The options that were given, by their long names. A flag has an empty value. -/
abbrev Given := List (String × String)

/-- What is left of a command line at its first operand: the operand and the words behind it. -/
structure Scanned where
  given : Given
  operand : Option (String × List String)

def isOptionWord (w : String) : Bool :=
  match w.toList with
  | '-' :: _ :: _ => true
  | _ => false

def Kind.accepts (k : Kind) (value : String) : Bool :=
  match k with
  | .count => (readCount value.toList).isSome
  | _ => true

/-- One more option. No option is given twice. -/
def give (given : Given) (name : OptionName) (value : String) : Except Stop Given :=
  if (given.lookup name.long).isSome ∨ !name.kind.accepts value then .error .usage
  else .ok (given ++ [(name.long, value)])

/-- An option that takes no value. -/
def giveFlag (given : Given) (name : OptionName) : Except Stop Given :=
  match name.kind with
  | .help => .error .help
  | .version => .error .version
  | _ => give given name ""

def OptionName.takesValue (name : OptionName) : Bool :=
  name.kind = .text ∨ name.kind = .count

/-- Options given so far, and the one that still waits for its value. -/
abbrev Waiting := Given × Option OptionName

def readLetters (names : List OptionName) : List Char → Given → Except Stop Waiting
  | [], given => .ok (given, none)
  | c :: cs, given =>
    match names.find? (·.letter == c) with
    | none => .error .usage
    | some name =>
      if name.takesValue then
        match cs with
        | [] => .ok (given, some name)
        | '=' :: value => (give given name (String.ofList value)).map (·, none)
        | value => (give given name (String.ofList value)).map (·, none)
      else do readLetters names cs (← giveFlag given name)

/-- A long name, with its value if `=` stands behind it. -/
def readLong (names : List OptionName) (word : List Char) (given : Given) : Except Stop Waiting :=
  let long := String.ofList (word.takeWhile (· != '='))
  match names.find? (·.long == long), word.dropWhile (· != '=') with
  | none, _ => .error .usage
  | some name, [] =>
    if name.takesValue then .ok (given, some name) else (giveFlag given name).map (·, none)
  | some name, _ :: value =>
    if name.takesValue then (give given name (String.ofList value)).map (·, none)
    else .error .usage

/-- The options up to the first operand. Behind two dashes no option is read, and no operand can
follow them. -/
def scan (names : List OptionName) : List String → Waiting → Except Stop Scanned
  | [], (given, none) => .ok ⟨given, none⟩
  | [], (_, some _) => .error .usage
  | w :: ws, (given, some name) =>
    if isOptionWord w then .error .usage
    else do scan names ws (← give given name w, none)
  | w :: ws, (given, none) =>
    match w.toList with
    | ['-', '-'] => if ws.isEmpty then .ok ⟨given, none⟩ else .error .usage
    | '-' :: '-' :: long => do scan names ws (← readLong names long given)
    | '-' :: c :: cs => do scan names ws (← readLetters names (c :: cs) given)
    | _ => .ok ⟨given, some (w, ws)⟩

end DominoTiling.CommandLine
