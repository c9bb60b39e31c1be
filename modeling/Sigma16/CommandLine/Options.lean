/-
The arguments of the command line. Flags and the source file may stand in any order, a later flag
overrides an earlier one, and two dashes end the flags. The flags are those of the assembler itself;
help, and the flags that a tracing library adds, are not among them.
-/
import Sigma16.Text.Number
import Sigma16.Text.Quoted

namespace Sigma16

structure Options where
  /-- The base name of the outputs; empty if it is derived from the source. -/
  out : Text := []
  listing : Bool := false
  symbols : Bool := false
  metadata : Bool := true
  /-- Show every statement before the diagnostics. -/
  dump : Bool := false
  color : Text := "auto"
  /-- The arguments that are no flags. -/
  arguments : List Text := []
  deriving DecidableEq, Repr

inductive Flag where
  | out | listing | symbols | metadata | dump | color
  deriving DecidableEq, Repr

namespace Flag

def all : List Flag := [.out, .listing, .symbols, .metadata, .dump, .color]

def name : Flag → Text
  | .out => "out"
  | .listing => "listing"
  | .symbols => "symbols"
  | .metadata => "metadata"
  | .dump => "dump"
  | .color => "color"

def letter? : Flag → Option UInt8
  | .out => some 'o'.toUInt8
  | .listing => some 'l'.toUInt8
  | .symbols => some 's'.toUInt8
  | .metadata | .dump | .color => none

/-- A switch is on or off and needs no value. -/
def isSwitch : Flag → Bool
  | .out | .color => false
  | .listing | .symbols | .metadata | .dump => true

/-- The flag of a name; two spellings of colour are known. -/
def ofName? (name : Text) : Option Flag :=
  if name == "colour" then some .color else all.find? (·.name == name)

def ofLetter? (letter : UInt8) : Option Flag := all.find? (·.letter? == some letter)

/-- A flag as messages show it. -/
def display (flag : Flag) : Text :=
  match flag.letter? with
  | some letter => "-" ++ letter :: ", --" ++ flag.name
  | none => "--" ++ flag.name

end Flag

/-- Why the command line cannot be used. -/
inductive UsageError where
  | badFlag (argument : Text)
  | unknownFlag (name : Text)
  /-- An unknown letter, and the letters from there on. -/
  | unknownLetter (letter : UInt8) (letters : Text)
  | missingValue (argument : Text)
  | missingLetterValue (letter : UInt8) (letters : Text)
  | invalidSwitch (flag : Flag) (value : Text)
  | tooManyArguments (count : Nat)
  | invalidColor (mode : Text)
  | noInput
  deriving DecidableEq, Repr

def UsageError.message : UsageError → Text
  | .badFlag argument => "bad flag syntax: " ++ argument
  | .unknownFlag name => "unknown flag: --" ++ name
  | .unknownLetter letter letters =>
    "unknown shorthand flag: " ++ Text.quotedByte letter ++ " in -" ++ letters
  | .missingValue argument => "flag needs an argument: " ++ argument
  | .missingLetterValue letter letters =>
    "flag needs an argument: " ++ Text.quotedByte letter ++ " in -" ++ letters
  | .invalidSwitch flag value =>
    "invalid argument " ++ Text.quoted value ++ " for " ++ Text.quoted flag.display
      ++ " flag: strconv.ParseBool: parsing " ++ Text.quoted value ++ ": invalid syntax"
  | .tooManyArguments count => "accepts at most 1 arg(s), received " ++ Text.natural count
  | .invalidColor mode => "invalid --color value '" ++ mode ++ "'"
  | .noInput => "no source file given and stdin is a terminal"

namespace Options

/-- The setting of a switch. -/
def switch? (value : Text) : Option Bool :=
  if (["1", "t", "T", "TRUE", "true", "True"] : List Text).contains value then some true
  else if (["0", "f", "F", "FALSE", "false", "False"] : List Text).contains value then some false
  else none

/-- The options after a flag with a value. -/
def set (o : Options) (flag : Flag) (value : Text) : Except UsageError Options :=
  match flag with
  | .out => .ok { o with out := value }
  | .color => .ok { o with color := value }
  | .listing => onSwitch fun b => { o with listing := b }
  | .symbols => onSwitch fun b => { o with symbols := b }
  | .metadata => onSwitch fun b => { o with metadata := b }
  | .dump => onSwitch fun b => { o with dump := b }
where
  onSwitch (f : Bool → Options) : Except UsageError Options :=
    match switch? value with
    | some b => .ok (f b)
    | none => .error (.invalidSwitch flag value)

/-- A flag that takes the next argument as its value, and the error if there is none. -/
structure Awaiting where
  flag : Flag
  missing : UsageError

/-- The options after an argument that starts with two dashes. -/
def readLong (o : Options) (argument : Text) : Except UsageError (Options × Option Awaiting) := do
  let body := argument.drop 2
  if body.isEmpty || body.head? == some '-'.toUInt8 || body.head? == some '='.toUInt8 then
    throw (.badFlag argument)
  let (name, value?) :=
    match Text.cut? '='.toUInt8 body with
    | some (name, value) => (name, some value)
    | none => (body, none)
  match Flag.ofName? name, value? with
  | none, _ => throw (.unknownFlag name)
  | some flag, some value => return (← o.set flag value, none)
  | some flag, none =>
    if flag.isSwitch then return (← o.set flag "true", none)
    else return (o, some ⟨flag, .missingValue argument⟩)

/-- The options after the letters that follow one dash. A letter whose flag takes a value ends them; a
value may also follow an equals sign. Letters of a test runner are passed over. -/
def readLetters (o : Options) : Text → Except UsageError (Options × Option Awaiting)
  | [] => .ok (o, none)
  | letter :: rest =>
    if (Text.ofString "test.").isPrefixOf (letter :: rest) then .ok (o, none)
    else
      match Flag.ofLetter? letter with
      | none => .error (.unknownLetter letter (letter :: rest))
      | some flag =>
        if rest.head? == some '='.toUInt8 && 1 < rest.length then do
          return (← o.set flag rest.tail, none)
        else if flag.isSwitch then
          match o.set flag "true" with
          | .ok o => readLetters o rest
          | .error e => .error e
        else if rest.isEmpty then .ok (o, some ⟨flag, .missingLetterValue letter [letter]⟩)
        else do return (← o.set flag rest, none)

/-- The options after one argument that starts with a dash. -/
def readFlags (o : Options) (argument : Text) : Except UsageError (Options × Option Awaiting) :=
  if (Text.ofString "--").isPrefixOf argument then o.readLong argument else o.readLetters (argument.drop 1)

/-- A dash with something behind it starts a flag. -/
def isFlag (argument : Text) : Bool := argument.head? == some '-'.toUInt8 && 1 < argument.length

/-- The options after further arguments. -/
def readAll (o : Options) : List Text → Except UsageError Options
  | [] => .ok o
  | argument :: rest =>
    if !isFlag argument then readAll { o with arguments := o.arguments ++ [argument] } rest
    else if argument == "--" then .ok { o with arguments := o.arguments ++ rest }
    else
      match o.readFlags argument, rest with
      | .error e, _ => .error e
      | .ok (o, none), rest => readAll o rest
      | .ok (_, some awaiting), [] => .error awaiting.missing
      | .ok (o, some awaiting), value :: rest =>
        match o.set awaiting.flag value with
        | .ok o => readAll o rest
        | .error e => .error e

/-- The options of a command line; it names at most one source. -/
def parse (arguments : List Text) : Except UsageError Options := do
  let o ← readAll {} arguments
  if 1 < o.arguments.length then throw (.tooManyArguments o.arguments.length)
  return o

end Options

end Sigma16
