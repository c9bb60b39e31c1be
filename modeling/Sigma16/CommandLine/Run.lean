/-
A run of the assembler from the command line. It reads one source, reports every diagnostic with the
line it belongs to, and writes the outputs even if there are errors; the exit status tells whether
there were any.
-/
import Sigma16.CommandLine.Host
import Sigma16.CommandLine.Options
import Sigma16.CommandLine.Path
import Sigma16.Metadata
import Sigma16.Report

namespace Sigma16

/-- What a run leaves besides the files. -/
structure RunResult where
  status : Nat
  output : Text := []
  log : Text := []
  deriving DecidableEq, Repr

namespace CommandLine

variable {m : Type → Type} [Monad m]

/-- An entry of the log after its heading. -/
def logEntry (heading text : Text) : Text := heading ++ text ++ "\n"

/-- A source with the names that derive from where it was found. -/
structure Source where
  /-- The base name of the outputs. -/
  base : Text
  /-- What starts every entry of the log. -/
  title : Text
  content : Text
  deriving DecidableEq, Repr

/-- A run that ends before the source is read. -/
def refuse (status : Nat) (message : Text) (heading : Text := []) : RunResult :=
  { status, log := logEntry heading message }

/-- The source that is given on the standard input. A character device is not read. -/
def readStandardInput (host : Host m) (color : Bool) : m (Except RunResult Source) := do
  let title : Text := "<stdin>:"
  match ← host.inputIsDevice with
  | .error e => return .error (refuse 2 e.message)
  | .ok true => return .error (refuse 2 UsageError.noInput.message)
  | .ok false =>
    match ← host.readInput with
    | .error e => return .error (refuse 1 e.message (Report.heading title color))
    | .ok content => return .ok ⟨"out", title, content⟩

/-- The source in a file. Messages have a heading once the file is open. -/
def readSourceFile (host : Host m) (color : Bool) (path : Text) : m (Except RunResult Source) := do
  let title := Path.baseName path ++ ":"
  match ← host.readFile path with
  | .error e =>
    return .error (refuse 1 e.message (if e.call = .reading then Report.heading title color else []))
  | .ok .directory =>
    return .error (refuse 1 (Path.baseName path ++ " is not a valid Sigma16 source file"))
  | .ok (.file content) => return .ok ⟨Path.stem path, title, content⟩

/-- The source that the arguments name. -/
def readSource (host : Host m) (color : Bool) : List Text → m (Except RunResult Source)
  | [] => readStandardInput host color
  | path :: _ => readSourceFile host color path

/-- Is colour wanted? -/
def wantsColor (host : Host m) (mode : Text) : m (Except RunResult Bool) := do
  if mode == "always" then return .ok true
  else if mode == "never" then return .ok false
  else if mode == "auto" then return .ok (← host.showsColor)
  else return .error (refuse 2 (UsageError.invalidColor mode).message)

/-- The entries of the log for a module: each diagnostic, and their number if there are any. -/
def reports (a : Assembly) (color : Bool) : List Text :=
  (a.statements.flatMap fun s => s.errors.map fun e => Report.diagnostic e s.source color)
    ++ if a.errorCount = 0 then [] else [Text.natural a.errorCount ++ " errors detected"]

/-- The files to write, in order. -/
def outputs (o : Options) (base : Text) (a : Assembly) : List (Text × Text) :=
  (base ++ ".obj.txt", a.objectText)
    :: (if o.metadata then [(base ++ ".md.txt", a.metadataText)] else [])
    ++ if o.listing then [(base ++ ".lst.txt", a.listingText)] else []

/-- Writes files up to the first that cannot be written, and tells why that one cannot. -/
def writeAll (host : Host m) : List (Text × Text) → m (Option PathError)
  | [] => return none
  | (path, content) :: rest => do
    match ← host.writeFile path content with
    | .ok () => writeAll host rest
    | .error e => return some e

/-- Assembles a source, writes the outputs and reports. -/
def process (host : Host m) (o : Options) (color : Bool) (source : Source) : m RunResult := do
  let base := if o.out.isEmpty then source.base else o.out
  let a := assemble (Path.baseName base) source.content
  let dump := if o.dump then a.statements.flatMap fun s => logEntry [] (host.pretty color s) else []
  let entry := logEntry (Report.heading source.title color)
  let log := dump ++ (reports a color).flatMap entry
  match ← writeAll host (outputs o base a) with
  | some e => return { status := 1, log := log ++ entry "Error writing output file" ++ entry e.message }
  | none =>
    return {
      status := if a.errorCount = 0 then 0 else 1
      output := if o.symbols then a.symbolListing else []
      log }

/-- Runs the assembler with the given options. -/
def run (host : Host m) (o : Options) : m RunResult := do
  match ← wantsColor host o.color with
  | .error r => return r
  | .ok color =>
    match ← readSource host color o.arguments with
    | .error r => return r
    | .ok source => process host o color source

/-- Runs the assembler with the options that arguments give. -/
def start (host : Host m) (arguments : List Text) : m RunResult := do
  match Options.parse arguments with
  | .error e => return refuse 2 e.message
  | .ok o => run host o

end CommandLine

end Sigma16
