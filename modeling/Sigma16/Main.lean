/-
The command line of the assembler.
-/
import Sigma16.CommandLine.Run

namespace Sigma16

namespace Text

/-- The string of a text in UTF-8, as the paths of a command line are. -/
def toName (t : Text) : String := (String.fromUTF8? (ByteArray.mk t.toArray)).getD ""

end Text

namespace CommandLine

/-- The cause that the system gives; 21 is its code for a directory in place of a file, and 22 for a
path that holds a zero byte. -/
def fileError : IO.Error → FileError
  | .noFileOrDirectory .. => .noEntry
  | .inappropriateType _ code _ => if code == 21 then .isDirectory else .notDirectory
  | .invalidArgument _ code _ => if code == 22 then .invalidPath else .nameTooLong
  | e => .other (Text.ofString (toString e))

/-- The result of a call on a path. -/
def attempt {α : Type} (call : FileCall) (path : Text) (action : IO α) : IO (Except PathError α) := do
  try
    return .ok (← action)
  catch e => return .error ⟨call, path, fileError e⟩

/-- The rest of a stream. -/
partial def readRest (input : IO.FS.Stream) (bytes : ByteArray) : IO ByteArray := do
  let more ← input.read 65536
  if more.isEmpty then return bytes else readRest input (bytes ++ more)

/-- Where the system keeps its devices, what is neither a file nor a directory is one; a pipe has no
path. -/
def inputIsDevice : IO Bool := do
  try
    let path ← IO.FS.realPath "/dev/stdin"
    let kind := (← path.metadata).type
    return path.toString.startsWith "/dev/" && !(kind == .file || kind == .dir)
  catch _ => return false

/-- The files of the system. Statements are shown as Lean shows them. -/
def systemHost : Host IO where
  readFile path := do
    match ← attempt .opening path (IO.FS.Handle.mk path.toName .read) with
    | .error e => return .error e
    | .ok handle =>
      match ← attempt .reading path handle.readBinToEnd with
      | .ok content => return .ok (.file content.toList)
      | .error e => if e.cause = .isDirectory then return .ok .directory else return .error e
  writeFile path content := do
    match ← attempt .opening path (IO.FS.Handle.mk path.toName .write) with
    | .error e => return .error e
    | .ok handle => attempt .writing path (handle.write (ByteArray.mk content.toArray))
  inputIsDevice := return .ok (← inputIsDevice)
  readInput := attempt .reading "/dev/stdin" do
    return (← readRest (← IO.getStdin) ByteArray.empty).toList
  showsColor := do (← IO.getStderr).isTty
  pretty _ s := Text.ofString (reprStr s)

end CommandLine

end Sigma16

def main (arguments : List String) : IO UInt32 := do
  let r ← Sigma16.CommandLine.start Sigma16.CommandLine.systemHost (arguments.map Sigma16.Text.ofString)
  let err ← IO.getStderr
  err.write (ByteArray.mk r.log.toArray)
  let out ← IO.getStdout
  out.write (ByteArray.mk r.output.toArray)
  return r.status.toUInt32
