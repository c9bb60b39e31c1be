/-
What a run needs from the system: files, the standard input, and whether messages are shown on a
terminal. Calls of the system can fail, and tell then which call it was and why.
-/
import Sigma16.Statement

namespace Sigma16

/-- Why a call fails. -/
inductive FileError where
  | noEntry
  | notDirectory
  | isDirectory
  /-- A name or a path has too many bytes. -/
  | nameTooLong
  /-- The path holds a zero byte. -/
  | invalidPath
  /-- Another cause, in the words of the system. -/
  | other (message : Text)
  deriving DecidableEq, Repr

def FileError.message : FileError → Text
  | .noEntry => "no such file or directory"
  | .notDirectory => "not a directory"
  | .isDirectory => "is a directory"
  | .nameTooLong => "file name too long"
  | .invalidPath => "invalid argument"
  | .other message => message

inductive FileCall where
  | opening
  /-- Asking what kind of file it is. -/
  | status
  | reading
  | writing
  deriving DecidableEq, Repr

def FileCall.name : FileCall → Text
  | .opening => "open"
  | .status => "stat"
  | .reading => "read"
  | .writing => "write"

/-- A call that failed on a path. -/
structure PathError where
  call : FileCall
  path : Text
  cause : FileError
  deriving DecidableEq, Repr

def PathError.message (e : PathError) : Text := e.call.name ++ " " ++ e.path ++ ": " ++ e.cause.message

inductive Entry where
  | file (content : Text)
  | directory
  deriving DecidableEq, Repr

structure Host (m : Type → Type) where
  /-- Opens what a path leads to, and reads it to its end unless it is a directory. -/
  readFile : Text → m (Except PathError Entry)
  /-- Makes a file or empties it, and writes the content. -/
  writeFile : Text → Text → m (Except PathError Unit)
  /-- Is the standard input a character device? Terminals are, and so are null devices. -/
  inputIsDevice : m (Except PathError Bool)
  /-- Reads the standard input to its end. -/
  readInput : m (Except PathError Text)
  /-- Do messages go to a terminal? -/
  showsColor : m Bool
  /-- A statement as the pretty-printer shows it, with colour or without. -/
  pretty : Bool → Statement → Text

end Sigma16
