/-
A file system in memory: files and directories below one root, without links, and what a path finds
there. Paths that do not start at the root start at a working directory.
-/
import Sigma16.CommandLine.Host

namespace Sigma16

/-- Entries by the names that lead to them from the root. -/
structure FileTree where
  entries : List (List Text × Entry) := []
  workingDirectory : List Text := []
  deriving DecidableEq, Repr

namespace FileTree

def find? (tree : FileTree) (names : List Text) : Option Entry :=
  (tree.entries.find? (·.1 == names)).map (·.2)

/-- Sets the entry at a place. -/
def put (tree : FileTree) (names : List Text) (entry : Entry) : FileTree :=
  { tree with entries := tree.entries.filter (·.1 != names) ++ [(names, entry)] }

/-- Makes a directory and those above it, each unless there is an entry already. -/
def addDirectory (tree : FileTree) (names : List Text) : FileTree :=
  ((List.range names.length).map fun n => names.take (n + 1)).foldl
    (fun tree above => if (tree.find? above).isSome then tree else tree.put above .directory) tree

/-- Makes a file and the directories above it. -/
def addFile (tree : FileTree) (names : List Text) (content : Text) : FileTree :=
  (tree.addDirectory names.dropLast).put names (.file content)

/-- The names of a path. -/
def namesOf (path : Text) : List Text :=
  (path.splitOn '/'.toUInt8).filter fun name => !(name.isEmpty || name == ".")

/-! ## Following a path -/

/-- Where a path leads. -/
inductive Place where
  | file (names : List Text) (content : Text)
  | directory
  /-- Nothing is there yet, but its directory is. -/
  | vacant (names : List Text)
  deriving DecidableEq, Repr

/-- The largest number of bytes in a name. -/
def maxName : Nat := 255

/-- The largest number of bytes in a path. -/
def maxPath : Nat := 4095

/-- Follows the parts of a path from a directory. The directory above the root is the root. -/
def follow (tree : FileTree) : List Text → List Text → Except FileError Place
  | _, [] => .ok .directory
  | here, name :: rest =>
    if name.isEmpty || name == "." then follow tree here rest
    else if name == ".." then follow tree here.dropLast rest
    else if maxName < name.length then .error .nameTooLong
    else
      match tree.find? (here ++ [name]) with
      | some .directory => follow tree (here ++ [name]) rest
      | some (.file content) =>
        if rest.isEmpty then .ok (.file (here ++ [name]) content) else .error .notDirectory
      | none => if rest.isEmpty then .ok (.vacant (here ++ [name])) else .error .noEntry

/-- The place of a path; an empty one leads nowhere. -/
def resolve (tree : FileTree) (path : Text) : Except FileError Place :=
  if path.contains 0 then .error .invalidPath
  else if path.isEmpty then .error .noEntry
  else if maxPath < path.length then .error .nameTooLong
  else
    tree.follow (if path.head? == some '/'.toUInt8 then [] else tree.workingDirectory)
      (path.splitOn '/'.toUInt8)

/-- What a path finds for reading. -/
def read (tree : FileTree) (path : Text) : Except FileError Entry := do
  match ← tree.resolve path with
  | .file _ content => return .file content
  | .directory => return .directory
  | .vacant _ => throw .noEntry

/-- The tree with a new content for a file, which may be new itself. -/
def write (tree : FileTree) (path content : Text) : Except FileError FileTree := do
  match ← tree.resolve path with
  | .file names _ | .vacant names => return tree.put names (.file content)
  | .directory => throw .isDirectory

/-- The files below the working directory that are new or have a new content, with their paths from
there. -/
def changes (before after : FileTree) : List (Text × Text) :=
  after.entries.filterMap fun (names, entry) =>
    match entry with
    | .file content =>
      if before.find? names = some (.file content) || !before.workingDirectory.isPrefixOf names then none
      else some (Text.join "/" (names.drop before.workingDirectory.length), content)
    | .directory => none

/-! ## A system with these files -/

/-- What there is to read on the standard input, and whether it is a character device. -/
structure StandardInput where
  content : Text := []
  isDevice : Bool := false
  deriving DecidableEq, Repr

/-- The null device, which is empty. -/
def StandardInput.null : StandardInput := { isDevice := true }

def host (input : StandardInput) (terminal : Bool) (pretty : Bool → Statement → Text) :
    Host (StateM FileTree) where
  readFile path := do return ((← get).read path).mapError (⟨.opening, path, ·⟩)
  writeFile path content := do
    match (← get).write path content with
    | .ok tree => set tree; return .ok ()
    | .error e => return .error ⟨.opening, path, e⟩
  inputIsDevice := return .ok input.isDevice
  readInput := return .ok input.content
  showsColor := return terminal
  pretty

end FileTree

end Sigma16
