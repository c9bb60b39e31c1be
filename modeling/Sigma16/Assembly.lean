/-
The assembly of a module. The source is laid out, which binds all names, and then every statement
is encoded under these bindings. Nothing stops at an error: diagnostics stay with their statements,
and the outputs are made in any case.
-/
import Sigma16.Code
import Sigma16.Image
import Sigma16.Layout

namespace Sigma16

/-- All that is known about a module. -/
structure Assembly extends Context where
  statements : List Statement
  /-- Words not yet written to a record. -/
  pending : List Word := []
  records : List Record := []
  relocations : List Word := []
  imports : List Import := []
  exports : List Export := []
  image : Image := ∅

namespace Assembly

/-- The module after its names are bound and its addresses known. -/
def ofSource (c : Context) (source : Text) : Assembly :=
  let (c, statements) := layOut c 1 (Text.sourceLines source)
  { c with statements }

/-- Adds the code of all statements, and then the notes for the linker. -/
def generate (a : Assembly) : Assembly :=
  let encoded := a.statements.map fun s => (s, encode a.symbols s)
  let relocations := a.relocations ++ encoded.flatMap fun (_, o) => o.effects.relocations
  let imports := a.imports ++ encoded.flatMap fun (_, o) => o.effects.imports
  let exports := a.exports ++ encoded.flatMap fun (_, o) => o.effects.exports
  let code := Record.ofCode a.pending (encoded.map fun (s, o) => (newOrigin? a.counter s, o.result))
  { a with
    statements := encoded.map fun (s, o) => { s.note o.effects.errors with code := s.code ++ o.result }
    symbols := encoded.foldl (fun symbols (s, o) => symbols.useAll s.line o.effects.uses) a.symbols
    pending := []
    records := a.records ++ .header a.moduleName :: code ++ Record.ofRelocations relocations
      ++ exports.map .exported ++ imports.map .imported
    relocations
    imports
    exports
    image := encoded.foldl (fun image (s, o) => image.storeAll s.address.word s.line o.result) a.image }

/-- All diagnostics in the order of the lines. -/
def errors (a : Assembly) : List Diagnostic := a.statements.flatMap (·.errors)

def errorCount (a : Assembly) : Nat := a.errors.length

/-- Addresses and words by increasing address. -/
def memory (a : Assembly) : List (Word × Word) := a.image.memory

def objectText (a : Assembly) : Text := Text.ofLines (a.records.map Record.text)

end Assembly

/-- Assembles a source under a name, which a module statement may replace. -/
def assemble (name source : Text) : Assembly := (Assembly.ofSource (.initial name) source).generate

end Sigma16
