/-
Results with side effects kept as data. Reading an operand never fails: it gives a result, and
beside it a log of the diagnostics, of the names that were used, and of the notes for the linker.
-/
import Sigma16.Diagnostic
import Sigma16.Object

namespace Sigma16

/-- What a statement leaves behind besides its words, each in order. -/
structure Effects where
  errors : List Diagnostic := []
  /-- Bound names that were used. -/
  uses : List Text := []
  relocations : List Word := []
  imports : List Import := []
  exports : List Export := []
  deriving DecidableEq, Repr

namespace Effects

def append (x y : Effects) : Effects where
  errors := x.errors ++ y.errors
  uses := x.uses ++ y.uses
  relocations := x.relocations ++ y.relocations
  imports := x.imports ++ y.imports
  exports := x.exports ++ y.exports

instance : Append Effects := ⟨append⟩

end Effects

/-- A result and its effects. -/
structure Outcome (α : Type) where
  result : α
  effects : Effects := {}
  deriving DecidableEq, Repr

namespace Outcome

variable {α β : Type}

def bind (x : Outcome α) (f : α → Outcome β) : Outcome β :=
  let y := f x.result
  ⟨y.result, x.effects ++ y.effects⟩

instance : Monad Outcome where
  pure a := ⟨a, {}⟩
  bind := bind

/-- Reports a diagnostic and goes on with a result. -/
def report (e : Diagnostic) (result : α) : Outcome α := ⟨result, { errors := [e] }⟩

/-- Notes the use of a name. -/
def use (name : Text) : Outcome Unit := ⟨(), { uses := [name] }⟩

/-- Notes a word that moves with the module. -/
def relocate (address : Word) : Outcome Unit := ⟨(), { relocations := [address] }⟩

/-- Notes a field that another module fills. -/
def importField (item : Import) : Outcome Unit := ⟨(), { imports := [item] }⟩

/-- Notes a name that other modules may import. -/
def offer (item : Export) : Outcome Unit := ⟨(), { exports := [item] }⟩

end Outcome

end Sigma16
