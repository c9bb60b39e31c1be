/-
Names and what they are bound to. A symbol table is written once: the first binding of a name
stays, and all that is added to it later are the lines that use the name.
-/
import Sigma16.Value

namespace Sigma16

/-- What a name stands for. The two names of a foreign symbol are empty unless the name is imported
or an alias of an imported name. -/
structure Binding where
  name : Text
  moduleName : Text := []
  foreignName : Text := []
  value : Value
  /-- The line of the definition. -/
  line : Int
  /-- The lines that use the name, in the order of use. -/
  uses : List Int := []
  deriving DecidableEq, Repr

namespace Binding

def isImported (b : Binding) : Bool := b.moduleName != []

/-- The name, qualified by its module if it is imported. -/
def fullName (b : Binding) : Text :=
  if b.isImported then b.moduleName ++ "." ++ b.name else b.name

end Binding

/-- Bindings in the order of their definition. -/
structure SymbolTable where
  bindings : List Binding := []
  deriving DecidableEq, Repr

namespace SymbolTable

def empty : SymbolTable := {}

def lookup (t : SymbolTable) (name : Text) : Option Binding := t.bindings.find? (·.name == name)

def contains (t : SymbolTable) (name : Text) : Bool := (t.lookup name).isSome

def size (t : SymbolTable) : Nat := t.bindings.length

/-- The table with one more binding, or nothing if the name is bound already. -/
def define? (t : SymbolTable) (b : Binding) : Option SymbolTable :=
  if t.contains b.name then none else some ⟨t.bindings ++ [b]⟩

/-- The message for a name that is bound already. -/
def duplicateMessage : Text := "Symbol has already been defined"

/-- Notes that a line uses a name; a name without a binding leaves the table as it is. -/
def use (t : SymbolTable) (line : Int) (name : Text) : SymbolTable :=
  ⟨t.bindings.map fun b => if b.name == name then { b with uses := b.uses ++ [line] } else b⟩

/-- Notes that a line uses several names. -/
def useAll (t : SymbolTable) (line : Int) (names : List Text) : SymbolTable :=
  names.foldl (fun t name => t.use line name) t

/-- All bindings by name, the names compared byte by byte. -/
def sorted (t : SymbolTable) : List Binding :=
  t.bindings.mergeSort fun x y => decide (x.name ≤ y.name)

end SymbolTable

end Sigma16
