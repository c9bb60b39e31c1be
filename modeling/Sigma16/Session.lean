/-
A session works on a module step by step: it holds an assembly and one selected statement, and every
part of the assembler can be applied to that statement by itself.
-/
import Sigma16.Assembly

namespace Sigma16

structure Session where
  assembly : Assembly
  /-- The number of the selected statement, the first being 0. -/
  selected : Nat := 0

namespace Session

/-- A session on a source whose names are bound; the location counter may start elsewhere. -/
def start (name source : Text) (counter : Option Value) : Session :=
  let c := Context.initial name
  ⟨.ofSource { c with counter := counter.getD c.counter } source, 0⟩

def statement? (x : Session) : Option Statement := x.assembly.statements[x.selected]?

/-- Changes the selected statement. -/
def modify (x : Session) (f : Statement → Statement) : Session :=
  { x with assembly.statements := x.assembly.statements.modify x.selected f }

def select (x : Session) (n : Nat) : Session := { x with selected := n }

/-- Adds what an outcome leaves behind, the diagnostics to the selected statement. -/
def absorb (x : Session) (effects : Effects) : Session :=
  match x.statement? with
  | none => x
  | some s =>
    let a := x.assembly
    let x := { x with assembly := { a with
      symbols := a.symbols.useAll s.line effects.uses
      relocations := a.relocations ++ effects.relocations
      imports := a.imports ++ effects.imports
      exports := a.exports ++ effects.exports } }
    x.modify (·.note effects.errors)

/-- Applies a part of the assembler to the selected statement. -/
def perform {α : Type} (x : Session) (f : SymbolTable → Statement → Outcome α) : Session × Option α :=
  match x.statement? with
  | none => (x, none)
  | some s =>
    let o := f x.assembly.symbols s
    (x.absorb o.effects, some o.result)

/-- Writes a word of the selected statement. -/
def emit (x : Session) (address word : Word) : Session :=
  match x.statement? with
  | none => x
  | some s =>
    let a := x.assembly
    let x := { x with assembly := { a with
      pending := a.pending ++ [word]
      image := a.image.storeAll address s.line [word] } }
    x.modify fun s => { s with code := s.code ++ [word] }

/-- Writes words of the selected statement from its address on. -/
def emitAll (x : Session) (address : Word) : List Word → Session
  | [] => x
  | word :: words => (x.emit address word).emitAll (address + 1) words

/-- Checks the number of operands; if it is wrong, the statement is filled with zero words. -/
def requireOperands (x : Session) (n : Int) : Session × Bool :=
  match x.statement? with
  | none => (x, false)
  | some s =>
    if s.operands.length = n then (x, true)
    else
      let x := x.absorb { errors := [⟨s.operandsCursor, .operandCount n s.operands.length⟩] }
      (x.emitAll s.address.word (zeroWords s), false)

/-- Writes the pending words to records. -/
def flush (x : Session) : Session :=
  let a := x.assembly
  { x with assembly := { a with pending := [], records := a.records ++ Record.ofWords a.pending } }

/-- Adds a line at the location counter and selects its statement. -/
def addLine (x : Session) (line : Int) (source : Text) : Session :=
  let a := x.assembly
  { assembly := { a with statements := a.statements ++ [.read line a.counter source] }
    selected := a.statements.length }

def checkCharacters (x : Session) : Session := x.modify fun s => s.note s.characterErrors

def bindLabel (x : Session) : Session :=
  match x.statement? with
  | none => x
  | some s =>
    let (c, errors) := Sigma16.bindLabel x.assembly.toContext s
    { x with assembly := { x.assembly with toContext := c } }.modify (·.note errors)

def advance (x : Session) : Session :=
  match x.statement? with
  | none => x
  | some s =>
    let (c, s) := Sigma16.advance x.assembly.toContext s
    { x with assembly := { x.assembly with toContext := c } }.modify fun _ => s

def setCounter (x : Session) (value : Value) : Session := { x with assembly.counter := value }

def setOperation (x : Session) (op : Operation) : Session := x.modify fun s => { s with operation := op }

def clearOrgAddress (x : Session) : Session := x.modify fun s => { s with orgAddress := none }

def generate (x : Session) : Session := { x with assembly := x.assembly.generate }

/-- The diagnostics that were added between two states, in the order of the statements. -/
def newErrors (before after : Session) : List Diagnostic :=
  after.assembly.statements.zipIdx.flatMap fun (s, n) =>
    s.errors.drop ((before.assembly.statements[n]?.map (·.errors.length)).getD 0)

end Session

end Sigma16
