/-
Layout: the first walk over a source binds the labels and gives every statement its address. Each
line sees the bindings of the lines before it.
-/
import Sigma16.Operand

namespace Sigma16

/-- What the lines so far have established. -/
structure Context where
  moduleName : Text
  symbols : SymbolTable
  /-- The location counter: the address of the next word. -/
  counter : Value
  deriving DecidableEq, Repr

namespace Context

/-- The name of a module that has none. -/
def defaultName : Text := "anonymous"

/-- Before the first line: nothing is bound, and code starts at 0 and moves with the module. -/
def initial (name : Text) : Context where
  moduleName := if name.isEmpty then defaultName else name
  symbols := .empty
  counter := .relocatable 0

end Context

/-! ## Labels -/

/-- The foreign symbol that an alias refers to. -/
def aliasTarget (symbols : SymbolTable) (value : Value) (text : Text) : Text × Text :=
  if value.isExternal then
    match symbols.lookup text with
    | some target => (target.moduleName, target.foreignName)
    | none => ([], [])
  else ([], [])

/-- The binding that a statement gives its label, unless its operands are wrong. -/
def newBinding (c : Context) (s : Statement) : Outcome (Option Binding) :=
  match s.operation.directive? with
  | some .equ => do
    let value ← evaluate c.symbols s s.parts.operands
    let (moduleName, foreignName) := aliasTarget c.symbols value s.parts.operands
    return some { name := s.parts.label, moduleName, foreignName, value, line := s.line }
  | some .importName =>
    match s.operands with
    | [moduleName, foreignName] =>
      match [moduleName, foreignName].find? fun name => !Text.isName name with
      | some name =>
        .report ⟨s.textCursor name, .invalidOperand "module,name" s.parts.operands⟩ none
      | none =>
        return some { name := s.parts.label, moduleName, foreignName, value := .external, line := s.line }
    | names => .report ⟨s.operandsCursor, .operandCount 2 names.length⟩ none
  | _ => return some { name := s.parts.label, value := c.counter, line := s.line }

/-- Binds the label of a statement, if it has one. The label of a module statement names the
module. -/
def bindLabel (c : Context) (s : Statement) : Context × List Diagnostic :=
  if s.hasLabel then
    if s.operation.directive? = some .moduleName then
      ({ c with moduleName := s.parts.label }, [])
    else
      match c.symbols.lookup s.parts.label with
      | some binding => (c, [⟨s.labelCursor, .redeclaredSymbol s.parts.label binding.line⟩])
      | none =>
        let o := newBinding c s
        let symbols := c.symbols.useAll s.line o.effects.uses
        match o.result with
        | none => ({ c with symbols }, o.effects.errors)
        | some binding =>
          match symbols.define? binding with
          | some symbols => ({ c with symbols }, o.effects.errors)
          | none =>
            ({ c with symbols },
              o.effects.errors ++ [⟨s.labelCursor, .internal SymbolTable.duplicateMessage⟩])
  else
    match s.operation.directive? with
    | some .moduleName | some .equ | some .importName =>
      (c, [⟨s.operationCursor, .missingLabel s.operation.mnemonic⟩])
    | _ => (c, [])

/-! ## The location counter -/

/-- Where an `org` moves the location counter. -/
def orgTarget (c : Context) (s : Statement) : Outcome Value := do
  let value ← evaluate c.symbols s s.parts.operands
  if value.isExternal then
    .report ⟨s.operandsCursor, .invalidOperand "local address" s.parts.operands⟩ c.counter
  else return value

/-- Where a `block` moves the location counter. -/
def blockTarget (c : Context) (s : Statement) : Outcome Value := do
  let value ← evaluate c.symbols s s.parts.operands
  if value.isRelocatable then .report ⟨s.operandsCursor, .movingBlock value⟩ c.counter
  else
    match c.counter.add value with
    | .ok next => return next
    | .error fault => .report ⟨s.operandsCursor, .arithmetic fault⟩ c.counter

/-- Moves the location counter by an `org` or a `block`. -/
def jump (c : Context) (s : Statement) (target : Outcome Value) : Context × Statement :=
  ({ c with counter := target.result, symbols := c.symbols.useAll s.line target.effects.uses },
    { s.note target.effects.errors with orgAddress := some target.result })

/-- Moves the location counter past a statement. -/
def advance (c : Context) (s : Statement) : Context × Statement :=
  match s.operation.directive? with
  | some .org => jump c s (orgTarget c s)
  | some .block => jump c s (blockTarget c s)
  | _ =>
    match c.counter.add (.const s.size) with
    | .ok next => ({ c with counter := next }, s)
    | .error fault => (c, s.note [⟨s.operationCursor, .arithmetic fault⟩])

/-! ## All lines -/

/-- Reads one line, binds its label and moves past it. -/
def layOutLine (c : Context) (line : Int) (source : Text) : Context × Statement :=
  let s := Statement.read line c.counter source
  let s := { s with errors := s.characterErrors ++ s.errors }
  let (c, errors) := bindLabel c s
  advance c (s.note errors)

/-- The statements of lines, the first of which has the number `line`. -/
def layOut (c : Context) (line : Int) : List Text → Context × List Statement
  | [] => (c, [])
  | source :: sources =>
    let (c, s) := layOutLine c line source
    let (c, ss) := layOut c (line + 1) sources
    (c, s :: ss)

end Sigma16
