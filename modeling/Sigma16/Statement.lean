/-
Statements: a source line with its place in memory and everything that is learnt about it.
-/
import Sigma16.Diagnostic
import Sigma16.Line
import Sigma16.Operation.Table

namespace Sigma16

structure Statement where
  /-- The line number. -/
  line : Int
  /-- The address of the statement's first word. -/
  address : Value
  source : Text
  parts : Line := {}
  operation : Operation := .empty
  /-- The number of words that the statement fills. -/
  size : Word := 0
  /-- The location counter that an `org` or a `block` sets. -/
  orgAddress : Option Value := none
  code : List Word := []
  errors : List Diagnostic := []
  deriving DecidableEq, Repr

namespace Statement

/-- Does the line start with a valid label? -/
def hasLabel (s : Statement) : Bool := Text.isName s.parts.label

def operands (s : Statement) : List Text := Text.splitOperands s.parts.operands

/-- The statement with further diagnostics. -/
def note (s : Statement) (errors : List Diagnostic) : Statement :=
  { s with errors := s.errors ++ errors }

/-! ## Places in the line -/

def labelCursor (s : Statement) : Cursor := ⟨s.line, 1, Text.width s.parts.label⟩

def operationCursor (s : Statement) : Cursor where
  line := s.line
  column := 1 + Text.width (s.parts.label ++ s.parts.labelGap)
  size := Text.width s.parts.mnemonic

def operandsCursor (s : Statement) : Cursor where
  line := s.line
  column := 1 + Text.width (s.parts.label ++ s.parts.labelGap ++ s.parts.mnemonic ++ s.parts.mnemonicGap)
  size := Text.width s.parts.operands

/-- The first occurrence of a text in the operands; all of the operands if it does not occur or is
empty. -/
def textCursor (s : Statement) (text : Text) : Cursor :=
  let whole := s.operandsCursor
  if text.isEmpty then whole
  else
    match Text.find? text s.parts.operands with
    | some n =>
      { whole with column := whole.column + Text.width (s.parts.operands.take n), size := Text.width text }
    | none => whole

/-! ## Reading a line -/

/-- Advice after a report of invalid characters. -/
def characterNotes : List Text :=
  ["See User Guide for list of valid characters", "(Word processors often insert invalid characters)"]

/-- One report on all characters of a line that a source may not hold, and advice. -/
def characterErrors (s : Statement) : List Diagnostic :=
  match Text.invalidColumns s.source with
  | [] => []
  | column :: columns =>
    let position : Cursor := ⟨s.line, column, 1⟩
    ⟨position, .invalidCharacters ((column :: columns).map Int.ofNat)⟩
      :: characterNotes.map fun note => ⟨position, .characterNote note⟩

/-- Reports a label that is no name. -/
def labelErrors (s : Statement) : List Diagnostic :=
  if s.parts.label.isEmpty || s.hasLabel then []
  else [⟨s.labelCursor, .invalidLabel s.parts.label⟩]

/-- The operation that the line names. A line without a mnemonic has the empty operation, and so has a
line with an unknown one. -/
def withOperation (s : Statement) : Statement :=
  if s.parts.mnemonic.isEmpty then s
  else
    match Operation.lookup s.parts.mnemonic with
    | some op => { s with operation := op, size := op.format.size }
    | none => s.note [⟨s.operationCursor, .unknownOperation s.parts.mnemonic⟩]

/-- The statement of a line. -/
def read (line : Int) (address : Value) (source : Text) : Statement :=
  let blank : Statement := { line, address, source }
  match Line.ofText? source with
  | some parts =>
    let s := { blank with parts }
    (s.note s.labelErrors).withOperation
  | none => blank.note [⟨⟨line, 1, 0⟩, .internal "line does not split into fields"⟩]

end Statement

end Sigma16
