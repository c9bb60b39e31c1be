/-
The code of a statement, once all names are bound: its words, and what they leave behind.
-/
import Sigma16.Operand
import Sigma16.Operation.Shape

namespace Sigma16

open Outcome

/-- The value of an expression that fills a field. -/
def fieldValue (symbols : SymbolTable) (s : Statement) (field : Field) (text : Text) : Outcome Word :=
  let address := s.address.word + field.position
  if field.isWhole then wholeWord symbols s address field.name text
  else constant symbols s address field.name text field.limit

/-- The fields that one operand fills. -/
def placeOperand (symbols : SymbolTable) (s : Statement) : Slot → Text → Outcome Placement
  | .register field, text => do return [(field, ← register s text)]
  | .control field, text => do return [(field, ← controlRegister s text)]
  | .value field, text => do return [(field, ← fieldValue symbols s field text)]
  | .indexed index field, text => do
    let (displacement, n) ← indexed s text
    return [(index, n), (field, ← fieldValue symbols s field displacement)]

/-- The fields that operands fill, from left to right. -/
def placeOperands (symbols : SymbolTable) (s : Statement) : List Slot → List Text → Outcome Placement
  | slot :: slots, text :: texts => do
    let part ← placeOperand symbols s slot text
    let parts ← placeOperands symbols s slots texts
    return part ++ parts
  | _, _ => return []

/-- The report on a wrong number of operands. -/
def operandCountError (s : Statement) (required : Nat) : Diagnostic :=
  ⟨s.operandsCursor, .operandCount required s.operands.length⟩

/-- As many zero words as the statement fills. -/
def zeroWords (s : Statement) : List Word := List.replicate s.size.toNat 0

/-- The words of an instruction. With a wrong number of operands they are zero, so that what follows
stays at its address. -/
def encodeWords (symbols : SymbolTable) (s : Statement) (shape : Shape) : Outcome (List Word) :=
  if s.operands.length = shape.slots.length then do
    return shape.words s.operation.opcode (← placeOperands symbols s shape.slots s.operands)
  else report (operandCountError s shape.slots.length) (zeroWords s)

/-- The record for one name that is offered to other modules. -/
def exportName (symbols : SymbolTable) (s : Statement) (name : Text) : Outcome Unit :=
  if Text.isName name then
    match symbols.lookup name with
    | some binding => do
      use name
      offer ⟨name, binding.value⟩
    | none => report ⟨s.textCursor name, .undefinedExport name⟩ ()
  else report ⟨s.textCursor name, .invalidOperand "identifier" name⟩ ()

def exportNames (symbols : SymbolTable) (s : Statement) : List Text → Outcome Unit
  | [] => return
  | name :: names => do
    exportName symbols s name
    exportNames symbols s names

/-- The words of a statement. -/
def encode (symbols : SymbolTable) (s : Statement) : Outcome (List Word) :=
  match s.operation.encoding? with
  | some .nothing | some .origin => return []
  | some (.words shape) => encodeWords symbols s shape
  | some .exports =>
    if s.operands.isEmpty then report (operandCountError s 1) []
    else do
      exportNames symbols s s.operands
      return []
  | none =>
    report ⟨s.operationCursor, .unhandledFormat s.operation.format s.operation.operands s.operation.pseudo⟩ []

/-- The address to which a statement moves the code that follows; without one of its own, the place
where the location counter stands. -/
def newOrigin? (counter : Value) (s : Statement) : Option Word :=
  if s.operation.encoding? = some .origin then some (s.orgAddress.getD counter).word else none

end Sigma16
