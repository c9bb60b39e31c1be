/-
Operands and their values, under the bindings of a symbol table. A wrong operand is reported and
stands for zero.
-/
import Sigma16.Expression
import Sigma16.Literal
import Sigma16.Outcome
import Sigma16.Statement
import Sigma16.Symbol

namespace Sigma16

open Outcome

/-! ## Expressions -/

/-- The value of a term. -/
def evaluateTerm (symbols : SymbolTable) (s : Statement) (text : Text) : Outcome Value :=
  match Term.ofText text with
  | .name name =>
    match symbols.lookup name with
    | some binding => do use name; return binding.value
    | none => report ⟨s.textCursor text, .undefinedSymbol text⟩ (.const 0)
  | .decimal digits =>
    match (Literal.decimal digits).toOption.bind Word.ofInt? with
    | some word => return .const word
    | none => report ⟨s.textCursor text, .invalidLiteral text⟩ (.const 0)
  | .hex digits =>
    match (Literal.hex digits).toOption with
    | some word => return .const word
    | none => report ⟨s.textCursor text, .invalidLiteral text⟩ (.const 0)

/-- The value of an expression. -/
def evaluate (symbols : SymbolTable) (s : Statement) (text : Text) : Outcome Value :=
  match Expression.ofText? text with
  | some (.term t) => evaluateTerm symbols s t
  | some (.sum left right) => do
    let x ← evaluateTerm symbols s left
    let y ← evaluateTerm symbols s right
    match x.add y with
    | .ok value => return value
    | .error fault => report ⟨s.textCursor text, .arithmetic fault⟩ (.const 0)
  | none => report ⟨s.textCursor text, .invalidExpression text⟩ (.const 0)

/-! ## Registers -/

/-- The number after the `R` of a register: one hexadecimal digit, or a decimal from 10 to 15. -/
def registerNumber? : Text → Option Word
  | [x] => if Text.isHexDigit x then some (.ofNat (Text.hexValue x)) else none
  | [x, y] =>
    if x == '1'.toUInt8 && '0'.toUInt8 ≤ y && y ≤ '5'.toUInt8 then some (.ofNat (10 + Text.hexValue y)) else none
  | _ => none

/-- The number of a register `Rn`. -/
def register? : Text → Option Word
  | [] => none
  | b :: number => if b == 'R'.toUInt8 then registerNumber? number else none

def register (s : Statement) (text : Text) : Outcome Word :=
  match register? text with
  | some n => return n
  | none => report ⟨s.textCursor text, .invalidOperand "register" text⟩ 0

def controlRegister (s : Statement) (text : Text) : Outcome Word :=
  match controlRegister? text with
  | some n => return n
  | none => report ⟨s.textCursor text, .unknownControlRegister text⟩ 0

/-- A byte of a displacement, after a minus sign. -/
def isDisplacementByte (b : UInt8) : Bool :=
  Text.isNameByte b || b == '$'.toUInt8 || b == '+'.toUInt8

/-- The form of a displacement: what can stand in an expression, the minus sign only in front. -/
def isDisplacement (t : Text) : Bool :=
  let body := if t.head? == some '-'.toUInt8 then t.tail else t
  !body.isEmpty && body.all isDisplacementByte

/-- The displacement and the register of `disp[Rn]`. -/
def indexed? (t : Text) : Option (Text × Word) := do
  let (displacement, rest) ← Text.cut? '['.toUInt8 t
  guard (isDisplacement displacement && rest.getLast? == some ']'.toUInt8)
  let n ← register? rest.dropLast
  return (displacement, n)

/-- The displacement and the register of an indexed operand; a wrong one counts as `0[R0]`. -/
def indexed (s : Statement) (text : Text) : Outcome (Text × Word) :=
  match indexed? text with
  | some x => return x
  | none => report ⟨s.textCursor text, .invalidOperand "disp[Rn]" text⟩ ("0", 0)

/-! ## Fields -/

/-- Notes for the linker about a value that is written to a named field of the word at `address`;
`text` is the operand that it came from. -/
def link (symbols : SymbolTable) (s : Statement) (address : Word) (text : Text) (value : Value)
    (field : Text) : Outcome Unit :=
  if value.isExternal then
    match symbols.lookup text with
    | some binding =>
      if binding.isImported then
        importField ⟨binding.moduleName, binding.foreignName, address, field⟩
      else undefinedExternal
    | none => undefinedExternal
  else if value.isRelocatable then relocate address
  else return
where
  undefinedExternal : Outcome Unit :=
    report ⟨s.textCursor text, .internal ("external symbol " ++ text ++ " undefined")⟩ ()

/-- The value of a field smaller than a word: a number up to `limit` that does not move. The linker
fills in the values of other modules. -/
def constant (symbols : SymbolTable) (s : Statement) (address : Word) (field text : Text)
    (limit : Word) : Outcome Word := do
  let value ← evaluate symbols s text
  if value.isExternal then
    link symbols s address text value field
    return 0
  else if value.isRelocatable then report ⟨s.textCursor text, .movingField field value⟩ 0
  else if limit < value.word then report ⟨s.textCursor text, .oversizedField field limit value.word⟩ 0
  else return value.word

/-- The value of a field that fills its word. -/
def wholeWord (symbols : SymbolTable) (s : Statement) (address : Word) (field text : Text) :
    Outcome Word := do
  let value ← evaluate symbols s text
  link symbols s address text value field
  return value.word

end Sigma16
