/-
Operations: what the mnemonic of a statement stands for. An operation has the format of its code
and the form of its operands; a pseudo operation is shorthand for another one and carries the
missing operand in its opcode.
-/
import Sigma16.Word

namespace Sigma16

/-- How an operation is laid out in memory. -/
inductive InstructionFormat where
  | empty | rrr | rx | exp1 | exp2 | data | directive
  /-- A tag that means none of them. -/
  | other
  deriving DecidableEq, Repr

/-- Which operands an operation takes. -/
inductive AddressingFormat where
  | noOperands | empty
  | rrr | rr | rx | x | kx | rkkrk | rrrk | rkkkk | rkkk | rc | rrk | rrkk | rrrkk | rrx
  | data | moduleName | importName | exportNames | org | block | equ
  /-- A tag that means none of them. -/
  | other
  deriving DecidableEq, Repr

def InstructionFormat.name : InstructionFormat → Text
  | .empty => "EMPTY"
  | .rrr => "RRR"
  | .rx => "RX"
  | .exp1 => "EXP1"
  | .exp2 => "EXP2"
  | .data => "DATA"
  | .directive => "DIR"
  | .other => "<invalid>"

/-- The number of words that a statement of this format fills. The directives that move the
location counter fill none. -/
def InstructionFormat.size : InstructionFormat → Word
  | .rrr | .exp1 | .data => 1
  | .rx | .exp2 => 2
  | .empty | .directive | .other => 0

def AddressingFormat.name : AddressingFormat → Text
  | .noOperands => "none"
  | .empty => "empty"
  | .rrr => "RRR"
  | .rr => "RR"
  | .rx => "RX"
  | .x => "X"
  | .kx => "kX"
  | .rkkrk => "RkkRk"
  | .rrrk => "RRRk"
  | .rkkkk => "Rkkkk"
  | .rkkk => "Rkkk"
  | .rc => "RC"
  | .rrk => "RRk"
  | .rrkk => "RRkk"
  | .rrrkk => "RRRkk"
  | .rrx => "RRX"
  | .data => "data"
  | .moduleName => "module"
  | .importName => "import"
  | .exportNames => "export"
  | .org => "org"
  | .block => "block"
  | .equ => "equ"
  | .other => "<invalid>"

structure Operation where
  mnemonic : Text
  format : InstructionFormat
  operands : AddressingFormat
  /-- The primary opcode, a secondary one, and the operand that a pseudo operation supplies. -/
  opcode : List Word := []
  pseudo : Bool := false
  deriving DecidableEq, Repr

namespace Operation

/-- The operation of a line without a known mnemonic. -/
def empty : Operation := { mnemonic := [], format := .empty, operands := .empty }

/-- What a directive is about; `none` for all other operations. -/
def directive? (op : Operation) : Option AddressingFormat :=
  if op.format == .directive then some op.operands else none

end Operation

end Sigma16
