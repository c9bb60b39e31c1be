/-
The shape of an operation: which field each operand fills, and which fields the opcode fills. One
table of shapes takes the place of an encoder for every format.
-/
import Sigma16.Operation
import Sigma16.Field

namespace Sigma16

/-- What one operand supplies. -/
inductive Slot where
  /-- A register `Rn`. -/
  | register (field : Field)
  /-- The value of an expression. -/
  | value (field : Field)
  /-- The name of a control register. -/
  | control (field : Field)
  /-- A displacement and an index register, `disp[Rn]`. -/
  | indexed (index displacement : Field)
  deriving DecidableEq, Repr

/-- The fields that a slot fills, in the order in which they are read. -/
def Slot.fields : Slot → List Field
  | .register field | .value field | .control field => [field]
  | .indexed index displacement => [index, displacement]

structure Shape where
  /-- The operands in order. -/
  slots : List Slot
  /-- The fields filled by the entries of the opcode, in order. -/
  opcode : List Field
  /-- The number of words. -/
  size : Nat
  deriving DecidableEq, Repr

/-- The words of an instruction whose operands fill their fields as given. -/
def Shape.words (shape : Shape) (opcode : List Word) (parts : Placement) : List Word :=
  Word.packAll shape.size (shape.opcode.zip opcode ++ parts)

/-- What a statement adds to the object code. -/
inductive Encoding where
  /-- Nothing. -/
  | nothing
  /-- The words of an instruction, or a word of data. -/
  | words (shape : Shape)
  /-- A jump of the location counter. -/
  | origin
  /-- Records for the names that other modules may import. -/
  | exports
  deriving DecidableEq, Repr

namespace Shape

/-- An instruction of one word with three fields for registers. -/
def rrr (slots : List Slot) : Shape := ⟨slots, [.op], 1⟩

/-- An instruction with a displacement. -/
def rx (slots : List Slot) : Shape := ⟨slots, [.op, .b], 2⟩

/-- Shorthand for a jump whose condition is part of the opcode. -/
def rxPseudo (slots : List Slot) : Shape := ⟨slots, [.op, .b, .d], 2⟩

/-- An expanded instruction. -/
def exp (slots : List Slot) : Shape := ⟨slots, [.op, .ab], 2⟩

/-- Shorthand for an expanded instruction whose last operand is part of the opcode. -/
def expPseudo (slots : List Slot) : Shape := ⟨slots, [.op, .ab, .h], 2⟩

end Shape

open Slot in
/-- The encoding of an operation, unless its format, operands and shorthand mark do not belong
together. -/
def Operation.encoding? (op : Operation) : Option Encoding :=
  match op.format, op.operands, op.pseudo with
  | .empty, .empty, false => some .nothing
  | .rrr, .rrr, false => some (.words (.rrr [register .d, register .a, register .b]))
  | .rrr, .rr, false => some (.words (.rrr [register .a, register .b]))
  | .rx, .rx, false => some (.words (.rx [register .d, indexed .a .disp]))
  | .rx, .x, false => some (.words (.rx [indexed .a .disp]))
  | .rx, .x, true => some (.words (.rxPseudo [indexed .a .disp]))
  | .rx, .kx, false => some (.words (.rx [value .d, indexed .a .disp]))
  | .exp1, .noOperands, false => some (.words ⟨[], [.op, .ab], 1⟩)
  | .exp2, .rrx, false => some (.words (.exp [register .d, register .e, indexed .f .gh]))
  | .exp2, .rc, false => some (.words (.exp [register .e, control .f]))
  | .exp2, .rrk, false => some (.words (.exp [register .d, register .e, value .f]))
  | .exp2, .rrrk, false => some (.words (.exp [register .d, register .e, register .f, value .h]))
  | .exp2, .rrr, true => some (.words (.expPseudo [register .d, register .e, register .f]))
  | .exp2, .rr, true => some (.words (.expPseudo [register .d, register .e]))
  | .exp2, .rkkkk, false => some (.words (.exp [register .d, value .e, value .f, value .g, value .h]))
  | .exp2, .rkkk, true => some (.words (.expPseudo [register .d, value .e, value .f, value .g]))
  | .exp2, .rkkrk, false => some (.words (.exp [register .d, value .e, value .f, register .g, value .h]))
  | .exp2, .rrkk, false => some (.words (.exp [register .d, register .e, value .g, value .h]))
  | .exp2, .rrrkk, false => some (.words (.exp [register .d, register .e, register .f, value .g, value .h]))
  | .data, .data, false => some (.words ⟨[value .data], [], 1⟩)
  | .directive, .org, false | .directive, .block, false => some .origin
  | .directive, .exportNames, false => some .exports
  | .directive, .moduleName, false | .directive, .importName, false | .directive, .equ, false => some .nothing
  | _, _, _ => none

end Sigma16
