/-
The operations of the architecture and the names of its control registers.
-/
import Sigma16.Operation

namespace Sigma16

namespace Operation

/-- An instruction with its opcodes. -/
def instruction (mnemonic : String) (format : InstructionFormat) (operands : AddressingFormat)
    (opcode : List Word) : Operation :=
  { mnemonic, format, operands, opcode }

/-- Shorthand for an instruction, with the missing operand as its last opcode. -/
def shorthand (mnemonic : String) (format : InstructionFormat) (operands : AddressingFormat)
    (opcode : List Word) : Operation :=
  { mnemonic, format, operands, opcode, pseudo := true }

/-- A directive; it has no opcode. -/
def directive (mnemonic : String) (operands : AddressingFormat) : Operation :=
  { mnemonic, format := .directive, operands }

/-- Every operation that a mnemonic can name. -/
def table : List Operation :=
  [ instruction "add" .rrr .rrr [0],
    instruction "sub" .rrr .rrr [1],
    instruction "mul" .rrr .rrr [2],
    instruction "div" .rrr .rrr [3],
    instruction "cmp" .rrr .rr [4],
    instruction "addc" .rrr .rrr [5],
    instruction "muln" .rrr .rrr [6],
    instruction "divn" .rrr .rrr [7],
    instruction "trap" .rrr .rrr [12],
    instruction "lea" .rx .rx [15, 0],
    instruction "load" .rx .rx [15, 1],
    instruction "store" .rx .rx [15, 2],
    instruction "jump" .rx .x [15, 3],
    instruction "jumpc0" .rx .kx [15, 4],
    instruction "jumpc1" .rx .kx [15, 5],
    instruction "jal" .rx .rx [15, 6],
    instruction "jumpz" .rx .rx [15, 7],
    instruction "jumpnz" .rx .rx [15, 8],
    instruction "testset" .rx .rx [15, 9],
    -- conditional jumps test one bit of the condition code for 0 or 1
    shorthand "jumplt" .rx .x [15, 5, 4],
    shorthand "jumple" .rx .x [15, 4, 0],
    shorthand "jumpne" .rx .x [15, 4, 2],
    shorthand "jumpeq" .rx .x [15, 5, 2],
    shorthand "jumpge" .rx .x [15, 4, 4],
    shorthand "jumpgt" .rx .x [15, 5, 0],
    shorthand "jumpv" .rx .x [15, 5, 5],
    shorthand "jumpco" .rx .x [15, 5, 6],
    instruction "resume" .exp1 .noOperands [14, 0],
    instruction "save" .exp2 .rrx [14, 1],
    instruction "restore" .exp2 .rrx [14, 2],
    instruction "getctl" .exp2 .rc [14, 3],
    instruction "putctl" .exp2 .rc [14, 4],
    instruction "shiftl" .exp2 .rrk [14, 5],
    instruction "shiftr" .exp2 .rrk [14, 6],
    instruction "logicw" .exp2 .rrrk [14, 7],
    -- logic functions are truth tables: bit 3 is the result at (0,0), bit 0 at (1,1)
    shorthand "andw" .exp2 .rrr [14, 7, 1],
    shorthand "orw" .exp2 .rrr [14, 7, 7],
    shorthand "xorw" .exp2 .rrr [14, 7, 6],
    shorthand "invw" .exp2 .rr [14, 7, 12],
    instruction "logicb" .exp2 .rkkkk [14, 8],
    shorthand "andb" .exp2 .rkkk [14, 8, 1],
    shorthand "orb" .exp2 .rkkk [14, 8, 7],
    shorthand "xorb" .exp2 .rkkk [14, 8, 6],
    instruction "extract" .exp2 .rkkrk [14, 9],
    instruction "getbits" .exp2 .rrkk [14, 10],
    instruction "putbits" .exp2 .rrrkk [14, 11],
    instruction "data" .data .data [],
    directive "module" .moduleName,
    directive "import" .importName,
    directive "export" .exportNames,
    directive "org" .org,
    directive "block" .block,
    directive "equ" .equ ]

/-- The operation of a mnemonic; mnemonics are in lower case. -/
def lookup (mnemonic : Text) : Option Operation := table.find? (·.mnemonic == mnemonic)

/-- All operations by mnemonic. -/
def sorted : List Operation := table.mergeSort fun x y => decide (x.mnemonic ≤ y.mnemonic)

end Operation

/-- The names of the control registers, in the order of their numbers. -/
def controlRegisters : List Text :=
  ["status", "mask", "req", "rstat", "rpc", "iir", "iadr", "vect", "psegBeg", "psegEnd", "dsegBeg", "dsegEnd"]

/-- The number of a control register. -/
def controlRegister? (name : Text) : Option Word := (controlRegisters.idxOf? name).map .ofNat

end Sigma16
