/-
The fields of an instruction. An instruction is one word or two; each field is a run of bits of
one of them:

    first word    op d a b      or    op d ab      or    data
    second word   e f g h       or    e f gh       or    disp

A word is built by placing values into its fields and read by taking them out again.
-/
import Sigma16.Word

namespace Sigma16

/-- A named run of bits of an instruction. -/
inductive Field where
  | op | d | a | b | ab | data
  | e | f | g | h | gh | disp
  deriving DecidableEq, Repr

namespace Field

def name : Field → Text
  | .op => "op" | .d => "d" | .a => "a" | .b => "b" | .ab => "ab" | .data => "data"
  | .e => "e" | .f => "f" | .g => "g" | .h => "h" | .gh => "gh" | .disp => "disp"

/-- The word of the instruction that holds the field, the first being 0. -/
def position : Field → Word
  | .op | .d | .a | .b | .ab | .data => 0
  | .e | .f | .g | .h | .gh | .disp => 1

/-- The largest number that the field holds; as a bit pattern, its mask. -/
def limit : Field → Word
  | .op | .d | .a | .b | .e | .f | .g | .h => 0xF
  | .ab | .gh => 0xFF
  | .data | .disp => 0xFFFF

/-- The number of bits below the field. -/
def shift : Field → Word
  | .op | .e => 12
  | .d | .f => 8
  | .a | .g => 4
  | .b | .h | .ab | .gh | .data | .disp => 0

/-- Does the field fill its word? Only then can a linker move or supply the value. -/
def isWhole (field : Field) : Bool := field.limit == 0xFFFF

/-- A value moved to the field's bits; bits that do not fit are dropped. -/
def place (field : Field) (value : Word) : Word := (value &&& field.limit) <<< field.shift

/-- The value of the field in a word. -/
def read (field : Field) (w : Word) : Word := (w >>> field.shift) &&& field.limit

end Field

/-- Fields with the values they take. -/
abbrev Placement := List (Field × Word)

namespace Word

/-- The word whose fields have the given values and whose other bits are zero. -/
def pack (parts : Placement) : Word := parts.foldr (fun p w => p.1.place p.2 ||| w) 0

/-- Four fields of four bits. -/
def ofNibbles (op d a b : Word) : Word := pack [(.op, op), (.d, d), (.a, a), (.b, b)]

/-- Two fields of four bits and one of eight. -/
def ofByte (op d ab : Word) : Word := pack [(.op, op), (.d, d), (.ab, ab)]

/-- The first `size` words of an instruction with the given fields. -/
def packAll (size : Nat) (parts : Placement) : List Word :=
  (List.range size).map fun i => pack (parts.filter fun p => p.1.position.toNat == i)

end Word

end Sigma16
