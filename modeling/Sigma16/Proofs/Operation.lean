/-
The table of operations checked against the table of shapes. Every operation that a line can name
has an encoding, and the encoding fits it: an instruction has as many words as its format says, an
opcode for every field that it fills from the opcode, and fields that do not share a bit; `org` and
`block`, and nothing else, move the location counter.
-/
import Sigma16.Operation.Shape
import Sigma16.Operation.Table

namespace Sigma16

/-! ## Fields of a shape -/

/-- Do two fields lie in different words, or share no bit of one? -/
def Field.Apart (x y : Field) : Prop :=
  x.position ≠ y.position ∨ x.place x.limit &&& y.place y.limit = 0

instance (x y : Field) : Decidable (x.Apart y) := inferInstanceAs (Decidable (_ ∨ _))

theorem Field.Apart.symm {x y : Field} (h : x.Apart y) : y.Apart x := by
  rcases h with h | h
  · exact Or.inl fun e => h e.symm
  · exact Or.inr (by rw [UInt16.and_comm]; exact h)

/-- A field that fills its word is apart only from the fields of the other words. -/
theorem Field.Apart.position_ne {x y : Field} (h : x.Apart y) (hw : x.isWhole = true) :
    x.position ≠ y.position := by
  rcases h with h | h
  · exact h
  · exfalso
    revert h hw
    cases x <;> cases y <;> decide

/-- All fields of a shape: those of the opcode, then those of the operands. -/
def Shape.fields (shape : Shape) : List Field := shape.opcode ++ shape.slots.flatMap Slot.fields

/-- The fields of a shape lie inside its words and are pairwise apart. -/
def Shape.Separate (shape : Shape) : Prop :=
  shape.fields.Pairwise Field.Apart ∧ ∀ field ∈ shape.fields, field.position.toNat < shape.size

instance (shape : Shape) : Decidable shape.Separate := inferInstanceAs (Decidable (_ ∧ _))

/-! ## Encodings that fit their operations -/

/-- Does the operation move the location counter by its operand? -/
def Operation.isJump (op : Operation) : Bool :=
  op.directive? == some .org || op.directive? == some .block

/-- What an encoding has to agree on with its operation. -/
def Encoding.Fits (op : Operation) : Encoding → Prop
  | .words shape => op.isJump = false ∧ shape.size = op.format.size.toNat ∧
      shape.opcode.length = op.opcode.length ∧ shape.Separate
  | .origin => op.isJump = true ∧ op.format.size = 0
  | .nothing | .exports => op.isJump = false ∧ op.format.size = 0

instance (op : Operation) : DecidablePred (Encoding.Fits op)
  | .words _ => inferInstanceAs (Decidable (_ ∧ _))
  | .origin | .nothing | .exports => inferInstanceAs (Decidable (_ ∧ _))

namespace Operation

/-- An operation that a line can have: the empty one, or one of the table. -/
def Known (op : Operation) : Prop := op ∈ empty :: table

theorem empty_known : empty.Known := List.mem_cons_self

theorem lookup_known {mnemonic : Text} {op : Operation} (h : lookup mnemonic = some op) : op.Known :=
  List.mem_cons_of_mem _ (List.mem_of_find?_eq_some h)

/-- Every operation that a line can have has an encoding that fits it. -/
theorem Known.encoding {op : Operation} (h : op.Known) :
    ∃ encoding, op.encoding? = some encoding ∧ encoding.Fits op := by
  have table_fits : ∀ op ∈ empty :: table, op.encoding?.any (fun e => decide (e.Fits op)) = true := by decide
  have hop := table_fits op h
  rw [Option.any_eq_true] at hop
  obtain ⟨encoding, he, hf⟩ := hop
  exact ⟨encoding, he, of_decide_eq_true hf⟩

theorem Known.fits {op : Operation} (h : op.Known) {encoding : Encoding} (he : op.encoding? = some encoding) :
    encoding.Fits op := by
  obtain ⟨encoding', he', hf⟩ := h.encoding
  rw [he'] at he
  cases he
  exact hf

theorem Known.encoding_isSome {op : Operation} (h : op.Known) : op.encoding? ≠ none := by
  obtain ⟨encoding, he, -⟩ := h.encoding
  rw [he]
  exact Option.some_ne_none _

/-- Exactly the jumps of the location counter are encoded as such. -/
theorem Known.origin_iff {op : Operation} (h : op.Known) : op.encoding? = some .origin ↔ op.isJump = true := by
  constructor
  · intro he
    exact (h.fits he).1
  · intro hj
    obtain ⟨encoding, he, hf⟩ := h.encoding
    cases encoding with
    | origin => exact he
    | nothing | exports => rw [hf.1] at hj; cases hj
    | words shape => rw [hf.1] at hj; cases hj

end Operation

end Sigma16
