/-
The assembler never blames itself. No diagnostic of an assembled module is of the internal kind, and no
encoder reaches past the operands of a statement or past the opcode of its operation: an encoder that
reads both by index, and fails where an index is out of range, never fails and gives the same code.
-/
import Sigma16.Proofs.Code

namespace Sigma16

open Outcome

/-! ## Encoders that read by index -/

/-- The fields that the opcode fills, from its `n`-th entry on. -/
def opcodeFrom? (opcode : List Word) : List Field → Nat → Option Placement
  | [], _ => some []
  | field :: fields, n =>
    match opcode[n]?, opcodeFrom? opcode fields (n + 1) with
    | some entry, some parts => some ((field, entry) :: parts)
    | _, _ => none

/-- The fields that the operands fill, from the `n`-th operand on. -/
def placeOperandsFrom? (symbols : SymbolTable) (s : Statement) : List Slot → Nat → Option (Outcome Placement)
  | [], _ => some (return [])
  | slot :: slots, n =>
    match s.operands[n]?, placeOperandsFrom? symbols s slots (n + 1) with
    | some text, some rest => some do
      let part ← placeOperand symbols s slot text
      let parts ← rest
      return part ++ parts
    | _, _ => none

/-- The words of an instruction. The number of operands is checked first, so that no operand that the
statement lacks is asked for. -/
def encodeWordsByIndex? (symbols : SymbolTable) (s : Statement) (shape : Shape) : Option (Outcome (List Word)) :=
  if s.operands.length = shape.slots.length then
    match opcodeFrom? s.operation.opcode shape.opcode 0, placeOperandsFrom? symbols s shape.slots 0 with
    | some head, some rest => some do return Word.packAll shape.size (head ++ (← rest))
    | _, _ => none
  else some (report (operandCountError s shape.slots.length) (zeroWords s))

/-- The words of a statement, by an encoder that fails where an index is out of range and where the
operation has no encoding. -/
def encodeByIndex? (symbols : SymbolTable) (s : Statement) : Option (Outcome (List Word)) :=
  match s.operation.encoding? with
  | some (.words shape) => encodeWordsByIndex? symbols s shape
  | some _ => some (encode symbols s)
  | none => none

/-! ## Every index is in range -/

theorem opcodeFrom?_eq (opcode : List Word) : ∀ (fields : List Field) (n : Nat),
    n + fields.length ≤ opcode.length → opcodeFrom? opcode fields n = some (fields.zip (opcode.drop n))
  | [], n, _ => rfl
  | field :: fields, n, h => by
    rw [List.length_cons] at h
    have hn : n < opcode.length := by omega
    unfold opcodeFrom?
    rw [opcodeFrom?_eq opcode fields (n + 1) (by omega), List.getElem?_eq_getElem hn, List.drop_eq_getElem_cons hn]
    rfl

theorem placeOperandsFrom?_eq (symbols : SymbolTable) (s : Statement) : ∀ (slots : List Slot) (n : Nat),
    n + slots.length ≤ s.operands.length →
      placeOperandsFrom? symbols s slots n = some (placeOperands symbols s slots (s.operands.drop n))
  | [], n, _ => by
    unfold placeOperandsFrom? placeOperands
    rfl
  | slot :: slots, n, h => by
    rw [List.length_cons] at h
    have hn : n < s.operands.length := by omega
    unfold placeOperandsFrom?
    rw [placeOperandsFrom?_eq symbols s slots (n + 1) (by omega), List.getElem?_eq_getElem hn,
      List.drop_eq_getElem_cons hn]
    rfl

/-- Every entry of the opcode that an encoder asks for is there, since the shape fits the operation, and
every operand is, since their number is checked. -/
theorem encodeByIndex?_eq (symbols : SymbolTable) {s : Statement} (hk : s.operation.Known) :
    encodeByIndex? symbols s = some (encode symbols s) := by
  obtain ⟨encoding, he, hf⟩ := hk.encoding
  unfold encodeByIndex?
  rw [he]
  cases encoding with
  | nothing | origin | exports => rfl
  | words shape =>
    obtain ⟨-, -, hopcode, -⟩ := hf
    simp only [encode, he, encodeWords, encodeWordsByIndex?]
    split
    · rename_i hcount
      rw [opcodeFrom?_eq _ _ 0 (by omega), placeOperandsFrom?_eq _ _ _ 0 (by omega), List.drop_zero, List.drop_zero]
      rfl
    · rfl

/-! ## Blame -/

/-- A diagnostic that blames the source is none of those that blame the assembler. -/
theorem Diagnostic.BlamesSource.cause {e : Diagnostic} (h : e.BlamesSource) :
    (∀ message, e.cause ≠ .internal message) ∧
    (∀ format operands pseudo, e.cause ≠ .unhandledFormat format operands pseudo) ∧
    e.cause ≠ .arithmetic .negative := by
  unfold BlamesSource kind at h
  refine ⟨?_, ?_, ?_⟩
  · intro message hc
    rw [hc] at h
    exact h rfl
  · intro format operands pseudo hc
    rw [hc] at h
    exact h rfl
  · intro hc
    rw [hc] at h
    exact h rfl

namespace Assembly

variable {a : Assembly}

theorem LaidOut.blameless (h : a.LaidOut) : ∀ s ∈ a.generate.statements, s.Blameless := by
  intro t ht
  obtain ⟨s, hs, rfl⟩ := mem_generate_statements.1 ht
  obtain ⟨-, -, -, -, hb⟩ := h.statements s hs
  exact hb.note (h.encode_sound hs).errors

/-- No statement of a module, whatever its name and its bytes, carries a diagnostic that blames the
assembler, and the code of every statement is found without reading past its operands or its opcode. -/
theorem assemble_never_faults (name source : Text) :
    (∀ s ∈ (assemble name source).statements, ∀ e ∈ s.errors, e.kind ≠ .internal ∧
      (∀ message, e.cause ≠ .internal message) ∧
      (∀ format operands pseudo, e.cause ≠ .unhandledFormat format operands pseudo) ∧
      e.cause ≠ .arithmetic .negative) ∧
    ∀ s ∈ (Assembly.ofSource (.initial name) source).statements,
      encodeByIndex? (Assembly.ofSource (.initial name) source).symbols s =
        some (encode (Assembly.ofSource (.initial name) source).symbols s) := by
  have h := ofSource_laidOut (Context.initial_wf name) source
  constructor
  · intro s hs e he
    have hb : e.BlamesSource := h.blameless s hs e he
    exact ⟨hb, hb.cause⟩
  · intro s hs
    exact encodeByIndex?_eq _ (h.statements s hs).1

def aliasAdded : Text := "x import m,f\ny equ x\n data y+1\n load R2,y[R1]"

set_option maxRecDepth 4000 in
/-- An import under a second name: added to a number it is reported as a mistake of the source, and as a
displacement it is encoded. -/
theorem assemble_never_faults_alias :
    (∃ s ∈ (assemble [] aliasAdded).statements,
      ∃ e ∈ s.errors, e.cause = .arithmetic .external ∧ e.kind ≠ .internal) ∧
    ∃ s ∈ (Assembly.ofSource (.initial []) aliasAdded).statements,
      s.operands.length = 2 ∧ s.operation.opcode.length = 2 ∧
      encodeByIndex? (Assembly.ofSource (.initial []) aliasAdded).symbols s =
        some (encode (Assembly.ofSource (.initial []) aliasAdded).symbols s) := by
  obtain ⟨hblame, hindex⟩ := assemble_never_faults [] aliasAdded
  have hsum : ∃ s ∈ (assemble [] aliasAdded).statements,
      ∃ e ∈ s.errors, e.cause = .arithmetic .external := by decide +kernel
  have hload : ∃ s ∈ (Assembly.ofSource (.initial []) aliasAdded).statements,
      s.operands.length = 2 ∧ s.operation.opcode.length = 2 := by decide +kernel
  obtain ⟨s, hs, e, he, hc⟩ := hsum
  obtain ⟨t, ht, hoperands, hopcode⟩ := hload
  exact ⟨⟨s, hs, e, he, hc, (hblame s hs e he).1⟩, t, ht, hoperands, hopcode, hindex t ht⟩

end Assembly

end Sigma16
