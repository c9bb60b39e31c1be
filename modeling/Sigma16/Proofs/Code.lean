/-
The code of one statement under a well-formed symbol table: it has exactly the words that layout
reserved, whatever is wrong with the operands, and its log is sound. From there, what assembling a
module adds to each statement.
-/
import Sigma16.Proofs.Layout

namespace Sigma16

open Outcome

/-! ## Sound code -/

theorem fieldValue_sound {symbols : SymbolTable} (hw : symbols.WF) (s : Statement) (field : Field) (text : Text) :
    (fieldValue symbols s field text).Sound := by
  unfold fieldValue
  simp only
  split
  · exact wholeWord_sound hw ..
  · exact constant_sound hw ..

theorem placeOperand_sound {symbols : SymbolTable} (hw : symbols.WF) (s : Statement) (slot : Slot) (text : Text) :
    (placeOperand symbols s slot text).Sound := by
  cases slot with
  | register field => exact Sound.bind (register_sound ..) (Sound.pure _)
  | control field => exact Sound.bind (controlRegister_sound ..) (Sound.pure _)
  | value field => exact Sound.bind (fieldValue_sound hw ..) (Sound.pure _)
  | indexed index field =>
    exact Sound.bind (indexed_sound ..) (Sound.bind (fieldValue_sound hw ..) (Sound.pure _))

theorem placeOperands_sound {symbols : SymbolTable} (hw : symbols.WF) (s : Statement) :
    ∀ (slots : List Slot) (texts : List Text), (placeOperands symbols s slots texts).Sound
  | [], _ => Sound.pure _
  | _ :: _, [] => Sound.pure _
  | slot :: slots, text :: texts =>
    Sound.bind (placeOperand_sound hw s slot text) (Sound.bind (placeOperands_sound hw s slots texts) (Sound.pure _))

theorem encodeWords_sound {symbols : SymbolTable} (hw : symbols.WF) (s : Statement) (shape : Shape) :
    (encodeWords symbols s shape).Sound := by
  unfold encodeWords
  split
  · exact Sound.bind (placeOperands_sound hw ..) (Sound.pure _)
  · exact Sound.report rfl _

theorem exportName_sound (symbols : SymbolTable) (s : Statement) (name : Text) :
    (exportName symbols s name).Sound := by
  unfold exportName
  split
  · rename_i hn
    split
    · exact Sound.bind (Effects.Sound.uses _) (Effects.Sound.exported hn)
    · exact Sound.report rfl _
  · exact Sound.report rfl _

theorem exportNames_sound (symbols : SymbolTable) (s : Statement) :
    ∀ names : List Text, (exportNames symbols s names).Sound
  | [] => Sound.pure _
  | name :: names => Sound.bind (exportName_sound symbols s name) (exportNames_sound symbols s names)

/-- The code of a statement with a known operation never blames the assembler. -/
theorem encode_sound {symbols : SymbolTable} (hw : symbols.WF) {s : Statement} (hk : s.operation.Known) :
    (encode symbols s).Sound := by
  unfold encode
  split
  · exact Sound.pure _
  · exact Sound.pure _
  · exact encodeWords_sound hw ..
  · split
    · exact Sound.report rfl _
    · exact Sound.bind (exportNames_sound ..) (Sound.pure _)
  · rename_i hn
    exact absurd hn hk.encoding_isSome

/-! ## The number of words -/

theorem Shape.length_words (shape : Shape) (opcode : List Word) (parts : Placement) :
    (shape.words opcode parts).length = shape.size := by
  unfold words Word.packAll
  rw [List.length_map, List.length_range]

/-- A statement has as many words as layout reserved for it, also where its operands are wrong. -/
theorem encode_length (symbols : SymbolTable) {s : Statement} (hk : s.operation.Known)
    (hs : s.size = s.operation.format.size) : (encode symbols s).result.length = s.size.toNat := by
  unfold encode
  split
  · rename_i he
    rw [hs, (hk.fits he).2]
    rfl
  · rename_i he
    rw [hs, (hk.fits he).2]
    rfl
  · rename_i shape he
    unfold encodeWords
    split
    · obtain ⟨-, hsize, -, -⟩ := hk.fits he
      rw [bind_result, pure_result, Shape.length_words, hsize, hs]
    · exact List.length_replicate
  · rename_i he
    rw [hs, (hk.fits he).2]
    split <;> rfl
  · rename_i hn
    exact absurd hn hk.encoding_isSome

theorem encode_jump (symbols : SymbolTable) {s : Statement} (hk : s.operation.Known)
    (hj : s.operation.isJump = true) : (encode symbols s).result = [] := by
  unfold encode
  rw [hk.origin_iff.2 hj]
  rfl

/-! ## Assembled statements -/

namespace Assembly

/-- A statement with the code that the bindings of the module give it. -/
def code (a : Assembly) (s : Statement) : Statement :=
  { s.note (encode a.symbols s).effects.errors with code := s.code ++ (encode a.symbols s).result }

theorem generate_statements (a : Assembly) : a.generate.statements = a.statements.map a.code := by
  simp only [generate, List.map_map]
  rfl

theorem mem_generate_statements {a : Assembly} {t : Statement} :
    t ∈ a.generate.statements ↔ ∃ s ∈ a.statements, a.code s = t := by
  rw [generate_statements, List.mem_map]

theorem generate_image (a : Assembly) : a.generate.image = a.statements.foldl
    (fun image s => image.storeAll s.address.word s.line (encode a.symbols s).result) a.image := by
  simp only [generate, List.foldl_map]

theorem generate_symbols (a : Assembly) : a.generate.symbols = a.statements.foldl
    (fun symbols s => symbols.useAll s.line (encode a.symbols s).effects.uses) a.symbols := by
  simp only [generate, List.foldl_map]

theorem generate_relocations (a : Assembly) : a.generate.relocations =
    a.relocations ++ a.statements.flatMap fun s => (encode a.symbols s).effects.relocations := by
  simp only [generate, List.flatMap_map]

theorem generate_exports (a : Assembly) : a.generate.exports =
    a.exports ++ a.statements.flatMap fun s => (encode a.symbols s).effects.exports := by
  simp only [generate, List.flatMap_map]

theorem generate_imports (a : Assembly) : a.generate.imports =
    a.imports ++ a.statements.flatMap fun s => (encode a.symbols s).effects.imports := by
  simp only [generate, List.flatMap_map]

theorem generate_records (a : Assembly) : a.generate.records =
    a.records ++ .header a.moduleName ::
      Record.ofCode a.pending (a.statements.map fun s => (newOrigin? a.counter s, (encode a.symbols s).result))
      ++ Record.ofRelocations a.generate.relocations ++ a.generate.exports.map .exported
      ++ a.generate.imports.map .imported := by
  simp only [generate, List.map_map]
  rfl

variable {a : Assembly}

theorem code_address (s : Statement) : (a.code s).address = s.address := rfl

theorem code_next (s : Statement) : (a.code s).next = s.next := rfl

/-- The words of an assembled statement are those of its encoding. -/
theorem LaidOut.code_eq (h : a.LaidOut) {s : Statement} (hs : s ∈ a.statements) :
    (a.code s).code = (encode a.symbols s).result := by
  obtain ⟨-, -, hc, -⟩ := h.statements s hs
  show s.code ++ _ = _
  rw [hc, List.nil_append]

theorem LaidOut.code_length (h : a.LaidOut) {s : Statement} (hs : s ∈ a.statements) :
    (a.code s).code.length = s.size.toNat := by
  obtain ⟨hk, hz, -⟩ := h.statements s hs
  rw [h.code_eq hs, encode_length a.symbols hk hz]

theorem LaidOut.encode_sound (h : a.LaidOut) {s : Statement} (hs : s ∈ a.statements) :
    (encode a.symbols s).Sound :=
  Sigma16.encode_sound h.wf.symbols (h.statements s hs).1

/-- Code adds nothing to the symbol table but the lines that use a name. -/
theorem generate_symbols_wf {a : Assembly} (h : a.symbols.WF) : a.generate.symbols.WF := by
  rw [generate_symbols]
  refine List.foldlRecOn _ _ h fun symbols hw s _ => ?_
  exact hw.useAll s.line _

theorem assemble_symbols_wf (name source : Text) : (assemble name source).symbols.WF :=
  generate_symbols_wf (ofSource_laidOut (Context.initial_wf name) source).wf.symbols

end Assembly

end Sigma16
