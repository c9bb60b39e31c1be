/-
Notes for the linker point at the words that they patch. Every note belongs to one field of the statement
that made it: a relocation to a field that fills its word, an import to a field whose value is zero. As the
fields of a statement share no bits, no word is patched twice, and the linker finds zeros where it has to
fill in a value.
-/
import Sigma16.Proofs.Packing
import Sigma16.Proofs.Relocation

namespace Sigma16

open Outcome

/-! ## The fields that a linker fills -/

/-- The bits of a word that a linker fills, by the name of the field. -/
def linkedBits? (field : Text) : Option Word :=
  List.lookup field
    [⟨"d", 0x0F00⟩, ⟨"e", 0xF000⟩, ⟨"f", 0x0F00⟩, ⟨"g", 0x00F0⟩, ⟨"h", 0x000F⟩, ⟨"gh", 0x00FF⟩, ⟨"disp", 0xFFFF⟩,
      ⟨"data", 0xFFFF⟩]

theorem Field.name_injective {x y : Field} (h : x.name = y.name) : x = y := by
  revert h
  cases x <;> cases y <;> decide

theorem Field.not_apart_self (x : Field) : ¬ x.Apart x := by
  cases x <;> decide

/-- The notes of a statement at `base`, beside the fields that it fills: a field is filled for good, is the
word that a relocation points to, or is zero and named by an import. -/
inductive Linked (base : Word) : Placement → List Word → List Import → Prop where
  | nil : Linked base [] [] []
  | filled (p : Field × Word) {parts : Placement} {relocations : List Word} {imports : List Import} :
      Linked base parts relocations imports → Linked base (p :: parts) relocations imports
  | relocated {p : Field × Word} {parts : Placement} {relocations : List Word} {imports : List Import} :
      p.1.isWhole = true → Linked base parts relocations imports →
        Linked base (p :: parts) ((base + p.1.position) :: relocations) imports
  | imported {field : Field} {item : Import} {parts : Placement} {relocations : List Word} {imports : List Import} :
      linkedBits? field.name = some field.mask → item.address = base + field.position → item.field = field.name →
        Linked base parts relocations imports → Linked base ((field, 0) :: parts) relocations (item :: imports)

namespace Linked

variable {base : Word} {parts parts' : Placement} {relocations relocations' : List Word}
  {imports imports' : List Import}

theorem append (h : Linked base parts relocations imports) (h' : Linked base parts' relocations' imports') :
    Linked base (parts ++ parts') (relocations ++ relocations') (imports ++ imports') := by
  induction h with
  | nil => exact h'
  | filled p _ ih => exact .filled p ih
  | relocated hw _ ih => exact .relocated hw ih
  | imported hbits ha hf _ ih => exact .imported hbits ha hf ih

/-- Fields that are filled for good. -/
theorem of_filled (base : Word) : ∀ parts : Placement, Linked base parts [] []
  | [] => .nil
  | p :: parts => .filled p (of_filled base parts)

/-- A relocation points to a field that fills its word. -/
theorem exists_whole (h : Linked base parts relocations imports) :
    ∀ r ∈ relocations, ∃ p ∈ parts, p.1.isWhole = true ∧ r = base + p.1.position := by
  induction h with
  | nil => simp
  | filled p _ ih | imported _ _ _ _ ih =>
    intro r hr
    obtain ⟨q, hq, hrest⟩ := ih r hr
    exact ⟨q, List.mem_cons_of_mem _ hq, hrest⟩
  | @relocated p _ _ _ hw _ ih =>
    intro r hr
    rcases List.mem_cons.1 hr with rfl | hr
    · exact ⟨p, List.mem_cons_self, hw, rfl⟩
    · obtain ⟨q, hq, hrest⟩ := ih r hr
      exact ⟨q, List.mem_cons_of_mem _ hq, hrest⟩

/-- An import names a field that is zero. -/
theorem exists_zero (h : Linked base parts relocations imports) :
    ∀ item ∈ imports, ∃ field : Field, (field, 0) ∈ parts ∧ linkedBits? item.field = some field.mask ∧
      item.address = base + field.position ∧ item.field = field.name := by
  induction h with
  | nil => simp
  | filled p _ ih | relocated _ _ ih =>
    intro item hi
    obtain ⟨field, hf, hrest⟩ := ih item hi
    exact ⟨field, List.mem_cons_of_mem _ hf, hrest⟩
  | @imported field item _ _ _ hbits ha hf _ ih =>
    intro other hi
    rcases List.mem_cons.1 hi with rfl | hi
    · exact ⟨field, List.mem_cons_self, hf ▸ hbits, ha, hf⟩
    · obtain ⟨field, hmem, hrest⟩ := ih other hi
      exact ⟨field, List.mem_cons_of_mem _ hmem, hrest⟩

theorem length_relocations (h : Linked base parts relocations imports) :
    relocations.length ≤ (parts.filter (·.1.isWhole)).length := by
  induction h with
  | nil => exact Nat.le_refl _
  | filled p _ ih | imported _ _ _ _ ih =>
    refine Nat.le_trans ih (List.Sublist.length_le ?_)
    exact (List.sublist_cons_self _ _).filter _
  | relocated hw _ ih =>
    rw [List.filter_cons_of_pos (by exact hw)]
    exact Nat.succ_le_succ ih

/-- No word is both relocated and filled from another module: a field that fills its word leaves no room for
another one. -/
theorem address_ne (h : Linked base parts relocations imports) (ha : (parts.map Prod.fst).Pairwise Field.Apart) :
    ∀ r ∈ relocations, ∀ item ∈ imports, item.address ≠ r := by
  have apart : ∀ {x y : Field}, x.isWhole = true → x.Apart y → base + y.position ≠ base + x.position := by
    intro x y hw hxy he
    exact hxy.position_ne hw ((UInt16.add_right_inj _).1 he).symm
  induction h with
  | nil => simp
  | filled p _ ih =>
    rw [List.map_cons, List.pairwise_cons] at ha
    exact ih ha.2
  | @relocated p _ _ _ hw htail ih =>
    rw [List.map_cons, List.pairwise_cons] at ha
    intro r hr item hi
    rcases List.mem_cons.1 hr with rfl | hr
    · obtain ⟨field, hmem, -, haddress, -⟩ := htail.exists_zero item hi
      rw [haddress]
      exact apart hw (ha.1 field (List.mem_map_of_mem hmem))
    · exact ih ha.2 r hr item hi
  | @imported field item _ _ _ _ haddress _ htail ih =>
    rw [List.map_cons, List.pairwise_cons] at ha
    intro r hr other hi
    rcases List.mem_cons.1 hi with rfl | hi
    · obtain ⟨p, hp, hw, rfl⟩ := htail.exists_whole r hr
      rw [haddress]
      exact apart hw (ha.1 p.1 (List.mem_map_of_mem hp)).symm
    · exact ih ha.2 r hr other hi

/-- No field is named by two imports. -/
theorem pairwise_field (h : Linked base parts relocations imports) (ha : (parts.map Prod.fst).Pairwise Field.Apart) :
    imports.Pairwise fun x y => x.field ≠ y.field := by
  induction h with
  | nil => exact .nil
  | filled p _ ih | relocated _ _ ih =>
    rw [List.map_cons, List.pairwise_cons] at ha
    exact ih ha.2
  | @imported field item _ _ _ _ _ hfield htail ih =>
    rw [List.map_cons, List.pairwise_cons] at ha
    refine .cons (fun other hi he => ?_) (ih ha.2)
    obtain ⟨field', hmem, -, -, hfield'⟩ := htail.exists_zero other hi
    rw [hfield, hfield'] at he
    have hapart := ha.1 field' (List.mem_map_of_mem hmem)
    rw [Field.name_injective he] at hapart
    exact field'.not_apart_self hapart

end Linked

/-! ## Operands -/

theorem evaluateTerm_imports (symbols : SymbolTable) (s : Statement) (text : Text) :
    (evaluateTerm symbols s text).effects.imports = [] := by
  unfold evaluateTerm
  split
  · split <;> rfl
  · split <;> rfl
  · split <;> rfl

theorem evaluate_imports (symbols : SymbolTable) (s : Statement) (text : Text) :
    (evaluate symbols s text).effects.imports = [] := by
  unfold evaluate
  split
  · exact evaluateTerm_imports ..
  · simp only [bind_effects, Effects.append_imports, evaluateTerm_imports, List.nil_append]
    split <;> rfl
  · rfl

theorem exportNames_imports (symbols : SymbolTable) (s : Statement) : ∀ names : List Text,
    (exportNames symbols s names).effects.imports = []
  | [] => rfl
  | name :: names => by
    have hname : (exportName symbols s name).effects.imports = [] := by
      unfold exportName
      split
      · split <;> rfl
      · rfl
    rw [exportNames, bind_effects, Effects.append_imports, hname, exportNames_imports symbols s names]
    rfl

section Operands

variable {symbols : SymbolTable} (hw : symbols.WF) (s : Statement)

include hw

/-- A value of another module leaves zero in its field, and an import that names the field. -/
theorem fieldValue_external (field : Field) (text : Text)
    (he : (evaluate symbols s text).result.isExternal = true) :
    (fieldValue symbols s field text).result = 0 ∧ (fieldValue symbols s field text).effects.relocations = [] ∧
    ∃ item : Import, (fieldValue symbols s field text).effects.imports = [item] ∧
      item.address = s.address.word + field.position ∧ item.field = field.name := by
  have hrelocations := evaluate_relocations symbols s text
  have himports := evaluate_imports symbols s text
  obtain ⟨b, hb, -, hb'⟩ := evaluate_imported hw he
  have hzero : (evaluate symbols s text).result.word = 0 := by
    rcases evaluate_proper hw s text with hlocal | hplaceholder
    · rw [hlocal.not_external] at he
      cases he
    · rw [hplaceholder]
      rfl
  unfold fieldValue
  simp only
  split
  · simp [wholeWord, link, he, hb, hb', hrelocations, himports, hzero]
  · simp [constant, link, he, hb, hb', hrelocations, himports]

/-- A value of this module leaves a relocation if it moves, which it does only in a field that fills its
word. -/
theorem fieldValue_local (field : Field) (text : Text) (he : (evaluate symbols s text).result.isExternal = false) :
    (fieldValue symbols s field text).effects.imports = [] ∧
    ((fieldValue symbols s field text).effects.relocations = [] ∨ field.isWhole = true ∧
      (fieldValue symbols s field text).effects.relocations = [s.address.word + field.position]) := by
  have himports := evaluate_imports symbols s text
  unfold fieldValue
  simp only
  split
  · rename_i hwhole
    rw [wholeWord_relocations hw]
    refine ⟨?_, ?_⟩
    · simp only [wholeWord, link, he, bind_effects, Effects.append_imports, himports, Bool.false_eq_true, if_false]
      split <;> rfl
    · split
      · exact Or.inr ⟨hwhole, rfl⟩
      · exact Or.inl rfl
  · refine ⟨?_, Or.inl (constant_relocations ..)⟩
    simp only [constant, he, bind_effects, Effects.append_imports, himports, Bool.false_eq_true, if_false]
    split
    · rfl
    · split <;> rfl

theorem fieldValue_linked {field : Field} (hbits : linkedBits? field.name = some field.mask) (text : Text) :
    Linked s.address.word [(field, (fieldValue symbols s field text).result)]
      (fieldValue symbols s field text).effects.relocations (fieldValue symbols s field text).effects.imports := by
  by_cases he : (evaluate symbols s text).result.isExternal = true
  · obtain ⟨hresult, hrelocations, item, himports, haddress, hfield⟩ := fieldValue_external hw s field text he
    rw [hresult, hrelocations, himports]
    exact .imported hbits haddress hfield .nil
  · rw [Bool.not_eq_true] at he
    obtain ⟨himports, hrelocations | ⟨hwhole, hrelocations⟩⟩ := fieldValue_local hw s field text he
    · rw [himports, hrelocations]
      exact .of_filled _ _
    · rw [himports, hrelocations]
      exact .relocated hwhole .nil

/-- The fields of a slot that take the value of an expression. -/
def Slot.expressions : Slot → List Field
  | .value field | .indexed _ field => [field]
  | .register _ | .control _ => []

theorem placeOperand_linked {slot : Slot}
    (hbits : ∀ field ∈ slot.expressions, linkedBits? field.name = some field.mask) (text : Text) :
    Linked s.address.word (placeOperand symbols s slot text).result
      (placeOperand symbols s slot text).effects.relocations (placeOperand symbols s slot text).effects.imports := by
  cases slot with
  | register field =>
    obtain ⟨hrelocations, himports⟩ : (register s text).effects.relocations = [] ∧
        (register s text).effects.imports = [] := by
      unfold register
      split <;> exact ⟨rfl, rfl⟩
    simp only [placeOperand, map_pure_eq, hrelocations, himports]
    exact .of_filled _ _
  | control field =>
    obtain ⟨hrelocations, himports⟩ : (controlRegister s text).effects.relocations = [] ∧
        (controlRegister s text).effects.imports = [] := by
      unfold controlRegister
      split <;> exact ⟨rfl, rfl⟩
    simp only [placeOperand, map_pure_eq, hrelocations, himports]
    exact .of_filled _ _
  | value field =>
    simp only [placeOperand, map_pure_eq]
    exact fieldValue_linked hw s (hbits field List.mem_cons_self) text
  | indexed index field =>
    obtain ⟨hrelocations, himports⟩ : (indexed s text).effects.relocations = [] ∧
        (indexed s text).effects.imports = [] := by
      unfold Sigma16.indexed
      split <;> exact ⟨rfl, rfl⟩
    simp only [placeOperand, bind_effects, bind_result, pure_result, pure_effects, Effects.append_empty,
      Effects.append_relocations, Effects.append_imports, hrelocations, himports, List.nil_append]
    exact .filled _ (fieldValue_linked hw s (hbits field List.mem_cons_self) _)

theorem placeOperands_linked : ∀ {slots : List Slot},
    (∀ field ∈ slots.flatMap Slot.expressions, linkedBits? field.name = some field.mask) → ∀ texts : List Text,
      Linked s.address.word (placeOperands symbols s slots texts).result
        (placeOperands symbols s slots texts).effects.relocations (placeOperands symbols s slots texts).effects.imports
  | [], _, _ => .nil
  | _ :: _, _, [] => .nil
  | slot :: slots, hbits, text :: texts => by
    rw [List.flatMap_cons] at hbits
    have hslot := placeOperand_linked hw s (fun field hf => hbits field (List.mem_append_left _ hf)) text
    have hslots := placeOperands_linked (fun field hf => hbits field (List.mem_append_right _ hf)) texts
    simp only [placeOperands, bind_effects, bind_result, pure_result, pure_effects, Effects.append_empty,
      Effects.append_relocations, Effects.append_imports]
    exact hslot.append hslots

end Operands

/-! ## Statements -/

/-- What a linker relies on in the notes of a statement at `base` with the given code. -/
structure Effects.PointInto (base : Word) (code : List Word) (e : Effects) : Prop where
  relocations : ∀ r ∈ e.relocations, ∃ j < code.length, r = base + .ofNat j
  /-- An import names bits of a word of the statement, and they are zero. -/
  imports : ∀ item ∈ e.imports, ∃ j < code.length, item.address = base + .ofNat j ∧
    ∃ bits, linkedBits? item.field = some bits ∧ ∀ w, code[j]? = some w → w &&& bits = 0
  single : e.relocations.length ≤ 1
  disjoint : ∀ r ∈ e.relocations, ∀ item ∈ e.imports, item.address ≠ r
  distinct : e.imports.Pairwise fun x y => (x.address, x.field) ≠ (y.address, y.field)

theorem Effects.PointInto.of_nil {base : Word} {code : List Word} {e : Effects} (hr : e.relocations = [])
    (hi : e.imports = []) : e.PointInto base code :=
  ⟨by simp [hr], by simp [hi], by simp [hr], by simp [hr], by simp [hi]⟩

/-- A field that is zero is zero in the words of the instruction. -/
theorem Word.packAll_and_mask {parts : Placement} {size : Nat} {x : Field}
    (ha : (parts.map Prod.fst).Pairwise Field.Apart) (hm : (x, 0) ∈ parts) {w : Word}
    (hw : (packAll size parts)[x.position.toNat]? = some w) : w &&& x.mask = 0 := by
  -- a part of the instruction is the one of the field, or is apart from it
  have hparts : ∀ p ∈ parts, ∀ q ∈ parts, p = q ∨ q.1.Apart p.1 := by
    have hpairwise := List.pairwise_map.1 ha
    intro p hp q hq
    refine List.Pairwise.forall_of_forall_of_flip (R := fun p q => p = q ∨ q.1.Apart p.1) ?_ ?_ ?_ hp hq
    · exact fun p _ => Or.inl rfl
    · exact hpairwise.imp fun h => Or.inr h.symm
    · exact hpairwise.imp fun h => Or.inr h
  unfold packAll at hw
  rw [List.getElem?_map] at hw
  obtain ⟨i, hi, rfl⟩ := Option.map_eq_some_iff.1 hw
  obtain ⟨hsize, hi⟩ := List.getElem?_eq_some_iff.1 hi
  rw [List.getElem_range] at hi
  subst hi
  refine pack_and_mask fun p hp => ?_
  obtain ⟨hp, hposition⟩ := List.mem_filter.1 hp
  rcases hparts p hp (x, 0) hm with rfl | hapart
  · exact Or.inl rfl
  · exact Or.inr ⟨hapart, (UInt16.toNat_inj.1 (eq_of_beq hposition)).symm⟩

/-- The notes of an instruction, from the fields that it fills. -/
theorem Linked.pointInto {base : Word} {parts : Placement} {e : Effects} {size : Nat}
    (h : Linked base parts e.relocations e.imports) (ha : (parts.map Prod.fst).Pairwise Field.Apart)
    (hp : ∀ p ∈ parts, p.1.position.toNat < size) (hwhole : (parts.filter (·.1.isWhole)).length ≤ 1) :
    e.PointInto base (Word.packAll size parts) := by
  have hlength : (Word.packAll size parts).length = size := by simp [Word.packAll]
  refine ⟨fun r hr => ?_, fun item hi => ?_, ?_, h.address_ne ha, ?_⟩
  · obtain ⟨p, hmem, -, rfl⟩ := h.exists_whole r hr
    exact ⟨p.1.position.toNat, by rw [hlength]; exact hp p hmem, by rw [UInt16.ofNat_toNat]⟩
  · obtain ⟨field, hmem, hbits, haddress, -⟩ := h.exists_zero item hi
    refine ⟨field.position.toNat, by rw [hlength]; exact hp _ hmem, by rw [UInt16.ofNat_toNat, haddress], field.mask,
      hbits, fun w hw => ?_⟩
    exact Word.packAll_and_mask ha hmem hw
  · exact Nat.le_trans h.length_relocations hwhole
  · exact (h.pairwise_field ha).imp fun hne he => hne (Prod.mk.inj he).2

/-- At most one field of a shape fills its word, and a linker knows the fields that take expressions. -/
def Shape.Linkable (shape : Shape) : Prop :=
  (shape.fields.filter Field.isWhole).length ≤ 1 ∧
  ∀ field ∈ shape.slots.flatMap Slot.expressions, linkedBits? field.name = some field.mask

instance (shape : Shape) : Decidable shape.Linkable := inferInstanceAs (Decidable (_ ∧ _))

def Encoding.Linkable : Encoding → Prop
  | .words shape => shape.Linkable
  | .nothing | .origin | .exports => True

instance : DecidablePred Encoding.Linkable
  | .words shape => inferInstanceAs (Decidable shape.Linkable)
  | .nothing | .origin | .exports => inferInstanceAs (Decidable True)

theorem Operation.Known.linkable {op : Operation} (h : op.Known) {encoding : Encoding}
    (he : op.encoding? = some encoding) : encoding.Linkable := by
  have table_linkable : ∀ op ∈ empty :: table, ∀ encoding ∈ op.encoding?, encoding.Linkable := by decide +kernel
  exact table_linkable op h _ he

/-- The notes of a statement point into its code. -/
theorem encode_pointInto {symbols : SymbolTable} (hw : symbols.WF) {s : Statement} (hk : s.operation.Known) :
    (encode symbols s).effects.PointInto s.address.word (encode symbols s).result := by
  obtain ⟨encoding, he, hf⟩ := hk.encoding
  unfold encode
  rw [he]
  cases encoding with
  | nothing | origin => exact .of_nil rfl rfl
  | exports =>
    simp only
    split
    · exact .of_nil rfl rfl
    · refine .of_nil ?_ ?_
      · simp [exportNames_relocations]
      · simp [exportNames_imports]
  | words shape =>
    simp only [encodeWords]
    split
    · rename_i hcount
      obtain ⟨-, hsize, hopcode, hapart, hinside⟩ := hf
      obtain ⟨hwhole, hbits⟩ := hk.linkable he
      have hoperands : (shape.slots.flatMap Slot.fields).Pairwise Field.Apart := (List.pairwise_append.1 hapart).2.1
      have hfields : (shape.opcode.zip s.operation.opcode ++
          (placeOperands symbols s shape.slots s.operands).result).map Prod.fst = shape.fields := by
        rw [List.map_append, List.map_fst_zip (by omega),
          (placeOperands_moved 0 s hw shape.slots s.operands hcount.symm hoperands).filled]
        rfl
      have hlinked := (Linked.of_filled s.address.word (shape.opcode.zip s.operation.opcode)).append
        (placeOperands_linked hw s hbits s.operands)
      rw [map_pure_eq]
      refine Linked.pointInto hlinked (hfields ▸ hapart) (fun p hp => ?_) ?_
      · exact hinside p.1 (hfields ▸ List.mem_map_of_mem hp)
      · rw [← hfields, List.filter_map, List.length_map] at hwhole
        exact hwhole
    · exact .of_nil rfl rfl

namespace Assembly

/-- Notes for the linker point at the words that they patch. The relocations and the imports of a module are
those that encoding its statements notes, in order; and what the encoding of a statement notes points into
the code of the statement, to at most one word that moves, to no word that both moves and is filled in by
the linker, to no field twice, and to bits that are zero where the linker fills in a value. -/
theorem assemble_notes_point_into_code (name source : Text) :
    let laid := ofSource (.initial name) source
    let a := assemble name source
    a.relocations = laid.statements.flatMap (fun s => (encode laid.symbols s).effects.relocations) ∧
    a.imports = laid.statements.flatMap (fun s => (encode laid.symbols s).effects.imports) ∧
    a.statements.length = laid.statements.length ∧
    ∀ (i : Nat) (s t : Statement), laid.statements[i]? = some s → a.statements[i]? = some t →
      (encode laid.symbols s).effects.PointInto t.address.word t.code := by
  intro laid a
  have hlaid : laid.LaidOut := ofSource_laidOut (Context.initial_wf name) source
  have hstatements : a.statements = laid.statements.map laid.code := generate_statements laid
  refine ⟨generate_relocations laid, generate_imports laid, ?_, fun i s t hs ht => ?_⟩
  · rw [hstatements, List.length_map]
  · rw [hstatements, List.getElem?_map, hs] at ht
    obtain rfl := Option.some.inj ht
    have hmem := List.mem_of_getElem? hs
    rw [code_address, hlaid.code_eq hmem]
    exact encode_pointInto hlaid.wf.symbols (hlaid.statements s hmem).1

def threeFields : Text := "x import m,y\n xorb R1,x,x,x"

set_option maxRecDepth 4000 in
/-- One word with three fields for the linker to fill in. -/
theorem assemble_notes_point_into_code_xorb : ∃ s t : Statement,
    (ofSource (.initial []) threeFields).statements[1]? = some s ∧
    (assemble [] threeFields).statements[1]? = some t ∧ t.code = [0xE108, 0x0006] ∧
    (encode (ofSource (.initial []) threeFields).symbols s).effects.imports =
      [⟨"m", "y", 1, "e"⟩, ⟨"m", "y", 1, "f"⟩, ⟨"m", "y", 1, "g"⟩] ∧
    (encode (ofSource (.initial []) threeFields).symbols s).effects.PointInto t.address.word t.code := by
  have hlaid : (ofSource (.initial []) threeFields).statements[1]?.map (fun s =>
      (encode (ofSource (.initial []) threeFields).symbols s).effects.imports) =
        some [⟨"m", "y", 1, "e"⟩, ⟨"m", "y", 1, "f"⟩, ⟨"m", "y", 1, "g"⟩] := by decide +kernel
  have hcode : (assemble [] threeFields).statements[1]?.map (·.code) = some [0xE108, 0x0006] := by decide +kernel
  obtain ⟨s, hs, himports⟩ := Option.map_eq_some_iff.1 hlaid
  obtain ⟨t, ht, hwords⟩ := Option.map_eq_some_iff.1 hcode
  obtain ⟨-, -, -, hpoint⟩ := assemble_notes_point_into_code [] threeFields
  exact ⟨s, t, hs, ht, hwords, himports, hpoint 1 s t hs ht⟩

end Assembly

end Sigma16
