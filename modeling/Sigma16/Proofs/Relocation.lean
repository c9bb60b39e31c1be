/-
Relocations are exactly the words that move. A module assembled from another base has the same
diagnostics, the same names and as many words; a word differs by the difference of the bases if the
encoding of its statement noted a relocation for it, and is the same word if not.
-/
import Sigma16.Proofs.Code
import Sigma16.Proofs.Rebase

namespace Sigma16

open Outcome

/-! ## Operands that do not look at the base -/

section Operands

variable (b d : Word)

theorem register_moved (s : Statement) (text : Text) :
    register (s.moved b) text = (register s text).moved b d id := by
  unfold register
  cases register? text <;> rfl

theorem controlRegister_moved (s : Statement) (text : Text) :
    controlRegister (s.moved b) text = (controlRegister s text).moved b d id := by
  unfold controlRegister
  cases controlRegister? text <;> rfl

theorem indexed_moved (s : Statement) (text : Text) : indexed (s.moved b) text = (indexed s text).moved b d id := by
  unfold indexed
  cases indexed? text <;> rfl

theorem link_moved (symbols : SymbolTable) (s : Statement) (address : Word) (text : Text) (value : Value)
    (field : Text) : link (symbols.moved b) (s.moved b) (address + d) text (value.moved b) field =
      (link symbols s address text value field).moved b d id := by
  unfold link
  rw [Value.moved_isExternal, Value.moved_isRelocatable, SymbolTable.moved_lookup]
  cases value.isExternal with
  | true =>
    cases symbols.lookup text with
    | none => rfl
    | some binding =>
      simp only [Option.map_some, if_true]
      rw [show (binding.moved b).isImported = binding.isImported from rfl]
      cases binding.isImported <;> rfl
  | false => cases value.isRelocatable <;> rfl

/-- A field smaller than a word has the same value at every base, as it takes no value that moves. -/
theorem constant_moved (symbols : SymbolTable) (s : Statement) (address : Word) (field text : Text) (limit : Word) :
    constant (symbols.moved b) (s.moved b) (address + d) field text limit =
      (constant symbols s address field text limit).moved b d id := by
  unfold constant
  rw [evaluate_moved b d]
  apply bind_moved
  rw [Value.moved_isExternal, Value.moved_isRelocatable]
  cases (evaluate symbols s text).result.isExternal with
  | true =>
    simp only [if_true]
    rw [link_moved]
    exact bind_moved rfl
  | false =>
    cases hr : (evaluate symbols s text).result.isRelocatable with
    | true => rfl
    | false =>
      rw [Value.moved_of_fixed b hr]
      simp only [Bool.false_eq_true, if_false]
      split <;> rfl

end Operands

/-! ## Relocations of an operand -/

theorem evaluateTerm_relocations (symbols : SymbolTable) (s : Statement) (text : Text) :
    (evaluateTerm symbols s text).effects.relocations = [] := by
  unfold evaluateTerm
  split
  · split <;> rfl
  · split <;> rfl
  · split <;> rfl

theorem evaluate_relocations (symbols : SymbolTable) (s : Statement) (text : Text) :
    (evaluate symbols s text).effects.relocations = [] := by
  unfold evaluate
  split
  · exact evaluateTerm_relocations ..
  · simp only [bind_effects, Effects.append_relocations, evaluateTerm_relocations, List.nil_append]
    split <;> rfl
  · rfl

theorem constant_relocations (symbols : SymbolTable) (s : Statement) (address : Word) (field text : Text)
    (limit : Word) : (constant symbols s address field text limit).effects.relocations = [] := by
  unfold constant
  simp only [bind_effects, Effects.append_relocations, evaluate_relocations, List.nil_append]
  split
  · rename_i he
    simp only [link, he, if_true, bind_effects, Effects.append_relocations]
    split
    · split <;> rfl
    · rfl
  · split
    · rfl
    · split <;> rfl

/-- A whole word is relocated exactly if its value moves. -/
theorem wholeWord_relocations {symbols : SymbolTable} (hw : symbols.WF) (s : Statement) (address : Word)
    (field text : Text) : (wholeWord symbols s address field text).effects.relocations =
      if (evaluate symbols s text).result.isRelocatable then [address] else [] := by
  have hp := evaluate_proper hw s text
  unfold wholeWord
  simp only [bind_effects, Effects.append_relocations, evaluate_relocations, List.nil_append, link, pure_effects,
    List.append_nil]
  by_cases he : (evaluate symbols s text).result.isExternal = true
  · rw [if_pos he, hp.not_relocatable he]
    split
    · split <;> rfl
    · rfl
  · rw [if_neg he]
    split <;> rfl

theorem wholeWord_moved (b d : Word) (symbols : SymbolTable) (s : Statement) (address : Word) (field text : Text) :
    (wholeWord (symbols.moved b) (s.moved b) (address + d) field text).effects =
      (wholeWord symbols s address field text).effects.moved b d ∧
    (wholeWord (symbols.moved b) (s.moved b) (address + d) field text).result =
      if (evaluate symbols s text).result.isRelocatable then (wholeWord symbols s address field text).result + b
      else (wholeWord symbols s address field text).result := by
  unfold wholeWord
  rw [evaluate_moved b d]
  refine ⟨?_, rfl⟩
  simp only [bind_effects, pure_effects, Effects.append_empty, Effects.moved_append]
  show _ ++ (link (symbols.moved b) (s.moved b) (address + d) text ((evaluate symbols s text).result.moved b)
    field).effects = _
  rw [link_moved]
  rfl

/-! ## Fields that are filled at two bases -/

theorem Outcome.map_pure_eq {α β : Type} (x : Outcome α) (f : α → β) :
    (x >>= fun a => pure (f a)) = ⟨f x.result, x.effects⟩ :=
  Outcome.ext rfl (by simp)

theorem Statement.moved_address_word (b : Word) (s : Statement) :
    (s.moved b).address.word = s.address.word + s.displacement b := by
  show (if s.address.isRelocatable then s.address.word + b else s.address.word) = _
  unfold displacement
  split
  · rfl
  · exact (UInt16.add_zero _).symm

/-- A field and its value in the module whose base is moved by `b`: it moves if it fills a word that is
relocated. -/
def movePart (b base : Word) (relocations : List Word) (p : Field × Word) : Field × Word :=
  (p.1, if p.1.isWhole = true ∧ base + p.1.position ∈ relocations then p.2 + b else p.2)

theorem movePart_congr {b base : Word} {r r' : List Word} {p : Field × Word}
    (h : p.1.isWhole = true → (base + p.1.position ∈ r ↔ base + p.1.position ∈ r')) :
    movePart b base r p = movePart b base r' p := by
  unfold movePart
  simp only [and_congr_right h]

/-- Two outcomes `x` and `y` that fill the same fields, the second in a module moved by `b` where the
statement at `base` moves by `d`. -/
structure PartsMoved (b base d : Word) (fields : List Field) (x y : Outcome Placement) : Prop where
  effects : y.effects = x.effects.moved b d
  filled : x.result.map Prod.fst = fields
  relocations : ∀ r ∈ x.effects.relocations, ∃ field ∈ fields, field.isWhole = true ∧ r = base + field.position
  parts : y.result = x.result.map (movePart b base x.effects.relocations)

namespace PartsMoved

variable {b base d : Word}

/-- Fields that are filled without a relocation. -/
theorem of_fixed {fields : List Field} {parts : Placement} {e e' : Effects} (hf : parts.map Prod.fst = fields)
    (he : e' = e.moved b d) (hr : e.relocations = []) : PartsMoved b base d fields ⟨parts, e⟩ ⟨parts, e'⟩ := by
  refine ⟨he, hf, ?_, ?_⟩
  · show ∀ r ∈ e.relocations, _
    rw [hr]
    intro r hm
    cases hm
  · show parts = parts.map (movePart b base e.relocations)
    rw [hr]
    unfold movePart
    simp

/-- A relocated word belongs to one field, so what is relocated for some fields is none of those that
are apart from them. -/
theorem notMem_relocations {fields : List Field} {x y : Outcome Placement} (h : PartsMoved b base d fields x y)
    {field : Field} (hw : field.isWhole = true) (ha : ∀ other ∈ fields, field.Apart other) :
    base + field.position ∉ x.effects.relocations := by
  intro hm
  obtain ⟨other, ho, -, he⟩ := h.relocations _ hm
  exact (ha other ho).position_ne hw ((UInt16.add_right_inj _).1 he)

theorem append {fields₁ fields₂ : List Field} {x₁ y₁ x₂ y₂ : Outcome Placement}
    (h₁ : PartsMoved b base d fields₁ x₁ y₁) (h₂ : PartsMoved b base d fields₂ x₂ y₂)
    (ha : ∀ p ∈ fields₁, ∀ q ∈ fields₂, p.Apart q) :
    PartsMoved b base d (fields₁ ++ fields₂) ⟨x₁.result ++ x₂.result, x₁.effects ++ x₂.effects⟩
      ⟨y₁.result ++ y₂.result, y₁.effects ++ y₂.effects⟩ := by
  refine ⟨?_, ?_, ?_, ?_⟩
  · show y₁.effects ++ y₂.effects = (x₁.effects ++ x₂.effects).moved b d
    rw [h₁.effects, h₂.effects, Effects.moved_append]
  · show (x₁.result ++ x₂.result).map Prod.fst = _
    rw [List.map_append, h₁.filled, h₂.filled]
  · intro r hr
    rcases List.mem_append.1 hr with hr | hr
    · obtain ⟨field, hf, hw, he⟩ := h₁.relocations r hr
      exact ⟨field, List.mem_append_left _ hf, hw, he⟩
    · obtain ⟨field, hf, hw, he⟩ := h₂.relocations r hr
      exact ⟨field, List.mem_append_right _ hf, hw, he⟩
  · show y₁.result ++ y₂.result = (x₁.result ++ x₂.result).map _
    rw [List.map_append, h₁.parts, h₂.parts]
    congr 1
    · apply List.map_congr_left
      intro p hp
      have hp₁ : p.1 ∈ fields₁ := h₁.filled ▸ List.mem_map_of_mem hp
      apply movePart_congr
      intro hw
      have hother := h₂.notMem_relocations hw (ha p.1 hp₁)
      simp [hother]
    · apply List.map_congr_left
      intro p hp
      have hp₂ : p.1 ∈ fields₂ := h₂.filled ▸ List.mem_map_of_mem hp
      apply movePart_congr
      intro hw
      have hother := h₁.notMem_relocations hw fun other ho => (ha other ho p.1 hp₂).symm
      simp [hother]

end PartsMoved

section Fields

variable (b : Word) {symbols : SymbolTable} (s : Statement)

/-- A field filled by an expression moves if it is relocated, and it is relocated only as a whole word. -/
theorem fieldValue_moved (hw : symbols.WF) (field : Field) (text : Text) :
    PartsMoved b s.address.word (s.displacement b) [field]
      ⟨[(field, (fieldValue symbols s field text).result)], (fieldValue symbols s field text).effects⟩
      ⟨[(field, (fieldValue (symbols.moved b) (s.moved b) field text).result)],
        (fieldValue (symbols.moved b) (s.moved b) field text).effects⟩ := by
  have haddress : (s.moved b).address.word + field.position =
      s.address.word + field.position + s.displacement b := by
    rw [Statement.moved_address_word, UInt16.add_assoc, UInt16.add_comm (s.displacement b), UInt16.add_assoc]
  unfold fieldValue
  simp only [haddress]
  by_cases hwhole : field.isWhole = true
  · -- a whole word takes any value, and notes a relocation exactly if the value moves
    simp only [hwhole, if_true]
    obtain ⟨heffects, hresult⟩ := wholeWord_moved b (s.displacement b) symbols s (s.address.word + field.position)
      field.name text
    have hr := wholeWord_relocations hw s (s.address.word + field.position) field.name text
    refine ⟨heffects, rfl, ?_, ?_⟩
    · intro r hm
      simp only [hr] at hm
      refine ⟨field, List.mem_cons_self, hwhole, ?_⟩
      split at hm
      · exact List.mem_singleton.1 hm
      · cases hm
    · simp only [List.map_cons, List.map_nil, movePart, hr, hwhole, hresult, true_and]
      cases (evaluate symbols s text).result.isRelocatable <;> simp
  · -- a smaller field takes no value that moves
    simp only [Bool.not_eq_true] at hwhole
    simp only [hwhole, Bool.false_eq_true, if_false]
    rw [constant_moved b (s.displacement b)]
    exact .of_fixed rfl rfl (constant_relocations ..)

theorem placeOperand_moved (hw : symbols.WF) (slot : Slot) (text : Text) (ha : slot.fields.Pairwise Field.Apart) :
    PartsMoved b s.address.word (s.displacement b) slot.fields (placeOperand symbols s slot text)
      (placeOperand (symbols.moved b) (s.moved b) slot text) := by
  cases slot with
  | register field =>
    have hr : (register s text).effects.relocations = [] := by
      unfold register
      split <;> rfl
    simp only [placeOperand, map_pure_eq, register_moved b (s.displacement b) s text]
    exact .of_fixed rfl rfl hr
  | control field =>
    have hr : (controlRegister s text).effects.relocations = [] := by
      unfold controlRegister
      split <;> rfl
    simp only [placeOperand, map_pure_eq, controlRegister_moved b (s.displacement b) s text]
    exact .of_fixed rfl rfl hr
  | value field =>
    simp only [placeOperand, map_pure_eq]
    exact fieldValue_moved b s hw field text
  | indexed index field =>
    have hr : (indexed s text).effects.relocations = [] := by
      unfold indexed
      split <;> rfl
    have hplace : ∀ (symbols : SymbolTable) (s : Statement), placeOperand symbols s (.indexed index field) text =
        ⟨[(index, (indexed s text).result.2)] ++
            [(field, (fieldValue symbols s field (indexed s text).result.1).result)],
          (indexed s text).effects ++ (fieldValue symbols s field (indexed s text).result.1).effects⟩ := by
      intro symbols s
      exact Outcome.ext rfl (by simp [placeOperand])
    rw [hplace, hplace, indexed_moved b (s.displacement b) s text]
    have hindex : PartsMoved b s.address.word (s.displacement b) [index]
        ⟨[(index, (indexed s text).result.2)], (indexed s text).effects⟩
        ⟨[(index, (indexed s text).result.2)], (indexed s text).effects.moved b (s.displacement b)⟩ :=
      .of_fixed rfl rfl hr
    exact hindex.append (fieldValue_moved b s hw field _) (by simpa [Slot.fields] using ha)

theorem placeOperands_moved (hw : symbols.WF) : ∀ (slots : List Slot) (texts : List Text),
    slots.length = texts.length → (slots.flatMap Slot.fields).Pairwise Field.Apart →
      PartsMoved b s.address.word (s.displacement b) (slots.flatMap Slot.fields)
        (placeOperands symbols s slots texts) (placeOperands (symbols.moved b) (s.moved b) slots texts)
  | [], [], _, _ => .of_fixed rfl rfl rfl
  | slot :: slots, text :: texts, hlen, ha => by
    rw [List.flatMap_cons, List.pairwise_append] at ha
    obtain ⟨hslot, hslots, hacross⟩ := ha
    have ih := placeOperands_moved hw slots texts (Nat.succ.inj hlen) hslots
    have hplace : ∀ (symbols : SymbolTable) (s : Statement), placeOperands symbols s (slot :: slots) (text :: texts) =
        ⟨(placeOperand symbols s slot text).result ++ (placeOperands symbols s slots texts).result,
          (placeOperand symbols s slot text).effects ++ (placeOperands symbols s slots texts).effects⟩ := by
      intro symbols s
      exact Outcome.ext rfl (by simp [placeOperands])
    rw [hplace, hplace, List.flatMap_cons]
    exact (placeOperand_moved b s hw slot text hslot).append ih hacross

end Fields

/-! ## Words that are packed at two bases -/

theorem Field.place_whole {field : Field} (h : field.isWhole = true) (w : Word) : field.place w = w := by
  have hlimit : field.limit = 0xFFFF := by simpa [isWhole] using h
  have hshift : field.shift = 0 := by
    revert h
    cases field <;> decide
  unfold place
  rw [hlimit, hshift]
  show (w &&& -1) <<< 0 = w
  simp

/-- In the word of a field that fills it there is no other field. -/
theorem filter_whole {parts : Placement} (ha : (parts.map Prod.fst).Pairwise Field.Apart) {field : Field}
    (hf : field ∈ parts.map Prod.fst) (hw : field.isWhole = true) :
    ∃ w, parts.filter (fun p => p.1.position.toNat == field.position.toNat) = [(field, w)] := by
  obtain ⟨⟨field', w⟩, hp, rfl⟩ := List.mem_map.1 hf
  obtain ⟨before, after, rfl⟩ := List.append_of_mem hp
  rw [List.map_append, List.map_cons, List.pairwise_append, List.pairwise_cons] at ha
  obtain ⟨-, ⟨hafter, -⟩, hbefore⟩ := ha
  refine ⟨w, ?_⟩
  rw [List.filter_append, List.filter_cons_of_pos (by simp), List.filter_eq_nil_iff.2, List.filter_eq_nil_iff.2]
  · rfl
  · intro p hp he
    have hne := (hafter p.1 (List.mem_map_of_mem hp)).position_ne hw
    exact hne (UInt16.toNat_inj.1 (by simpa using he)).symm
  · intro p hp he
    have hne := (hbefore p.1 (List.mem_map_of_mem hp) field' List.mem_cons_self).symm.position_ne hw
    exact hne (UInt16.toNat_inj.1 (by simpa using he)).symm

theorem pack_whole {field : Field} (h : field.isWhole = true) (w : Word) : Word.pack [(field, w)] = w := by
  show field.place w ||| 0 = w
  rw [field.place_whole h, UInt16.or_zero]

/-- A word moves exactly if it is relocated. -/
theorem packAll_moved {b base d : Word} {fields : List Field} {x y : Outcome Placement}
    (h : PartsMoved b base d fields x y) (ha : fields.Pairwise Field.Apart) {size : Nat} (hs : size ≤ 65536) (i : Nat) :
    (Word.packAll size y.result)[i]? = (Word.packAll size x.result)[i]?.map
      fun w => if base + .ofNat i ∈ x.effects.relocations then w + b else w := by
  unfold Word.packAll
  rw [List.getElem?_map, List.getElem?_map]
  by_cases hi : i < size
  · have hfilter : y.result.filter (fun p => p.1.position.toNat == i) =
        (x.result.filter fun p => p.1.position.toNat == i).map (movePart b base x.effects.relocations) := by
      rw [h.parts, List.filter_map]
      rfl
    rw [List.getElem?_range hi, Option.map_some, Option.map_some, Option.map_some, hfilter]
    congr 1
    by_cases hr : base + .ofNat i ∈ x.effects.relocations
    · -- a relocated word is one field, and this field moves
      obtain ⟨field, hf, hw, he⟩ := h.relocations _ hr
      have hposition : field.position.toNat = i := by
        rw [← (UInt16.add_right_inj _).1 he]
        exact UInt16.toNat_ofNat_of_lt' (Nat.lt_of_lt_of_le hi hs)
      obtain ⟨w, hx⟩ := filter_whole (h.filled ▸ ha) (h.filled ▸ hf) hw
      rw [hposition] at hx
      rw [if_pos hr, hx, List.map_singleton, pack_whole hw, movePart, pack_whole hw, if_pos ⟨hw, he ▸ hr⟩]
    · -- no field of the word moves
      have hstay : ∀ p ∈ x.result.filter (fun p => p.1.position.toNat == i),
          movePart b base x.effects.relocations p = id p := by
        intro p hp
        have hposition : p.1.position = .ofNat i := by
          rw [← eq_of_beq (List.mem_filter.1 hp).2, UInt16.ofNat_toNat]
        unfold movePart
        rw [if_neg fun hm => hr (hposition ▸ hm.2)]
        rfl
      rw [if_neg hr, List.map_congr_left hstay, List.map_id]
  · have hnone : (List.range size)[i]? = none := by
      rw [List.getElem?_eq_none]
      simpa using hi
    rw [hnone]
    rfl

/-! ## Code at two bases -/

/-- Two outcomes that are the code of one statement at `base`, the second in a module moved by `b` where
the statement moves by `d`. -/
structure CodeMoved (b base d : Word) (x y : Outcome (List Word)) : Prop where
  effects : y.effects = x.effects.moved b d
  words : ∀ i, y.result[i]? = x.result[i]?.map fun w => if base + .ofNat i ∈ x.effects.relocations then w + b else w

/-- Words without a relocation are the same at every base. -/
theorem CodeMoved.of_fixed {b base d : Word} (words : List Word) {e e' : Effects} (he : e' = e.moved b d)
    (hr : e.relocations = []) : CodeMoved b base d ⟨words, e⟩ ⟨words, e'⟩ := by
  refine ⟨he, fun i => ?_⟩
  show words[i]? = words[i]?.map fun w => if base + .ofNat i ∈ e.relocations then w + b else w
  rw [hr]
  simp

section Code

variable (b : Word) {symbols : SymbolTable}

theorem encodeWords_moved (hw : symbols.WF) (s : Statement) {shape : Shape} (hs : shape.Separate)
    (hsize : shape.size ≤ 65536) (hopcode : shape.opcode.length = s.operation.opcode.length) :
    CodeMoved b s.address.word (s.displacement b) (encodeWords symbols s shape)
      (encodeWords (symbols.moved b) (s.moved b) shape) := by
  unfold encodeWords
  rw [Statement.moved_operands, Statement.moved_operation]
  by_cases hcount : s.operands.length = shape.slots.length
  · simp only [hcount, if_true, map_pure_eq]
    -- the fields of the opcode are filled first, without a relocation, and apart from those of the operands
    obtain ⟨hfields, -⟩ := hs
    obtain ⟨-, hslots, hacross⟩ := List.pairwise_append.1 hfields
    have hhead : PartsMoved b s.address.word (s.displacement b) shape.opcode
        ⟨shape.opcode.zip s.operation.opcode, {}⟩ ⟨shape.opcode.zip s.operation.opcode, {}⟩ :=
      .of_fixed (List.map_fst_zip (Nat.le_of_eq hopcode)) rfl rfl
    have hparts := placeOperands_moved b s hw shape.slots s.operands hcount.symm hslots
    refine ⟨hparts.effects, fun i => ?_⟩
    have hwords := packAll_moved (hhead.append hparts hacross) hfields hsize i
    rw [Effects.empty_append] at hwords
    exact hwords
  · simp only [hcount, if_false]
    exact .of_fixed _ rfl rfl

theorem exportName_moved (d : Word) (s : Statement) (name : Text) :
    exportName (symbols.moved b) (s.moved b) name = (exportName symbols s name).moved b d id := by
  unfold exportName
  rw [SymbolTable.moved_lookup]
  split
  · cases symbols.lookup name <;> rfl
  · rfl

theorem exportNames_moved (d : Word) (s : Statement) : ∀ names : List Text,
    exportNames (symbols.moved b) (s.moved b) names = (exportNames symbols s names).moved b d id
  | [] => rfl
  | name :: names => by
    unfold exportNames
    rw [exportName_moved b d, exportNames_moved d s names]
    exact bind_moved rfl

theorem exportNames_relocations (s : Statement) : ∀ names : List Text,
    (exportNames symbols s names).effects.relocations = []
  | [] => rfl
  | name :: names => by
    unfold exportNames exportName
    rw [bind_effects, Effects.append_relocations, exportNames_relocations s names, List.append_nil]
    split
    · split <;> rfl
    · rfl

/-- The code of a statement moves in the words that it relocates, and in no others. -/
theorem encode_moved (hw : symbols.WF) {s : Statement} (hk : s.operation.Known) :
    CodeMoved b s.address.word (s.displacement b) (encode symbols s) (encode (symbols.moved b) (s.moved b)) := by
  obtain ⟨encoding, he, hf⟩ := hk.encoding
  unfold encode
  rw [Statement.moved_operation, he]
  cases encoding with
  | nothing | origin => exact .of_fixed [] rfl rfl
  | words shape =>
    obtain ⟨-, hsize, hopcode, hs⟩ := hf
    exact encodeWords_moved b hw s hs (hsize ▸ Nat.le_of_lt (UInt16.toNat_lt _)) hopcode
  | exports =>
    simp only [Statement.moved_operands]
    by_cases hempty : s.operands.isEmpty = true
    · simp only [hempty, if_true]
      exact .of_fixed [] rfl rfl
    · simp only [hempty]
      rw [exportNames_moved b (s.displacement b)]
      refine CodeMoved.of_fixed [] ?_ ?_
      · simp [Outcome.moved]
      · simp [exportNames_relocations]

end Code

/-! ## A module at two bases -/

/-- The module assembled from a base of its own. -/
def assembleAt (base : Word) (name source : Text) : Assembly :=
  (Assembly.ofSource { Context.initial name with counter := .relocatable base } source).generate

theorem Context.initial_moved (b : Word) (name : Text) :
    { Context.initial name with counter := .relocatable b } = (Context.initial name).moved b := by
  have hb : (Value.relocatable 0).moved b = .relocatable b := by
    show Value.mk (0 + b) .loc .rel = _
    rw [UInt16.zero_add]
    rfl
  unfold moved
  rw [show (Context.initial name).counter.moved b = _ from hb]
  rfl

/-- One statement in a module and in the module moved by `b`: `relocations` are the addresses of the words
that the first says to move. -/
structure Statement.MovedBy (b : Word) (relocations : List Word) (s t : Statement) : Prop where
  /-- The same reports, with the values that they quote moved. -/
  errors : t.errors = s.errors.map (·.moved b)
  /-- The reports stand at the same places and are of the same types. -/
  reports : t.errors.map (fun e => (e.position, e.cause.ctorIdx)) = s.errors.map fun e => (e.position, e.cause.ctorIdx)
  address : t.address = s.address.moved b
  orgAddress : t.orgAddress = s.orgAddress.map (·.moved b)
  length : t.code.length = s.code.length
  code : ∀ (j : Nat) (w : Word), s.code[j]? = some w →
    t.code[j]? = some (if s.address.word + .ofNat j ∈ relocations then w + b else w)

namespace Assembly

variable (b : Word)

theorem ofSource_moved (c : Context) (source : Text) :
    (ofSource (c.moved b) source).toContext = (ofSource c source).toContext.moved b ∧
    (ofSource (c.moved b) source).statements = (ofSource c source).statements.map (·.moved b) := by
  unfold ofSource
  rw [layOut_moved]
  exact ⟨rfl, rfl⟩

variable {a a' : Assembly}

theorem LaidOut.encode_moved (h : a.LaidOut) {s : Statement} (hs : s ∈ a.statements)
    (hsymbols : a'.symbols = a.symbols.moved b) :
    CodeMoved b s.address.word (s.displacement b) (encode a.symbols s) (encode a'.symbols (s.moved b)) := by
  rw [hsymbols]
  exact Sigma16.encode_moved b h.wf.symbols (h.statements s hs).1

/-- A statement with its code, at both bases. -/
theorem LaidOut.code_movedBy (h : a.LaidOut) {s : Statement} (hs : s ∈ a.statements)
    (hsymbols : a'.symbols = a.symbols.moved b) :
    (a.code s).MovedBy b (encode a.symbols s).effects.relocations (a'.code (s.moved b)) := by
  obtain ⟨heffects, hwords⟩ := h.encode_moved b hs hsymbols
  have hcode : (a.code s).code = (encode a.symbols s).result := h.code_eq hs
  have hcode' : (a'.code (s.moved b)).code = (encode a'.symbols (s.moved b)).result := by
    show s.code ++ _ = _
    rw [(h.statements s hs).2.2.1, List.nil_append]
  have herrors : (a'.code (s.moved b)).errors = (a.code s).errors.map (·.moved b) := by
    show (s.moved b).errors ++ (encode a'.symbols (s.moved b)).effects.errors =
      (s.errors ++ (encode a.symbols s).effects.errors).map _
    rw [heffects, List.map_append]
    rfl
  refine ⟨herrors, ?_, rfl, rfl, ?_, ?_⟩
  · rw [herrors, List.map_map]
    apply List.map_congr_left
    intro e _
    exact Prod.ext rfl (Cause.moved_ctorIdx b e.cause)
  · obtain ⟨hk, hz, -⟩ := h.statements s hs
    rw [hcode, hcode', encode_length a.symbols hk hz]
    exact encode_length a'.symbols (s := s.moved b) hk hz
  · intro j w hw
    rw [hcode] at hw
    rw [hcode', hwords, hw]
    rfl

/-- The names of the module are bound alike at both bases: the uses that are noted while statements are
encoded do not depend on the base. -/
theorem LaidOut.symbols_moved (h : a.LaidOut) (hsymbols : a'.symbols = a.symbols.moved b)
    (hstatements : a'.statements = a.statements.map (·.moved b)) :
    a'.generate.symbols = a.generate.symbols.moved b := by
  have hrun : ∀ (ss : List Statement) (t : SymbolTable), (∀ s ∈ ss, s ∈ a.statements) →
      (ss.map (·.moved b)).foldl
        (fun symbols s => symbols.useAll s.line (encode a'.symbols s).effects.uses) (t.moved b) =
      (ss.foldl (fun symbols s => symbols.useAll s.line (encode a.symbols s).effects.uses) t).moved b := by
    intro ss
    induction ss with
    | nil => intro t _; rfl
    | cons s ss ih =>
      intro t hss
      have huses : (encode a'.symbols (s.moved b)).effects.uses = (encode a.symbols s).effects.uses := by
        rw [(h.encode_moved b (hss s List.mem_cons_self) hsymbols).effects]
        rfl
      rw [List.map_cons, List.foldl_cons, List.foldl_cons, huses, Statement.moved_line, SymbolTable.moved_useAll]
      exact ih _ fun s' hs' => hss s' (List.mem_cons_of_mem _ hs')
  rw [generate_symbols, generate_symbols, hstatements, ← hrun a.statements a.symbols fun _ hs => hs, ← hsymbols]

theorem LaidOut.exports_moved (h : a.LaidOut) (hsymbols : a'.symbols = a.symbols.moved b)
    (hstatements : a'.statements = a.statements.map (·.moved b)) (he : a.exports = []) (he' : a'.exports = []) :
    a'.generate.exports = a.generate.exports.map (·.moved b) := by
  have hitems : ∀ s ∈ a.statements, (encode a'.symbols (s.moved b)).effects.exports =
      (encode a.symbols s).effects.exports.map (·.moved b) := by
    intro s hs
    rw [(h.encode_moved b hs hsymbols).effects]
    rfl
  rw [generate_exports, generate_exports, he, he', hstatements, List.nil_append, List.nil_append, List.flatMap_map,
    List.map_flatMap, List.flatMap_def, List.flatMap_def, List.map_congr_left hitems]

end Assembly

/-- Relocations are sound and complete. The module assembled from the base `b` is the module assembled
from 0 with every address and every value moved by `b` that moves with the module, with the same reports,
and with the same words, but for those that the encoding of their statement says to relocate, which
are greater by `b`. -/
theorem assembleAt_moved (b : Word) (name source : Text) :
    let a := Assembly.ofSource (.initial name) source
    let x := assemble name source
    let y := assembleAt b name source
    (x.statements.length = a.statements.length ∧ y.statements.length = a.statements.length) ∧
    (∀ (i : Nat) (s : Statement), a.statements[i]? = some s →
      ∃ t u, x.statements[i]? = some t ∧ y.statements[i]? = some u ∧
        t.MovedBy b (encode a.symbols s).effects.relocations u) ∧
    x.relocations = a.statements.flatMap (fun s => (encode a.symbols s).effects.relocations) ∧
    y.symbols = x.symbols.moved b ∧ y.exports = x.exports.map (·.moved b) := by
  unfold assembleAt
  rw [Context.initial_moved]
  intro a x y
  have h : a.LaidOut := ofSource_laidOut (Context.initial_wf name) source
  obtain ⟨hcontext, hstatements⟩ := Assembly.ofSource_moved b (Context.initial name) source
  have hsymbols : (Assembly.ofSource ((Context.initial name).moved b) source).symbols = a.symbols.moved b :=
    congrArg Context.symbols hcontext
  have hx : x.statements = a.statements.map a.code := Assembly.generate_statements a
  have hy : y.statements = a.statements.map fun s =>
      (Assembly.ofSource ((Context.initial name).moved b) source).code (s.moved b) := by
    rw [show y.statements = _ from Assembly.generate_statements _, hstatements, List.map_map]
    rfl
  refine ⟨⟨?_, ?_⟩, ?_, Assembly.generate_relocations a, h.symbols_moved b hsymbols hstatements,
    h.exports_moved b hsymbols hstatements rfl rfl⟩
  · rw [hx, List.length_map]
  · rw [hy, List.length_map]
  · intro i s hs
    refine ⟨a.code s, _, ?_, ?_, h.code_movedBy b (List.mem_of_getElem? hs) hsymbols⟩
    · rw [hx, List.getElem?_map, hs]
      rfl
    · rw [hy, List.getElem?_map, hs]
      rfl

def addressWords : Text := " load R1,x[R0]\nx data 5\ny equ x+1\n data y"

set_option maxRecDepth 4000 in
/-- A word of data that is the address of a word, at two bases that differ by -1: the word is relocated. -/
theorem assembleAt_moved_word : ∃ s t u : Statement,
    (Assembly.ofSource (.initial []) addressWords).statements[3]? = some s ∧
    (assemble [] addressWords).statements[3]? = some t ∧
    (assembleAt 0xffff [] addressWords).statements[3]? = some u ∧
    t.code = [3] ∧ u.code = [2] ∧ t.MovedBy 0xffff [3] u := by
  obtain ⟨-, hstatements, -⟩ := assembleAt_moved 0xffff [] addressWords
  have hlaid : (Assembly.ofSource (.initial []) addressWords).statements[3]?.map (fun s =>
      (encode (Assembly.ofSource (.initial []) addressWords).symbols s).effects.relocations) = some [3] := by
    decide +kernel
  have hcode : (assemble [] addressWords).statements[3]?.map (·.code) = some [3] := by decide +kernel
  have hmoved : (assembleAt 0xffff [] addressWords).statements[3]?.map (·.code) = some [2] := by decide +kernel
  obtain ⟨s, hs, hr⟩ := Option.map_eq_some_iff.1 hlaid
  obtain ⟨t, u, ht, hu, h⟩ := hstatements 3 s hs
  rw [ht] at hcode
  rw [hu] at hmoved
  rw [hr] at h
  exact ⟨s, t, u, hs, ht, hu, Option.some.inj hcode, Option.some.inj hmoved, h⟩

end Sigma16
