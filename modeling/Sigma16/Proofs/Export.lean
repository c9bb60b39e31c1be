/-
What a module offers to others. An `export` statement offers each of its operands that is bound in the module, wherever
the line that binds it stands, and no other statement offers anything. A record has the word and the movability of the
binding and nothing else, and every bound name is offered: also one that stands for a word of another module, whose
record reads as the number zero of this one.
-/
import Sigma16.Proofs.Alias
import Sigma16.Proofs.ObjectFile

namespace Sigma16

open Outcome

/-! ## Offers of a statement -/

/-- What is offered of a name under the bindings of a table: nothing, unless it is bound. -/
def SymbolTable.export? (t : SymbolTable) (name : Text) : Option Export :=
  (t.lookup name).map fun b => ⟨name, b.value⟩

/-- The offers of a statement under the bindings of a table. -/
def Statement.offers (s : Statement) (t : SymbolTable) : List Export :=
  if s.operation.directive? = some .exportNames then s.operands.filterMap t.export? else []

/-- Uses do not change what is offered. -/
theorem SymbolTable.export?_eq (t : SymbolTable) (name : Text) :
    t.export? name = (t.binding? name).map fun b => ⟨name, b.value⟩ := by
  unfold export? binding?
  rw [Option.map_map]
  rfl

/-- Exactly the `export` statements are encoded as such. -/
theorem Operation.Known.exports_iff {op : Operation} (h : op.Known) :
    op.encoding? = some .exports ↔ op.directive? = some .exportNames := by
  have table_agrees : ∀ op ∈ empty :: table, op.encoding? = some .exports ↔ op.directive? = some .exportNames := by
    decide
  exact table_agrees op h

section Operands

variable (symbols : SymbolTable) (s : Statement)

theorem evaluateTerm_exports (text : Text) : (evaluateTerm symbols s text).effects.exports = [] := by
  unfold evaluateTerm
  split
  · split <;> rfl
  · split <;> rfl
  · split <;> rfl

theorem evaluate_exports (text : Text) : (evaluate symbols s text).effects.exports = [] := by
  unfold evaluate
  split
  · exact evaluateTerm_exports symbols s _
  · simp only [bind_effects, Effects.append_exports, evaluateTerm_exports, List.nil_append]
    split <;> rfl
  · rfl

theorem link_exports (address : Word) (text : Text) (value : Value) (field : Text) :
    (link symbols s address text value field).effects.exports = [] := by
  unfold link
  split
  · split
    · split <;> rfl
    · rfl
  · split <;> rfl

theorem fieldValue_exports (field : Field) (text : Text) :
    (fieldValue symbols s field text).effects.exports = [] := by
  unfold fieldValue wholeWord constant
  dsimp only
  split
  · simp only [bind_effects, Effects.append_exports, evaluate_exports, link_exports]
    rfl
  · simp only [bind_effects, Effects.append_exports, evaluate_exports, List.nil_append]
    split
    · simp only [bind_effects, Effects.append_exports, link_exports]
      rfl
    · split
      · rfl
      · split <;> rfl

theorem placeOperand_exports (slot : Slot) (text : Text) :
    (placeOperand symbols s slot text).effects.exports = [] := by
  have hregister : (register s text).effects.exports = [] := by unfold register; split <;> rfl
  have hcontrol : (controlRegister s text).effects.exports = [] := by unfold controlRegister; split <;> rfl
  have hindexed : (indexed s text).effects.exports = [] := by unfold indexed; split <;> rfl
  cases slot with
  | register field => simp [placeOperand, hregister]
  | control field => simp [placeOperand, hcontrol]
  | value field => simp [placeOperand, fieldValue_exports]
  | indexed index field => simp [placeOperand, hindexed, fieldValue_exports]

theorem placeOperands_exports : ∀ (slots : List Slot) (texts : List Text),
    (placeOperands symbols s slots texts).effects.exports = []
  | [], _ => rfl
  | _ :: _, [] => rfl
  | slot :: slots, text :: texts => by
    simp [placeOperands, placeOperand_exports, placeOperands_exports slots texts]

variable {symbols} (hw : symbols.WF)

include hw

theorem exportName_exports (name : Text) :
    (exportName symbols s name).effects.exports = (symbols.export? name).toList := by
  unfold exportName SymbolTable.export?
  cases hb : symbols.lookup name with
  | none => split <;> rfl
  | some b =>
    -- only names are bound
    have hname : (b.name == name) = true := List.find?_some (p := fun b : Binding => b.name == name) hb
    have hvalid : Text.isName name = true := beq_iff_eq.1 hname ▸ (hw.lookup hb).name
    rw [if_pos hvalid]
    rfl

theorem exportNames_exports : ∀ names : List Text,
    (exportNames symbols s names).effects.exports = names.filterMap symbols.export?
  | [] => rfl
  | name :: names => by
    rw [exportNames, bind_effects, Effects.append_exports, exportName_exports s hw, exportNames_exports names,
      List.filterMap_cons]
    cases symbols.export? name <;> rfl

/-- Encoding a statement offers the operands of an `export` that are bound. -/
theorem encode_exports (hk : s.operation.Known) : (encode symbols s).effects.exports = s.offers symbols := by
  unfold Statement.offers
  by_cases hexports : s.operation.encoding? = some .exports
  · rw [if_pos (hk.exports_iff.1 hexports)]
    unfold encode
    rw [hexports]
    simp only [List.isEmpty_iff]
    split
    · rename_i hnone
      rw [hnone]
      rfl
    · rw [bind_effects, Effects.append_exports, exportNames_exports s hw]
      exact List.append_nil _
  · rw [if_neg fun h => hexports (hk.exports_iff.2 h)]
    unfold encode encodeWords
    split
    · rfl
    · rfl
    · split
      · rw [bind_effects, Effects.append_exports, placeOperands_exports]
        rfl
      · rfl
    · exact absurd ‹_› hexports
    · rfl

end Operands

/-! ## Offers of a module -/

namespace Assembly

variable {name source : Text}

/-- A module offers what its statements offer under its final bindings. -/
theorem assemble_offers (name source : Text) : (assemble name source).exports =
    (assemble name source).statements.flatMap (·.offers (assemble name source).symbols) := by
  have hlaidOut := ofSource_laidOut (Context.initial_wf name) source
  have hoffers (s : Statement) : s.offers (assemble name source).symbols =
      s.offers (ofSource (.initial name) source).symbols := by
    have hexport (n : Text) : (assemble name source).symbols.export? n =
        (ofSource (.initial name) source).symbols.export? n := by
      rw [SymbolTable.export?_eq, SymbolTable.export?_eq, assemble_binding?,
        contextAfter_all name source (Nat.le_refl _)]
    unfold Statement.offers
    rw [funext hexport]
  simp only [hoffers]
  unfold assemble
  rw [generate_exports, generate_statements, List.flatMap_map, List.flatMap_def, List.flatMap_def,
    List.map_congr_left fun s hs => encode_exports s hlaidOut.wf.symbols (hlaidOut.statements s hs).1]
  rfl

/-- The export records of a module are its offers. -/
theorem exported_mem_records {item : Export} :
    Record.exported item ∈ (assemble name source).records ↔ item ∈ (assemble name source).exports := by
  constructor
  · intro h
    rcases mem_generate_records rfl rfl rfl h with h | ⟨_, _, h⟩ | ⟨_, h⟩ | ⟨_, h⟩ | ⟨s, hs, _, hitem, h⟩ |
      ⟨_, _, _, _, h⟩
    all_goals cases h
    unfold assemble
    rw [generate_exports]
    exact List.mem_append_right _ (List.mem_flatMap.2 ⟨s, hs, hitem⟩)
  · intro h
    unfold assemble at h ⊢
    rw [generate_records]
    exact List.mem_append_left _ (List.mem_append_right _ (List.mem_map_of_mem h))

/-- What is offered, name by name: the bound operands of `export` statements, with the values of their bindings. -/
theorem mem_exports {item : Export} : item ∈ (assemble name source).exports ↔
    ∃ s ∈ (assemble name source).statements, s.operation.directive? = some .exportNames ∧ item.name ∈ s.operands ∧
      ∃ b, (assemble name source).symbols.lookup item.name = some b ∧ item.value = b.value := by
  rw [assemble_offers, List.mem_flatMap]
  constructor
  · rintro ⟨s, hs, h⟩
    unfold Statement.offers at h
    split at h
    · rename_i hd
      obtain ⟨n, hn, h⟩ := List.mem_filterMap.1 h
      obtain ⟨b, hb, rfl⟩ := Option.map_eq_some_iff.1 h
      exact ⟨s, hs, hd, hn, b, hb, rfl⟩
    · cases h
  · rintro ⟨s, hs, hd, hn, b, hb, hvalue⟩
    refine ⟨s, hs, ?_⟩
    unfold Statement.offers
    rw [if_pos hd]
    refine List.mem_filterMap.2 ⟨item.name, hn, ?_⟩
    unfold SymbolTable.export?
    rw [hb, Option.map_some, ← hvalue]

/-! ## Names of other modules -/

/-- Does a name stand for a word of another module? It is then bound by an import, or by an `equ` that leads to one. -/
def IsForeign (a : Assembly) (n : Text) : Prop :=
  ∃ i s moduleName foreignName, a.BoundAt n i s ∧ a.LeadsTo moduleName foreignName i

/-- A name is bound to a placeholder exactly if it stands for a word of another module. -/
theorem isExternal_iff {n : Text} {b : Binding} (hb : (assemble name source).symbols.lookup n = some b) :
    b.value.isExternal = true ↔ (assemble name source).IsForeign n := by
  obtain ⟨i, s, hs, hnew⟩ := assemble_boundAt hb
  constructor
  · intro hexternal
    exact ⟨i, s, _, _, hs, newBinding_leadsTo hs hnew hexternal⟩
  · rintro ⟨j, t, moduleName, foreignName, ht, hroot⟩
    obtain rfl := hs.unique ht
    have hplaceholder : b.value = .external := (hroot.newBinding hs.statement hnew).1
    rw [hplaceholder]
    rfl

theorem IsForeign.bound {n : Text} (h : (assemble name source).IsForeign n) :
    ∃ b, (assemble name source).symbols.lookup n = some b := by
  obtain ⟨i, s, -, -, hs, -⟩ := h
  rw [← Option.isSome_iff_exists, ← Option.ne_none_iff_isSome, ne_eq, assemble_lookup_eq_none]
  exact fun hfree => hfree s (List.mem_of_getElem? hs.statement) hs.defines

/-- No placeholder is offered exactly if no `export` statement names a word of another module. -/
theorem exports_local_iff : (∀ item ∈ (assemble name source).exports, item.value.isExternal = false) ↔
    ∀ s ∈ (assemble name source).statements, s.operation.directive? = some .exportNames →
      ∀ n ∈ s.operands, ¬ (assemble name source).IsForeign n := by
  constructor
  · intro hlocal s hs hd n hn hforeign
    obtain ⟨b, hb⟩ := hforeign.bound
    have hoffered : b.value.isExternal = false := hlocal ⟨n, b.value⟩ (mem_exports.2 ⟨s, hs, hd, hn, b, hb, rfl⟩)
    rw [(isExternal_iff hb).2 hforeign] at hoffered
    cases hoffered
  · intro hnone item hitem
    obtain ⟨s, hs, hd, hn, b, hb, hvalue⟩ := mem_exports.1 hitem
    rw [hvalue, Bool.eq_false_iff]
    exact fun hexternal => hnone s hs hd _ hn ((isExternal_iff hb).1 hexternal)

/-- What the export records of a module say. They are the offers of its `export` statements, in order: one for each
operand that is bound in the module. A record has the word of the binding, and is marked relocatable exactly if the
binding is. The binding is a placeholder exactly if the name stands for a word of another module, and its record is then
that of the number zero. So a module offers no placeholder exactly if no `export` statement of it has such a name. -/
theorem assemble_exports_bindings (name source : Text) :
    let a := assemble name source
    a.exports = a.statements.flatMap (·.offers a.symbols) ∧
    (∀ item, Record.exported item ∈ a.records ↔ item ∈ a.exports) ∧
    (∀ item ∈ a.exports, ∃ b, a.symbols.lookup item.name = some b ∧ item.value = b.value ∧
      ObjectFile.export? (Record.exported item).text = some (item.name, b.value.word, b.value.isRelocatable) ∧
      (b.value.isExternal = true ↔ a.IsForeign item.name) ∧
      (b.value.isExternal = true → (Record.exported item).text = (Record.exported ⟨item.name, .const 0⟩).text)) ∧
    ((∀ item ∈ a.exports, item.value.isExternal = false) ↔
      ∀ s ∈ a.statements, s.operation.directive? = some .exportNames → ∀ n ∈ s.operands, ¬ a.IsForeign n) := by
  refine ⟨assemble_offers name source, fun item => exported_mem_records, fun item hitem => ?_, exports_local_iff⟩
  obtain ⟨-, -, -, -, b, hb, hvalue⟩ := mem_exports.1 hitem
  obtain ⟨_, _, hs, -⟩ := assemble_boundAt hb
  refine ⟨b, hb, hvalue, ?_, isExternal_iff hb, fun hexternal => ?_⟩
  · rw [← hvalue]
    exact ObjectFile.export?_text hs.defines.valid
  · rcases ((assemble_symbols_wf name source).lookup hb).proper with hlocal | hplaceholder
    · rw [hlocal.not_external] at hexternal
      cases hexternal
    · obtain ⟨n, value⟩ := item
      obtain rfl : value = .external := hvalue.trans hplaceholder
      rfl

set_option maxRecDepth 4000 in
/-- An `export` that stands before its names are bound, of an alias of an import and of an address. -/
theorem assemble_exports_bindings_alias :
    (assemble "m" " export y,z\nx import lib,f\ny equ x\nz data 5").IsForeign "y" ∧
    (Record.exported ⟨"y", .external⟩).text = (Record.exported ⟨"y", .const 0⟩).text ∧
    ¬ (assemble "m" " export y,z\nx import lib,f\ny equ x\nz data 5").IsForeign "z" ∧
    ObjectFile.export? (Record.exported ⟨"z", .relocatable 0⟩).text = some (Text.ofString "z", 0, true) := by
  obtain ⟨-, -, hitems, -⟩ := assemble_exports_bindings "m" " export y,z\nx import lib,f\ny equ x\nz data 5"
  have hexports : (assemble "m" " export y,z\nx import lib,f\ny equ x\nz data 5").exports =
      [⟨"y", .external⟩, ⟨"z", .relocatable 0⟩] := by decide +kernel
  rw [hexports] at hitems
  obtain ⟨b, -, hvalue, -, hforeign, htext⟩ := hitems ⟨"y", .external⟩ List.mem_cons_self
  obtain ⟨c, -, hother, hread, hlocal, -⟩ :=
    hitems ⟨"z", .relocatable 0⟩ (List.mem_cons_of_mem _ List.mem_cons_self)
  rw [← hvalue] at hforeign htext
  rw [← hother] at hread hlocal
  exact ⟨hforeign.1 rfl, htext rfl, fun h => absurd (hlocal.2 h) (by decide), hread⟩

def importsOffered : Text := "x import lib,f\ny equ x\n export x,y"

set_option maxRecDepth 4000 in
/-- A run without errors that offers an import and an alias of it: the linker reads two numbers. -/
theorem assemble_exports_placeholder :
    (assemble "m" importsOffered).errorCount = 0 ∧
    (∀ item ∈ (assemble "m" importsOffered).exports, ∃ b,
      (assemble "m" importsOffered).symbols.lookup item.name = some b ∧ b.value.isExternal = true) ∧
    (assemble "m" importsOffered).objectText =
      "module   m\nexport   x,0000,fixed\nexport   y,0000,fixed\n" := by
  have hexternal : ∀ item ∈ (assemble "m" importsOffered).exports,
      ((assemble "m" importsOffered).symbols.lookup item.name).any (·.value.isExternal) = true := by decide +kernel
  refine ⟨by decide +kernel, fun item hitem => ?_, by decide +kernel⟩
  exact Option.any_eq_true _ _ |>.1 (hexternal item hitem)

end Assembly

end Sigma16
