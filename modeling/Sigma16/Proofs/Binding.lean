/-
Values and symbol tables as the assembler builds them. A value is a word of the module or the
placeholder for a word of another one; a sum is always a word of the module. Noting uses changes
nothing else about a binding, and every binding of a well-formed table is a placeholder exactly when
it names a foreign symbol.
-/
import Sigma16.Line
import Sigma16.Symbol

namespace Sigma16

/-! ## Names -/

namespace Text

theorem isName_bytes {t : Text} (h : isName t = true) : ∀ b ∈ t, isNameByte b = true := by
  cases t with
  | nil => cases h
  | cons a s =>
    simp only [isName, Bool.and_eq_true, List.all_eq_true] at h
    intro b hb
    rcases List.mem_cons.1 hb with rfl | hb
    · simp [isNameByte, h.1]
    · exact h.2 b hb

theorem isName_ne_nil {t : Text} (h : isName t = true) : t ≠ [] := by
  rintro rfl
  cases h

/-- A byte that no name holds does not occur in a name. -/
theorem isName_notMem {t : Text} (h : isName t = true) {b : UInt8} (hb : isNameByte b = false) : b ∉ t := by
  intro hm
  rw [isName_bytes h b hm] at hb
  cases hb

end Text

/-! ## Values -/

namespace Value

/-- A word of this module, fixed or moving with it. -/
def IsLocal (v : Value) : Prop := v = .const v.word ∨ v = .relocatable v.word

/-- What a name may stand for: a word of this module, or the placeholder for another module's. -/
def Proper (v : Value) : Prop := v.IsLocal ∨ v = .external

theorem const_isLocal (w : Word) : (const w).IsLocal := Or.inl rfl

theorem relocatable_isLocal (w : Word) : (relocatable w).IsLocal := Or.inr rfl

theorem external_proper : external.Proper := Or.inr rfl

theorem IsLocal.proper {v : Value} (h : v.IsLocal) : v.Proper := Or.inl h

theorem IsLocal.origin {v : Value} (h : v.IsLocal) : v.origin = .loc := by
  rcases h with h | h <;> rw [h] <;> rfl

theorem IsLocal.not_external {v : Value} (h : v.IsLocal) : v.isExternal = false := by
  simp [isExternal, h.origin]

theorem Proper.local_of_not_external {v : Value} (h : v.Proper) (he : v.isExternal = false) : v.IsLocal := by
  rcases h with h | rfl
  · exact h
  · cases he

/-- A placeholder never moves with the module. -/
theorem Proper.not_relocatable {v : Value} (h : v.Proper) (he : v.isExternal = true) :
    v.isRelocatable = false := by
  rcases h with h | rfl
  · rw [h.not_external] at he; cases he
  · rfl

theorem wrap_natCast (n : Nat) : wrap (n : Int) = .ok (.ofNat n) := by
  unfold wrap
  rw [if_neg (by omega), Int.toNat_natCast]

/-- The sum of words, as the sum of values computes it. -/
theorem wrap_add (x y : Word) : wrap (x.toNat + y.toNat) = .ok (x + y) := by
  rw [← Int.natCast_add, wrap_natCast, UInt16.ofNat_add, UInt16.ofNat_toNat, UInt16.ofNat_toNat]

theorem add_eq (x y : Value) : x.add y =
    if x.isExternal || y.isExternal then .error .external
    else if x.isRelocatable && y.isRelocatable then .error .relocatableSum
    else .ok ⟨x.word + y.word, .loc, if x.isRelocatable || y.isRelocatable then .rel else .fix⟩ := by
  unfold add
  rw [wrap_add]
  rfl

theorem add_isLocal {x y v : Value} (h : x.add y = .ok v) : v.IsLocal := by
  rw [add_eq] at h
  split at h
  · cases h
  · split at h
    · cases h
    · cases h
      split
      · exact Or.inr rfl
      · exact Or.inl rfl

/-- A sum never goes below zero. -/
theorem add_ne_negative {x y : Value} {fault : ArithmeticFault} (h : x.add y = .error fault) :
    fault ≠ .negative := by
  rw [add_eq] at h
  split at h
  · cases h; decide
  · split at h
    · cases h; decide
    · cases h

/-- A word of this module can be moved by any fixed number of words, and stays as movable. -/
theorem add_const {v : Value} (h : v.IsLocal) (n : Word) :
    v.add (.const n) = .ok ⟨v.word + n, .loc, v.movability⟩ := by
  have hn : (const n).isExternal = false ∧ (const n).isRelocatable = false := ⟨rfl, rfl⟩
  rw [add_eq, h.not_external, hn.1, hn.2]
  rcases h with h | h <;> rw [h] <;> rfl

theorem add_zero {v : Value} (h : v.IsLocal) : v.add (.const 0) = .ok v := by
  rw [add_const h, UInt16.add_zero, ← h.origin]

end Value

/-! ## Symbol tables -/

namespace SymbolTable

theorem lookup_mem {t : SymbolTable} {n : Text} {b : Binding} (h : t.lookup n = some b) : b ∈ t.bindings :=
  List.mem_of_find?_eq_some h

theorem contains_eq_true {t : SymbolTable} {n : Text} : t.contains n = true ↔ ∃ b, t.lookup n = some b :=
  Option.isSome_iff_exists

theorem contains_eq_false {t : SymbolTable} {n : Text} : t.contains n = false ↔ t.lookup n = none := by
  unfold contains
  rw [Option.isSome_eq_false_iff, Option.isNone_iff_eq_none]

theorem lookup_name {t : SymbolTable} {n : Text} {b : Binding} (h : t.lookup n = some b) : b.name = n :=
  beq_iff_eq.1 (List.find?_some (p := fun b : Binding => b.name == n) h)

theorem mem_sorted {t : SymbolTable} {b : Binding} : b ∈ t.sorted ↔ b ∈ t.bindings := List.mem_mergeSort

theorem use_bindings (t : SymbolTable) (line : Int) (n : Text) : (t.use line n).bindings =
    t.bindings.map fun b => if b.name == n then { b with uses := b.uses ++ [line] } else b := rfl

/-- Noting uses appends the line to the log of every name as often as the name is used. -/
theorem useAll_bindings (line : Int) : ∀ (names : List Text) (t : SymbolTable),
    (t.useAll line names).bindings =
      t.bindings.map fun b => { b with uses := b.uses ++ List.replicate (names.count b.name) line }
  | [], t => by simp [useAll]
  | n :: names, t => by
    show ((t.use line n).useAll line names).bindings = _
    rw [useAll_bindings line names, use_bindings, List.map_map]
    apply List.map_congr_left
    intro b _
    by_cases h : b.name = n
    · simp [h, List.replicate_succ]
    · have h' : n ≠ b.name := fun e => h e.symm
      simp [h, h']

theorem lookup_useAll (t : SymbolTable) (line : Int) (names : List Text) (n : Text) :
    (t.useAll line names).lookup n =
      (t.lookup n).map fun b => { b with uses := b.uses ++ List.replicate (names.count b.name) line } := by
  unfold lookup
  rw [useAll_bindings, List.find?_map]
  rfl

/-- A name that is not bound can be bound. -/
theorem define?_of_lookup {t : SymbolTable} {b : Binding} (h : t.lookup b.name = none) :
    t.define? b = some ⟨t.bindings ++ [b]⟩ := by
  unfold define? contains
  rw [h]
  rfl

end SymbolTable

/-! ## Well-formed bindings -/

/-- A binding as a label makes it: a valid name, and the placeholder of another module's word exactly
when it carries the name of that module. -/
structure Binding.WF (b : Binding) : Prop where
  name : Text.isName b.name = true
  proper : b.value.Proper
  imported : b.isImported = b.value.isExternal
  foreign : b.isImported = true → Text.isName b.moduleName = true ∧ Text.isName b.foreignName = true

theorem Binding.WF.withUses {b : Binding} (h : b.WF) (uses : List Int) : ({ b with uses } : Binding).WF :=
  ⟨h.name, h.proper, h.imported, h.foreign⟩

/-- A table of well-formed bindings. -/
def SymbolTable.WF (t : SymbolTable) : Prop := ∀ b ∈ t.bindings, b.WF

namespace SymbolTable

theorem empty_wf : SymbolTable.empty.WF := by
  intro b hb
  cases hb

theorem WF.useAll {t : SymbolTable} (h : t.WF) (line : Int) (names : List Text) : (t.useAll line names).WF := by
  intro b hb
  rw [useAll_bindings] at hb
  obtain ⟨b', hb', rfl⟩ := List.mem_map.1 hb
  exact (h b' hb').withUses _

theorem WF.append {t : SymbolTable} (h : t.WF) {new : List Binding} (hn : ∀ b ∈ new, b.WF) :
    SymbolTable.WF ⟨t.bindings ++ new⟩ := by
  intro b hb
  rcases List.mem_append.1 hb with hb | hb
  · exact h b hb
  · exact hn b hb

theorem WF.lookup {t : SymbolTable} (h : t.WF) {n : Text} {b : Binding} (hl : t.lookup n = some b) : b.WF :=
  h b (lookup_mem hl)

end SymbolTable

end Sigma16
