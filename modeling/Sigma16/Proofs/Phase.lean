/-
Layout and code stay in phase: every statement has the words that layout reserved for it, each starts
where the one before it ends or leads, and the memory image is what the statements leave when they are
written one after another, the last word written to an address being the one that stays.
-/
import Sigma16.Metadata
import Sigma16.Proofs.Code

namespace Sigma16

/-! ## Memory after a run of words -/

namespace Image

theorem getElem?_insert (image : Image) (address x : Word) (cell : Cell) :
    (image.insert address cell)[x]? = if address = x then some cell else image[x]? := by
  rw [Std.TreeMap.getElem?_insert]
  simp only [Std.LawfulEqCmp.compare_eq_iff_eq]

/-- After words are written from an address on, an address at a distance below their number holds the
word at that distance, and any other address what it held before. -/
theorem getElem?_storeAll (x : Word) (line : Int) : ∀ (words : List Word) (image : Image) (address : Word),
    words.length ≤ 65536 → (image.storeAll address line words)[x]? =
      (words[(x - address).toNat]?.map (⟨·, line⟩)).or image[x]?
  | [], image, address, _ => by simp [storeAll]
  | word :: words, image, address, h => by
    rw [List.length_cons] at h
    unfold storeAll
    rw [getElem?_storeAll x line words _ _ (by omega), getElem?_insert]
    have hx := x.toNat_lt
    have ha := address.toNat_lt
    have ha1 : (address + 1).toNat = (address.toNat + 1) % 65536 := UInt16.toNat_add address 1
    have hd := UInt16.toNat_sub x address
    have hd1 := UInt16.toNat_sub x (address + 1)
    by_cases he : address = x
    · -- the rest of the words would have to come around to reach the first address again
      subst he
      have h0 : (address - address).toNat = 0 := by omega
      have h1 : words[(address - (address + 1)).toNat]? = none := by
        rw [List.getElem?_eq_none]
        omega
      rw [h0, h1, if_pos rfl]
      rfl
    · have hne : address.toNat ≠ x.toNat := fun e => he (UInt16.toNat_inj.1 e)
      have h1 : (x - address).toNat = (x - (address + 1)).toNat + 1 := by omega
      rw [h1, List.getElem?_cons_succ, if_neg he]

/-- A listing of one part of the cells has the part of a cell at the cell's address. -/
theorem mem_listing {α : Type} (image : Image) (part : Cell → α) (x : Word) (y : α) :
    (x, y) ∈ image.toList.map (fun (address, cell) => (address, part cell)) ↔ image[x]?.map part = some y := by
  simp only [List.mem_map, Prod.exists, Prod.mk.injEq, Std.TreeMap.mem_toList_iff_getElem?_eq_some,
    Option.map_eq_some_iff]
  constructor
  · rintro ⟨_, cell, hc, rfl, rfl⟩
    exact ⟨cell, hc, rfl⟩
  · rintro ⟨cell, hc, rfl⟩
    exact ⟨x, cell, hc, rfl, rfl⟩

theorem exists_mem_listing {α : Type} (image : Image) (part : Cell → α) (x : Word) :
    (∃ y, (x, y) ∈ image.toList.map (fun (address, cell) => (address, part cell))) ↔ image[x]?.isSome := by
  simp only [mem_listing, Option.map_eq_some_iff, Option.isSome_iff_exists]
  constructor
  · rintro ⟨_, cell, hc, -⟩
    exact ⟨cell, hc⟩
  · rintro ⟨cell, hc⟩
    exact ⟨part cell, cell, hc, rfl⟩

end Image

/-! ## Statements in memory -/

namespace Statement

/-- Does the statement write to an address? -/
def Covers (s : Statement) (x : Word) : Prop := ∃ j < s.code.length, x = s.address.word + .ofNat j

/-- What the statement writes to an address. -/
def cell? (s : Statement) (x : Word) : Option Cell := s.code[(x - s.address.word).toNat]?.map (⟨·, s.line⟩)

theorem offset_eq {s : Statement} (h : s.code.length ≤ 65536) {j : Nat} (hj : j < s.code.length) :
    (s.address.word + .ofNat j - s.address.word).toNat = j := by
  rw [UInt16.add_comm, UInt16.add_sub_cancel]
  exact UInt16.toNat_ofNat_of_lt' (Nat.lt_of_lt_of_le hj h)

theorem covers_iff {s : Statement} (h : s.code.length ≤ 65536) (x : Word) : s.Covers x ↔ (s.cell? x).isSome := by
  have key : (s.cell? x).isSome = true ↔ (x - s.address.word).toNat < s.code.length := by
    simp [cell?]
  rw [key]
  constructor
  · rintro ⟨j, hj, rfl⟩
    rw [offset_eq h hj]
    exact hj
  · intro hj
    refine ⟨_, hj, ?_⟩
    rw [UInt16.ofNat_toNat, UInt16.add_comm, UInt16.sub_add_cancel]

theorem not_covers_iff {s : Statement} (h : s.code.length ≤ 65536) (x : Word) : ¬ s.Covers x ↔ s.cell? x = none := by
  rw [covers_iff h, Option.not_isSome_iff_eq_none]

end Statement

/-- Memory after statements are written in order: at each address the last of them that writes there. -/
theorem getElem?_foldl_storeAll (x : Word) : ∀ (ss : List Statement) (image : Image),
    (∀ s ∈ ss, s.code.length ≤ 65536) →
      (ss.foldl (fun image s => image.storeAll s.address.word s.line s.code) image)[x]? =
        (ss.reverse.findSome? (·.cell? x)).or image[x]?
  | [], image, _ => rfl
  | s :: ss, image, h => by
    rw [List.foldl_cons, getElem?_foldl_storeAll x ss _ fun t ht => h t (List.mem_cons_of_mem _ ht),
      Image.getElem?_storeAll x s.line s.code image _ (h s List.mem_cons_self), List.reverse_cons,
      List.findSome?_append, Option.or_assoc, List.findSome?_singleton]
    rfl

/-! ## Memory and address map of an assembly -/

namespace Assembly

theorem mem_memory (a : Assembly) (x w : Word) : (x, w) ∈ a.memory ↔ a.image[x]?.map (·.word) = some w :=
  a.image.mem_listing (·.word) x w

theorem mem_addressMap (a : Assembly) (x : Word) (n : Int) :
    (x, n) ∈ a.addressMap ↔ a.image[x]?.map (·.line) = some n :=
  a.image.mem_listing (·.line) x n

variable {a : Assembly}

/-- The statements of a module in memory, for a module that starts with an empty image. -/
theorem LaidOut.image_eq (h : a.LaidOut) : a.generate.image = a.generate.statements.foldl
    (fun image s => image.storeAll s.address.word s.line s.code) a.image := by
  rw [generate_image, generate_statements, List.foldl_map]
  apply List.foldl_rel rfl
  rintro s hs image image' rfl
  rw [h.code_eq hs]
  rfl

/-- Every statement of an assembled module has the words that its size promises. -/
theorem LaidOut.length_code (h : a.LaidOut) : ∀ s ∈ a.generate.statements, s.code.length = s.size.toNat := by
  intro t ht
  obtain ⟨s, hs, rfl⟩ := mem_generate_statements.1 ht
  exact h.code_length hs

theorem LaidOut.code_length_le (h : a.LaidOut) : ∀ s ∈ a.generate.statements, s.code.length ≤ 65536 := by
  intro s hs
  rw [h.length_code s hs]
  exact Nat.le_of_lt s.size.toNat_lt

/-- The cell at an address is that of the last statement that writes there. -/
theorem LaidOut.getElem?_image (h : a.LaidOut) (hi : a.image = ∅) (x : Word) :
    a.generate.image[x]? = a.generate.statements.reverse.findSome? (·.cell? x) := by
  rw [h.image_eq, getElem?_foldl_storeAll x _ _ h.code_length_le, hi]
  simp

theorem LaidOut.isSome_image (h : a.LaidOut) (hi : a.image = ∅) (x : Word) :
    a.generate.image[x]?.isSome ↔ ∃ s ∈ a.generate.statements, s.Covers x := by
  rw [h.getElem?_image hi, List.isSome_findSome?]
  simp only [List.any_eq_true, List.mem_reverse]
  constructor
  · rintro ⟨s, hs, hc⟩
    exact ⟨s, hs, (Statement.covers_iff (h.code_length_le s hs) x).2 hc⟩
  · rintro ⟨s, hs, hc⟩
    exact ⟨s, hs, (Statement.covers_iff (h.code_length_le s hs) x).1 hc⟩

theorem LaidOut.memory_keys (h : a.LaidOut) (hi : a.image = ∅) (x : Word) :
    (∃ w, (x, w) ∈ a.generate.memory) ↔ ∃ s ∈ a.generate.statements, s.Covers x :=
  (Image.exists_mem_listing _ (·.word) x).trans (h.isSome_image hi x)

theorem LaidOut.addressMap_keys (h : a.LaidOut) (hi : a.image = ∅) (x : Word) :
    (∃ n, (x, n) ∈ a.generate.addressMap) ↔ ∃ s ∈ a.generate.statements, s.Covers x :=
  (Image.exists_mem_listing _ (·.line) x).trans (h.isSome_image hi x)

/-- A word that no later statement overwrites is in memory, with the line of its statement. -/
theorem LaidOut.image_last (h : a.LaidOut) (hi : a.image = ∅) {before after : List Statement} {s : Statement}
    (hss : a.generate.statements = before ++ s :: after) {j : Nat} {w : Word} (hw : s.code[j]? = some w)
    (hl : ∀ t ∈ after, ¬ t.Covers (s.address.word + .ofNat j)) :
    a.generate.image[s.address.word + .ofNat j]? = some ⟨w, s.line⟩ := by
  have hlen := h.code_length_le
  rw [hss] at hlen
  have hj : j < s.code.length := (List.getElem?_eq_some_iff.1 hw).1
  -- the search goes from the last statement back to `s`, past statements that write elsewhere
  rw [h.getElem?_image hi, hss, List.findSome?_eq_some_iff]
  refine ⟨after.reverse, s, before.reverse, by simp, ?_, fun t ht => ?_⟩
  · unfold Statement.cell?
    rw [Statement.offset_eq (hlen s (by simp)) hj, hw]
    rfl
  · rw [List.mem_reverse] at ht
    exact (Statement.not_covers_iff (hlen t (by simp [ht])) _).1 (hl t ht)

theorem LaidOut.orgAddress_isSome (h : a.LaidOut) : ∀ s ∈ a.generate.statements,
    s.orgAddress.isSome = s.operation.isJump := by
  intro t ht
  obtain ⟨s, hs, rfl⟩ := mem_generate_statements.1 ht
  exact (h.statements s hs).2.2.2.1

/-- Where the next statement starts, said by the statement before it. -/
theorem LaidOut.next_statement (h : a.LaidOut) {v w : Value} (hp : InPhase v a.statements w) {i : Nat}
    {s t : Statement} (hs : a.generate.statements[i]? = some s) (ht : a.generate.statements[i + 1]? = some t) :
    if s.operation.isJump then s.orgAddress = some t.address
    else t.address = ⟨s.address.word + s.size, .loc, s.address.movability⟩ := by
  have hp' := hp.map (f := a.code) code_address code_next
  rw [← generate_statements] at hp'
  have hn := hp'.next_address hs ht
  have hsome := h.orgAddress_isSome s (List.mem_of_getElem? hs)
  unfold Statement.next at hn
  split
  · rename_i hj
    rw [hj, Option.isSome_iff_exists] at hsome
    obtain ⟨v, hv⟩ := hsome
    rw [if_pos hj, hv] at hn
    rw [hv, hn]
    rfl
  · rename_i hj
    rw [if_neg hj] at hn
    exact hn

theorem ofSource_inPhase {c : Context} (hc : c.WF) (source : Text) :
    InPhase c.counter (Assembly.ofSource c source).statements (Assembly.ofSource c source).counter :=
  layOut_inPhase _ 1 hc

/-- Layout and code in phase. Every statement has the words that its size promises; the statement
after it starts where an `org` or a `block` leads, and else right after these words, as movable as
before; and memory holds, at exactly the addresses that statements cover, the word of the last
statement that covers the address, just as the address map holds its line. -/
theorem assemble_in_phase (name source : Text) :
    let a := assemble name source
    (∀ s ∈ a.statements, s.code.length = s.size.toNat) ∧
    (∀ (i : Nat) (s t : Statement), a.statements[i]? = some s → a.statements[i + 1]? = some t →
      if s.operation.isJump then s.orgAddress = some t.address
      else t.address = ⟨s.address.word + s.size, .loc, s.address.movability⟩) ∧
    (∀ x : Word, (∃ w, (x, w) ∈ a.memory) ↔ ∃ s ∈ a.statements, s.Covers x) ∧
    (∀ x : Word, (∃ n, (x, n) ∈ a.addressMap) ↔ ∃ s ∈ a.statements, s.Covers x) ∧
    (∀ (before after : List Statement) (s : Statement) (j : Nat) (w : Word),
      a.statements = before ++ s :: after → s.code[j]? = some w →
      (∀ t ∈ after, ¬ t.Covers (s.address.word + .ofNat j)) →
      (∀ w', (s.address.word + .ofNat j, w') ∈ a.memory ↔ w' = w) ∧
      ∀ n, (s.address.word + .ofNat j, n) ∈ a.addressMap ↔ n = s.line) := by
  have h := ofSource_laidOut (Context.initial_wf name) source
  refine ⟨h.length_code, fun i s t hs ht => ?_, h.memory_keys rfl, h.addressMap_keys rfl,
    fun before after s j w hss hw hl => ?_⟩
  · exact h.next_statement (ofSource_inPhase (Context.initial_wf name) source) hs ht
  · have hcell := h.image_last rfl hss hw hl
    constructor
    · intro w'
      rw [mem_memory, show (assemble name source).image[_]? = _ from hcell]
      simp [eq_comm]
    · intro n
      rw [mem_addressMap, show (assemble name source).image[_]? = _ from hcell]
      simp [eq_comm]

def aroundMemory : Text := "a data 7\n org $ffff\n load R1,5[R0]"

set_option maxRecDepth 4000 in
/-- A module whose last instruction begins at `ffff`, so that its second word comes around to address 0
and replaces the word of the first line. -/
theorem assemble_in_phase_around : ∃ s₀ s₁ s₂ : Statement,
    (assemble [] aroundMemory).statements = [s₀, s₁, s₂] ∧ s₂.code.length = s₂.size.toNat ∧
    s₁.address = ⟨s₀.address.word + s₀.size, .loc, s₀.address.movability⟩ ∧ s₁.orgAddress = some s₂.address ∧
    s₀.Covers 0 ∧ s₂.Covers 0 ∧
    (∀ w, (0, w) ∈ (assemble [] aroundMemory).memory ↔ w = 5) ∧
    ∀ n, (0, n) ∈ (assemble [] aroundMemory).addressMap ↔ n = 3 := by
  obtain ⟨hsize, hnext, -, -, hlast⟩ := assemble_in_phase [] aroundMemory
  have hrun : (assemble [] aroundMemory).statements.map
      (fun s => (s.address.word, s.code, s.line, s.operation.isJump)) =
        [(0, [7], 1, false), (1, [], 2, true), (0xffff, [0xf101, 5], 3, false)] := by decide +kernel
  obtain ⟨s₀, l, hs, h₀, hl⟩ := List.map_eq_cons_iff.1 hrun
  obtain ⟨s₁, l, rfl, h₁, hl⟩ := List.map_eq_cons_iff.1 hl
  obtain ⟨s₂, l, rfl, h₂, hl⟩ := List.map_eq_cons_iff.1 hl
  obtain rfl := List.map_eq_nil_iff.1 hl
  simp only [Prod.mk.injEq] at h₀ h₁ h₂
  obtain ⟨ha₀, hc₀, -, hj₀⟩ := h₀
  obtain ⟨ha₂, hc₂, hl₂, -⟩ := h₂
  have h01 := hnext 0 s₀ s₁ (by rw [hs]; rfl) (by rw [hs]; rfl)
  have h12 := hnext 1 s₁ s₂ (by rw [hs]; rfl) (by rw [hs]; rfl)
  rw [hj₀] at h01
  rw [h₁.2.2.2] at h12
  have h := hlast [s₀, s₁] [] s₂ 1 5 hs (by rw [hc₂]; rfl) (by simp)
  rw [ha₂, hl₂] at h
  refine ⟨s₀, s₁, s₂, hs, hsize s₂ (by simp [hs]), h01, h12, ⟨0, ?_, ?_⟩, ⟨1, ?_, ?_⟩, h.1, h.2⟩
  · simp [hc₀]
  · rw [ha₀]; rfl
  · simp [hc₂]
  · rw [ha₂]; rfl

end Assembly

end Sigma16
