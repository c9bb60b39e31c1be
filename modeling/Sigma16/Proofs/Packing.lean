/-
Fields are read back from the words that hold them. The bits of a field are those of its mask; placing a
value touches no others and reading looks at no others, so in words whose fields are apart every field
has the value that was placed there, as far as it fits.
-/
import Sigma16.Proofs.Operation

namespace Sigma16

/-! ## The bits of a field -/

namespace Field

def mask (x : Field) : Word := x.place x.limit

theorem or_and_word (u v w : Word) : (u ||| v) &&& w = (u &&& w) ||| (v &&& w) := by
  apply UInt16.eq_of_toBitVec_eq
  ext i
  simp [Bool.and_or_distrib_right]

theorem read_or (x : Field) (v w : Word) : x.read (v ||| w) = x.read v ||| x.read w := by
  unfold read
  rw [UInt16.shiftRight_or, or_and_word]

theorem read_zero (x : Field) : x.read 0 = 0 := by
  unfold read
  rw [UInt16.zero_shiftRight, UInt16.zero_and]

theorem mask_shiftRight (x : Field) : x.mask >>> x.shift = x.limit := by
  cases x <;> decide

/-- A value is placed inside the mask. -/
theorem place_and_mask (x : Field) (v : Word) : x.place v &&& x.mask = x.place v := by
  unfold mask place
  rw [← UInt16.shiftLeft_and, UInt16.and_self, UInt16.and_assoc, UInt16.and_self]

/-- Bits outside the mask are not read. -/
theorem read_and_mask (x : Field) (w : Word) : x.read (w &&& x.mask) = x.read w := by
  unfold read
  rw [UInt16.shiftRight_and, mask_shiftRight, UInt16.and_assoc, UInt16.and_self]

/-- A limit is all ones, and the field lies inside the word. -/
theorem limit_ones (x : Field) : ∃ k, x.limit.toNat + 1 = 1 <<< k ∧ x.shift.toNat < 16 ∧ k + x.shift.toNat ≤ 16 := by
  cases x with
  | op | d | a | b | e | f | g | h => exact ⟨4, by decide⟩
  | ab | gh => exact ⟨8, by decide⟩
  | data | disp => exact ⟨16, by decide⟩

theorem and_limit {x : Field} {v : Word} (h : v ≤ x.limit) : v &&& x.limit = v := by
  obtain ⟨k, hk, -, -⟩ := x.limit_ones
  rw [Nat.one_shiftLeft] at hk
  have hv := UInt16.le_iff_toNat_le.1 h
  apply UInt16.toNat_inj.1
  rw [UInt16.toNat_and, Nat.eq_sub_of_add_eq hk, Nat.and_two_pow_sub_one_eq_mod, Nat.mod_eq_of_lt (by omega)]

/-- No bit of a value that fits is lost at the end of the word. -/
theorem place_shiftRight {x : Field} {v : Word} (h : v ≤ x.limit) : x.place v >>> x.shift = v := by
  obtain ⟨k, hk, hs, hw⟩ := x.limit_ones
  rw [Nat.one_shiftLeft] at hk
  have hv := UInt16.le_iff_toNat_le.1 h
  have hfits : v.toNat * 2 ^ x.shift.toNat < 2 ^ 16 :=
    calc v.toNat * 2 ^ x.shift.toNat
      _ < 2 ^ k * 2 ^ x.shift.toNat := Nat.mul_lt_mul_of_pos_right (by omega) (Nat.two_pow_pos _)
      _ = 2 ^ (k + x.shift.toNat) := (Nat.pow_add ..).symm
      _ ≤ 2 ^ 16 := Nat.pow_le_pow_right (by omega) hw
  apply UInt16.toNat_inj.1
  unfold place
  rw [and_limit h, UInt16.toNat_shiftRight, UInt16.toNat_shiftLeft, Nat.mod_eq_of_lt hs, Nat.shiftLeft_eq,
    Nat.mod_eq_of_lt hfits, Nat.shiftRight_eq_div_pow, Nat.mul_div_cancel _ (Nat.two_pow_pos _)]

theorem read_place {x : Field} {v : Word} (h : v ≤ x.limit) : x.read (x.place v) = v := by
  unfold read
  rw [place_shiftRight h, and_limit h]

/-- A field that is apart from another one of the same word has none of its bits. -/
theorem place_and_mask_apart {x y : Field} (h : x.Apart y) (hp : x.position = y.position) (v : Word) :
    y.place v &&& x.mask = 0 := by
  have hmasks : y.mask &&& x.mask = 0 := by
    rcases h with h | h
    · exact absurd hp h
    · rw [UInt16.and_comm]
      exact h
  rw [← place_and_mask y v, UInt16.and_assoc, hmasks, UInt16.and_zero]

theorem read_place_apart {x y : Field} (h : x.Apart y) (hp : x.position = y.position) (v : Word) :
    x.read (y.place v) = 0 := by
  rw [← read_and_mask, place_and_mask_apart h hp, read_zero]

end Field

/-! ## Fields of packed words -/

namespace Word

/-- A field has no bits in a word that is packed from fields apart from it. -/
theorem read_pack_apart {x : Field} : ∀ {parts : Placement}, (∀ p ∈ parts, x.Apart p.1 ∧ x.position = p.1.position) →
    x.read (pack parts) = 0
  | [], _ => x.read_zero
  | p :: parts, h => by
    obtain ⟨hapart, hposition⟩ := h p List.mem_cons_self
    show x.read (p.1.place p.2 ||| pack parts) = 0
    rw [Field.read_or, Field.read_place_apart hapart hposition,
      read_pack_apart fun q hq => h q (List.mem_cons_of_mem _ hq)]
    rfl

/-- In a word that is packed from fields apart from one another, a field has its value. -/
theorem read_pack {x : Field} {v : Word} (hv : v ≤ x.limit) : ∀ {parts : Placement},
    (parts.map Prod.fst).Pairwise Field.Apart → (∀ p ∈ parts, x.position = p.1.position) → (x, v) ∈ parts →
      x.read (pack parts) = v
  | [], _, _, hm => by cases hm
  | (y, w) :: parts, ha, hp, hm => by
    rw [List.map_cons, List.pairwise_cons] at ha
    obtain ⟨hy, ha⟩ := ha
    have hposition : ∀ p ∈ parts, x.position = p.1.position := fun p hpm => hp p (List.mem_cons_of_mem _ hpm)
    show x.read (y.place w ||| pack parts) = v
    rw [Field.read_or]
    rcases List.mem_cons.1 hm with hm | hm
    · obtain ⟨rfl, rfl⟩ := Prod.mk.inj hm
      have hrest : ∀ p ∈ parts, x.Apart p.1 ∧ x.position = p.1.position := fun p hpm =>
        ⟨hy p.1 (List.mem_map_of_mem hpm), hposition p hpm⟩
      rw [read_pack_apart hrest, Field.read_place hv, UInt16.or_zero]
    · have hapart : x.Apart y := (hy x (List.mem_map_of_mem hm)).symm
      rw [Field.read_place_apart hapart (hp (y, w) List.mem_cons_self), UInt16.zero_or]
      exact read_pack hv ha hposition hm

/-- A word packed from zero for one field, and otherwise from fields apart from it, is zero there. -/
theorem pack_and_mask {x : Field} : ∀ {parts : Placement},
    (∀ p ∈ parts, p = (x, 0) ∨ x.Apart p.1 ∧ x.position = p.1.position) → pack parts &&& x.mask = 0
  | [], _ => UInt16.zero_and
  | p :: parts, h => by
    have hplace : p.1.place p.2 &&& x.mask = 0 := by
      rcases h p List.mem_cons_self with rfl | ⟨hapart, hposition⟩
      · show (0 &&& x.limit) <<< x.shift &&& x.mask = 0
        rw [UInt16.zero_and, UInt16.zero_shiftLeft, UInt16.zero_and]
      · exact Field.place_and_mask_apart hapart hposition p.2
    show (p.1.place p.2 ||| pack parts) &&& x.mask = 0
    rw [Field.or_and_word, hplace, pack_and_mask fun q hq => h q (List.mem_cons_of_mem _ hq)]
    rfl

theorem pack_append : ∀ xs ys : Placement, pack (xs ++ ys) = pack xs ||| pack ys
  | [], _ => UInt16.zero_or.symm
  | x :: xs, ys => by
    show x.1.place x.2 ||| pack (xs ++ ys) = x.1.place x.2 ||| pack xs ||| pack ys
    rw [pack_append xs ys, UInt16.or_assoc]

/-- Words are the same if every one of them is packed from the same bits. -/
theorem packAll_eq_iff {size : Nat} {xs ys : Placement} : packAll size xs = packAll size ys ↔
    ∀ i < size, pack (xs.filter fun p => p.1.position.toNat == i) =
      pack (ys.filter fun p => p.1.position.toNat == i) := by
  unfold packAll
  simp only [List.map_inj_left, List.mem_range]

/-- Parts that fill the same words can stand for one another beside others. -/
theorem packAll_append_congr {size : Nat} {xs ys : Placement} (h : packAll size xs = packAll size ys)
    (zs : Placement) : packAll size (xs ++ zs) = packAll size (ys ++ zs) := by
  rw [packAll_eq_iff] at h ⊢
  intro i hi
  rw [List.filter_append, List.filter_append, pack_append, pack_append, h i hi]

/-- The order of the parts does not matter. -/
theorem packAll_append_comm (size : Nat) (xs ys zs : Placement) :
    packAll size (xs ++ (ys ++ zs)) = packAll size (xs ++ (zs ++ ys)) := by
  rw [packAll_eq_iff]
  intro i _
  simp only [List.filter_append, pack_append]
  congr 1
  exact UInt16.or_comm _ _

end Word

/-- The value of a field in the words of an instruction. -/
def Field.readFrom (x : Field) (words : List Word) : Word := x.read (words.getD x.position.toNat 0)

/-- In the words of an instruction whose fields are apart, a field has its value. -/
theorem Field.readFrom_packAll {parts : Placement} {size : Nat} {x : Field} {v : Word}
    (ha : (parts.map Prod.fst).Pairwise Field.Apart) (hm : (x, v) ∈ parts) (hs : x.position.toNat < size)
    (hv : v ≤ x.limit) : x.readFrom (Word.packAll size parts) = v := by
  have hword : (Word.packAll size parts).getD x.position.toNat 0 =
      Word.pack (parts.filter fun p => p.1.position.toNat == x.position.toNat) := by
    rw [List.getD_eq_getElem?_getD, Word.packAll, List.getElem?_map, List.getElem?_range hs]
    rfl
  unfold readFrom
  rw [hword]
  apply Word.read_pack hv
  · exact ha.sublist (List.filter_sublist.map _)
  · intro p hp
    exact (UInt16.toNat_inj.1 (eq_of_beq (List.mem_filter.1 hp).2)).symm
  · exact List.mem_filter.2 ⟨hm, beq_self_eq_true _⟩

end Sigma16
