/-
Characters of concatenated texts. A byte that cannot continue a character starts a new one, so a text falls
apart into characters in the same way on both sides of such a byte, whatever stands before it; and a text
that is well formed keeps its characters, whatever comes after it. Widths then add up.
-/
import Sigma16.Proofs.Line

namespace Sigma16.Text

/-! ## One character -/

theorem isTail_of_isSecond {a b : UInt8} (h : isSecond a b = true) : isTail b = true := by
  simp only [isSecond, isTail, Bool.and_eq_true, decide_eq_true_eq, UInt8.le_iff_toNat_le] at h ⊢
  obtain ⟨hlow, hhigh⟩ := h
  constructor
  · refine Nat.le_trans ?_ hlow
    split
    · decide
    · split <;> decide
  · refine Nat.le_trans hhigh ?_
    split
    · decide
    · split <;> decide

/-- A code point and its bytes. -/
inductive IsCharacter : Nat → Text → Prop where
  | one {a : UInt8} : a < 0x80 → IsCharacter a.toNat [a]
  | two {a b : UInt8} : 0xC2 ≤ a → a < 0xE0 → isSecond a b = true →
      IsCharacter (a.toNat % 32 * 64 + lowBits b) [a, b]
  | three {a b c : UInt8} : 0xE0 ≤ a → a < 0xF0 → isSecond a b = true → isTail c = true →
      IsCharacter ((a.toNat % 16 * 64 + lowBits b) * 64 + lowBits c) [a, b, c]
  | four {a b c d : UInt8} : 0xF0 ≤ a → a < 0xF5 → isSecond a b = true → isTail c = true → isTail d = true →
      IsCharacter (((a.toNat % 8 * 64 + lowBits b) * 64 + lowBits c) * 64 + lowBits d) [a, b, c, d]

theorem IsCharacter.first? {c : Nat} {x : Text} (h : IsCharacter c x) (y : Text) :
    first? (x ++ y) = some (c, x.length) := by
  have above {a low : UInt8} (ha : low ≤ a) {m : UInt8} (hm : m ≤ low) : ¬ a < m :=
    UInt8.not_lt.2 (UInt8.le_trans hm ha)
  cases h with
  | one ha => simp [Text.first?, ha]
  | two hlow hhigh hb => simp [Text.first?, above hlow (m := 0x80) (by decide), above hlow (m := 0xC2), hhigh, hb]
  | three hlow hhigh hb hc =>
    simp [Text.first?, above hlow (m := 0x80) (by decide), above hlow (m := 0xC2) (by decide),
      above hlow (m := 0xE0), hhigh, hb, hc]
  | four hlow hhigh hb hc hd =>
    simp [Text.first?, above hlow (m := 0x80) (by decide), above hlow (m := 0xC2) (by decide),
      above hlow (m := 0xE0) (by decide), above hlow (m := 0xF0), hhigh, hb, hc, hd]

theorem exists_isCharacter {t : Text} {c n : Nat} (h : Text.first? t = some (c, n)) :
    ∃ x y, t = x ++ y ∧ IsCharacter c x := by
  unfold Text.first? at h
  split at h
  · cases h
  -- the first byte says how many bytes follow
  rename_i a s
  split at h
  · rename_i ha
    cases h
    exact ⟨[a], s, rfl, .one ha⟩
  split at h
  · cases h
  rename_i hlow
  split at h
  · rename_i hhigh
    split at h
    · rename_i b s
      split at h
      · rename_i hb
        cases h
        exact ⟨[a, b], s, rfl, .two (UInt8.not_lt.1 hlow) hhigh hb⟩
      · cases h
    · cases h
  rename_i hlow
  split at h
  · rename_i hhigh
    split at h
    · rename_i b c s
      split at h
      · rename_i hb
        cases h
        rw [Bool.and_eq_true] at hb
        exact ⟨[a, b, c], s, rfl, .three (UInt8.not_lt.1 hlow) hhigh hb.1 hb.2⟩
      · cases h
    · cases h
  rename_i hlow
  split at h
  · rename_i hhigh
    split at h
    · rename_i b c d s
      split at h
      · rename_i hb
        cases h
        rw [Bool.and_eq_true, Bool.and_eq_true] at hb
        exact ⟨[a, b, c, d], s, rfl, .four (UInt8.not_lt.1 hlow) hhigh hb.1.1 hb.1.2 hb.2⟩
      · cases h
    · cases h
  · cases h

/-- The second byte after the leads that have no bits of their own is large. -/
theorem lowBits_of_isSecond {a b : UInt8} (ha : a = 0xE0 ∨ a = 0xF0) (h : isSecond a b = true) : 2 ≤ lowBits b := by
  have htail := isTail_of_isSecond h
  simp only [isSecond, isTail, Bool.and_eq_true, decide_eq_true_eq, UInt8.le_iff_toNat_le] at h htail
  have hlow : 0x90 ≤ b.toNat := by
    rcases ha with rfl | rfl
    · exact Nat.le_trans (by decide) h.1
    · exact h.1
  have hhigh : b.toNat ≤ 0xBF := htail.2
  unfold lowBits
  omega

/-- The first byte of a character continues no other one, the bytes after it do nothing else, and they are
there exactly beyond ASCII. -/
theorem IsCharacter.bytes {c : Nat} {x : Text} (h : IsCharacter c x) :
    ∃ a s, x = a :: s ∧ isTail a = false ∧ (∀ b ∈ s, isTail b = true) ∧
      (a < 0x80 ∧ s = [] ∧ c = a.toNat ∨ 0x80 ≤ a ∧ 0x80 ≤ c) := by
  have lead {a : UInt8} (h : 0xC2 ≤ a.toNat) : isTail a = false ∧ 0x80 ≤ a := by
    simp only [isTail, UInt8.le_iff_toNat_le, UInt8.reduceToNat, Bool.and_eq_false_iff, decide_eq_false_iff_not]
    omega
  cases h with
  | @one a ha =>
    refine ⟨a, [], rfl, ?_, by simp, Or.inl ⟨ha, rfl, rfl⟩⟩
    simp [isTail, UInt8.not_le.2 ha]
  | @two a b hlow hhigh hb =>
    simp only [UInt8.le_iff_toNat_le, UInt8.lt_iff_toNat_lt, UInt8.reduceToNat] at hlow hhigh
    obtain ⟨hlead, habove⟩ := lead (a := a) (by omega)
    refine ⟨a, [b], rfl, hlead, by simpa using isTail_of_isSecond hb, Or.inr ⟨habove, ?_⟩⟩
    omega
  | @three a b c hlow hhigh hb hc =>
    have hzero : a = 0xE0 → 2 ≤ lowBits b := fun ha => lowBits_of_isSecond (Or.inl ha) hb
    simp only [UInt8.le_iff_toNat_le, UInt8.lt_iff_toNat_lt, UInt8.reduceToNat, ← UInt8.toNat_inj] at hlow hhigh hzero
    obtain ⟨hlead, habove⟩ := lead (a := a) (by omega)
    refine ⟨a, [b, c], rfl, hlead, by simpa using ⟨isTail_of_isSecond hb, hc⟩, Or.inr ⟨habove, ?_⟩⟩
    omega
  | @four a b c d hlow hhigh hb hc hd =>
    have hzero : a = 0xF0 → 2 ≤ lowBits b := fun ha => lowBits_of_isSecond (Or.inr ha) hb
    simp only [UInt8.le_iff_toNat_le, UInt8.lt_iff_toNat_lt, UInt8.reduceToNat, ← UInt8.toNat_inj] at hlow hhigh hzero
    obtain ⟨hlead, habove⟩ := lead (a := a) (by omega)
    refine ⟨a, [b, c, d], rfl, hlead, by simpa using ⟨isTail_of_isSecond hb, hc, hd⟩, Or.inr ⟨habove, ?_⟩⟩
    omega

/-! ## All characters -/

theorem runesFrom_eq : ∀ (t : Text) (skip : Nat), runesFrom skip t = runes (t.drop skip)
  | [], skip => by simp [runes, runesFrom]
  | _ :: _, 0 => rfl
  | _ :: t, skip + 1 => by
    rw [runesFrom, List.drop_succ_cons, runesFrom_eq t skip]

theorem IsCharacter.runes_append {c : Nat} {x : Text} (h : IsCharacter c x) (y : Text) :
    runes (x ++ y) = some c :: runes y := by
  have hfirst := h.first? y
  obtain ⟨a, s, rfl, -⟩ := h.bytes
  rw [List.cons_append] at hfirst ⊢
  rw [runes, runesFrom, hfirst]
  simp only [List.length_cons, Nat.add_sub_cancel, runesFrom_eq, List.drop_left]

theorem runes_stray {a : UInt8} {s : Text} (h : Text.first? (a :: s) = none) : runes (a :: s) = none :: runes s := by
  rw [runes, runesFrom, h]
  rfl

/-- A text starts with a character, which the rest is shorter by, or with a byte that stands for itself. -/
theorem cons_cases (a : UInt8) (s : Text) :
    (∃ c x y, a :: s = x ++ y ∧ IsCharacter c x ∧ y.length < s.length + 1) ∨ Text.first? (a :: s) = none := by
  cases h : Text.first? (a :: s) with
  | none => exact Or.inr rfl
  | some p =>
    obtain ⟨x, y, he, hx⟩ := exists_isCharacter h
    refine Or.inl ⟨p.1, x, y, he, hx, ?_⟩
    obtain ⟨a', s', rfl, -⟩ := hx.bytes
    rw [← List.length_cons, he, List.length_append, List.length_cons]
    omega

/-- No character reaches over a byte that starts another one. -/
theorem first?_append_stops {a : UInt8} {s y : Text} (h : Text.first? (a :: s) = none) (hy : Stops isTail y) :
    Text.first? (a :: s ++ y) = none := by
  rcases cons_cases a (s ++ y) with ⟨c, x, z, he, hx, -⟩ | hnone
  case inr => exact hnone
  exfalso
  rw [← List.cons_append] at he
  -- the character ends inside the first text, or has bytes of the second, which cannot continue it
  rcases List.append_eq_append_iff.1 he with ⟨extra, rfl, rfl⟩ | ⟨rest, hs, rfl⟩
  · cases extra with
    | nil =>
      have hfirst := hx.first? []
      rw [List.append_nil, List.append_nil, h] at hfirst
      cases hfirst
    | cons b extra =>
      obtain ⟨a', s', hcons, -, htail, -⟩ := hx.bytes
      obtain ⟨-, rfl⟩ := List.cons.inj hcons
      have hb := htail b (by simp)
      rw [hy b rfl] at hb
      cases hb
  · rw [hs, hx.first?] at h
    cases h

/-- Characters are counted apart on both sides of a byte that starts one. -/
theorem runes_append_stops {y : Text} (hy : Stops isTail y) : ∀ x : Text, runes (x ++ y) = runes x ++ runes y
  | [] => rfl
  | a :: s => by
    rcases cons_cases a s with ⟨c, x, z, he, hx, hlt⟩ | hstray
    · rw [he, List.append_assoc, hx.runes_append, hx.runes_append, runes_append_stops hy z]
      rfl
    · have hs := first?_append_stops hstray hy
      rw [List.cons_append] at hs ⊢
      rw [runes_stray hs, runes_stray hstray, runes_append_stops hy s]
      rfl
termination_by x => x.length

/-! ## Well-formed texts -/

/-- Characters one after another, and nothing else. -/
inductive IsUtf8 : Text → Prop where
  | nil : IsUtf8 []
  | cons {c : Nat} {x y : Text} : IsCharacter c x → IsUtf8 y → IsUtf8 (x ++ y)

/-- A text is well formed if none of its bytes stands for itself. -/
theorem isUtf8_of_runes : ∀ t : Text, none ∉ runes t → IsUtf8 t
  | [], _ => .nil
  | a :: s, h => by
    rcases cons_cases a s with ⟨c, x, y, he, hx, hlt⟩ | hstray
    · rw [he, hx.runes_append, List.mem_cons, not_or] at h
      rw [he]
      exact .cons hx (isUtf8_of_runes y h.2)
    · rw [runes_stray hstray] at h
      exact absurd List.mem_cons_self h
termination_by t => t.length

theorem IsUtf8.runes {t : Text} (h : IsUtf8 t) : none ∉ runes t := by
  induction h with
  | nil => simp [Text.runes, runesFrom]
  | cons hx _ ih =>
    rw [hx.runes_append, List.mem_cons, not_or]
    exact ⟨nofun, ih⟩

theorem isUtf8_iff (t : Text) : IsUtf8 t ↔ none ∉ runes t := ⟨IsUtf8.runes, isUtf8_of_runes t⟩

instance (t : Text) : Decidable (IsUtf8 t) := decidable_of_iff _ (isUtf8_iff t).symm

/-- A well-formed text keeps its characters, whatever follows. -/
theorem IsUtf8.runes_append {x : Text} (h : IsUtf8 x) (y : Text) :
    Text.runes (x ++ y) = Text.runes x ++ Text.runes y := by
  induction h with
  | nil => rfl
  | cons hx _ ih => rw [List.append_assoc, hx.runes_append, hx.runes_append, ih, List.cons_append]

theorem IsUtf8.append {x y : Text} (hx : IsUtf8 x) (hy : IsUtf8 y) : IsUtf8 (x ++ y) := by
  rw [isUtf8_iff, hx.runes_append, List.mem_append, not_or]
  exact ⟨hx.runes, hy.runes⟩

/-- A well-formed text can be cut where a character starts. -/
theorem IsUtf8.of_append {x y : Text} (h : IsUtf8 (x ++ y)) (hy : Stops isTail y) : IsUtf8 x ∧ IsUtf8 y := by
  rw [isUtf8_iff, runes_append_stops hy, List.mem_append, not_or] at h
  exact ⟨isUtf8_of_runes x h.1, isUtf8_of_runes y h.2⟩

/-- What follows a well-formed text in a well-formed one is well formed. -/
theorem IsUtf8.right {x y : Text} (hx : IsUtf8 x) (h : IsUtf8 (x ++ y)) : IsUtf8 y := by
  rw [isUtf8_iff, hx.runes_append, List.mem_append, not_or] at h
  exact isUtf8_of_runes y h.2

theorem IsUtf8.stops {x : Text} (h : IsUtf8 x) (hne : x ≠ []) (y : Text) : Stops isTail (x ++ y) := by
  cases h with
  | nil => exact absurd rfl hne
  | cons hx _ =>
    obtain ⟨a, s, rfl, ha, -⟩ := hx.bytes
    rintro b hb
    cases hb
    exact ha

theorem isUtf8_of_ascii : ∀ {t : Text}, (∀ b ∈ t, b < 0x80) → IsUtf8 t
  | [], _ => .nil
  | a :: _, h => .cons (.one (h a List.mem_cons_self)) (isUtf8_of_ascii fun b hb => h b (List.mem_cons_of_mem _ hb))

theorem width_of_ascii : ∀ {t : Text}, (∀ b ∈ t, b < 0x80) → width t = t.length
  | [], _ => rfl
  | a :: t, h => by
    have ha : IsCharacter a.toNat [a] := .one (h a List.mem_cons_self)
    have ih := width_of_ascii fun b hb => h b (List.mem_cons_of_mem a hb)
    unfold width at ih ⊢
    rw [← List.singleton_append, ha.runes_append, List.length_cons, ih]
    rfl

/-- Where a well-formed piece stands in a well-formed text, so do its characters. -/
theorem IsUtf8.runes_infix {x y z : Text} (h : IsUtf8 (x ++ (y ++ z))) (hy : IsUtf8 y) (hne : y ≠ []) :
    Text.runes (x ++ (y ++ z)) = Text.runes x ++ (Text.runes y ++ Text.runes z) ∧ IsUtf8 x ∧ IsUtf8 z := by
  have hstops := hy.stops hne z
  obtain ⟨hx, hyz⟩ := h.of_append hstops
  rw [runes_append_stops hstops, hy.runes_append]
  exact ⟨rfl, hx, hy.right hyz⟩

/-! ## Pieces of a well-formed text -/

theorem le_of_isTail {b : UInt8} (h : isTail b = true) : 0x80 ≤ b := by
  simp only [isTail, Bool.and_eq_true, decide_eq_true_eq] at h
  exact h.1

theorem isTail_of_lt {b : UInt8} (h : b < 0x80) : isTail b = false := by
  rw [Bool.eq_false_iff]
  exact fun ht => UInt8.not_lt.2 (le_of_isTail ht) h

/-- Bytes of ASCII can be dropped. -/
theorem IsUtf8.filter {t : Text} (h : IsUtf8 t) {p : UInt8 → Bool} (hp : ∀ b, 0x80 ≤ b → p b = true) :
    IsUtf8 (t.filter p) := by
  induction h with
  | nil => exact .nil
  | @cons c x y hx _ ih =>
    rw [List.filter_append]
    refine IsUtf8.append ?_ ih
    have hchar : IsUtf8 x := by simpa using IsUtf8.cons hx .nil
    obtain ⟨a, s, rfl, -, htail, ⟨ha, rfl, -⟩ | ⟨ha, -⟩⟩ := hx.bytes
    · by_cases hkept : p a = true
      · rwa [List.filter_cons_of_pos hkept]
      · rw [List.filter_cons_of_neg hkept]
        exact .nil
    · rwa [List.filter_eq_self.2]
      intro b hb
      rcases List.mem_cons.1 hb with rfl | hb
      · exact hp b ha
      · exact hp b (le_of_isTail (htail b hb))

/-- A byte of ASCII separates well-formed texts. -/
theorem IsUtf8.of_append_cons {x y : Text} {sep : UInt8} (hsep : sep < 0x80) (h : IsUtf8 (x ++ sep :: y)) :
    IsUtf8 x ∧ IsUtf8 y := by
  have hstops : Stops isTail (sep :: y) := by
    rintro b hb
    cases hb
    exact isTail_of_lt hsep
  obtain ⟨hx, hy⟩ := h.of_append hstops
  have hone : IsUtf8 [sep] := by simpa using IsUtf8.cons (.one hsep) .nil
  exact ⟨hx, hone.right hy⟩

theorem IsUtf8.of_join {sep : UInt8} (hsep : sep < 0x80) :
    ∀ {parts : List Text}, IsUtf8 (join [sep] parts) → ∀ part ∈ parts, IsUtf8 part
  | [], _, _, hp => by cases hp
  | [only], h, part, hp => by
    rw [List.mem_singleton.1 hp]
    unfold join at h
    rwa [List.intercalate_singleton] at h
  | first :: second :: parts, h, part, hp => by
    unfold join at h
    rw [List.intercalate_cons_cons, List.append_assoc] at h
    obtain ⟨hfirst, hrest⟩ := h.of_append_cons hsep
    rcases List.mem_cons.1 hp with rfl | hp
    · exact hfirst
    · exact IsUtf8.of_join hsep hrest part hp

theorem IsUtf8.splitOn {t : Text} (h : IsUtf8 t) {sep : UInt8} (hsep : sep < 0x80) :
    ∀ part ∈ t.splitOn sep, IsUtf8 part := by
  refine IsUtf8.of_join hsep ?_
  unfold join
  rwa [List.intercalate_splitOn]

/-- The lines of a well-formed source are well formed. -/
theorem IsUtf8.sourceLines {t : Text} (h : IsUtf8 t) : ∀ line ∈ sourceLines t, IsUtf8 line := by
  refine IsUtf8.splitOn (h.filter fun b hb => ?_) (by decide)
  rw [bne_iff_ne]
  rintro rfl
  exact absurd hb (by decide)

/-! ## Characters that a source may hold -/

theorem isSourceRune_of_le {c : Nat} (h : 0x80 ≤ c) : isSourceRune (some c) = false := by
  simp only [isSourceRune, Bool.or_eq_false_iff, Bool.and_eq_false_iff, beq_eq_false_iff_ne,
    decide_eq_false_iff_not]
  omega

/-- A byte that is a character which a source may hold. -/
def isSourceByte (b : UInt8) : Bool := isSourceRune (some b.toNat)

theorem isSourceByte_of_le {b : UInt8} (h : 0x80 ≤ b) : isSourceByte b = false :=
  isSourceRune_of_le (UInt8.le_iff_toNat_le.1 h)

theorem le_of_first?_eq_none {a : UInt8} {s : Text} (h : Text.first? (a :: s) = none) : 0x80 ≤ a := by
  rw [← UInt8.not_lt]
  intro ha
  have hfirst := (IsCharacter.one ha).first? s
  rw [List.singleton_append, h] at hfirst
  cases hfirst

/-- All characters may stand in a source exactly if all bytes may. -/
theorem all_isSourceRune : ∀ t : Text, (runes t).all isSourceRune = t.all isSourceByte
  | [] => rfl
  | a :: s => by
    rcases cons_cases a s with ⟨c, x, y, he, hx, hlt⟩ | hstray
    · rw [he, hx.runes_append, List.all_cons, List.all_append]
      obtain ⟨a', s', rfl, -, -, ⟨-, rfl, rfl⟩ | ⟨ha, hc⟩⟩ := hx.bytes
      · rw [all_isSourceRune y, List.all_cons, List.all_nil, Bool.and_true]
        rfl
      · rw [isSourceRune_of_le hc, List.all_cons, isSourceByte_of_le ha]
        rfl
    · rw [runes_stray hstray, List.all_cons, List.all_cons, isSourceByte_of_le (le_of_first?_eq_none hstray)]
      rfl
termination_by t => t.length

theorem invalidColumns_eq_nil (t : Text) : invalidColumns t = [] ↔ ∀ b ∈ t, isSourceByte b = true := by
  rw [← List.all_eq_true, ← all_isSourceRune, List.all_eq_true]
  unfold invalidColumns
  simp only [List.filterMap_eq_nil_iff, ite_eq_left_iff, reduceCtorEq, imp_false, Decidable.not_not]
  constructor
  · intro h c hc
    obtain ⟨n, hn⟩ := List.getElem?_of_mem hc
    exact h (c, 1 + n) (List.mk_add_mem_zipIdx_iff_getElem?.2 hn)
  · rintro h ⟨c, column⟩ hp
    exact h c (List.fst_mem_of_mem_zipIdx hp)

end Sigma16.Text
