/-
Sums of values. Values have a sum if all of them are words of the module and at most one of them moves.
Their words are added then, and the sum moves if one of them does. So neither the order of the terms nor
their grouping matters, zero changes nothing, and a sum is the same whether the module is moved before or
after it is taken.
-/
import Sigma16.Proofs.Rebase

namespace Sigma16.Value

/-! ## Values that have a sum -/

/-- Words of this module, of which at most one moves. -/
def Compatible (vs : List Value) : Prop :=
  (∀ v ∈ vs, v.isExternal = false) ∧ vs.countP isRelocatable ≤ 1

/-- The sum of compatible values. -/
def total (vs : List Value) : Value :=
  ⟨vs.foldr (·.word + ·) 0, .loc, if vs.any isRelocatable then .rel else .fix⟩

theorem not_compatible_iff {vs : List Value} :
    ¬ Compatible vs ↔ (∃ v ∈ vs, v.isExternal = true) ∨ 2 ≤ vs.countP isRelocatable := by
  unfold Compatible
  rw [Classical.not_and_iff_not_or_not, Nat.not_le, Nat.lt_iff_add_one_le]
  simp only [Classical.not_forall, Bool.not_eq_false, exists_prop]

theorem Compatible.perm {vs ws : List Value} (h : vs.Perm ws) : Compatible vs ↔ Compatible ws := by
  unfold Compatible
  simp only [h.mem_iff, h.countP_eq]

theorem Compatible.sublist {vs ws : List Value} (h : Compatible ws) (hs : vs.Sublist ws) : Compatible vs :=
  ⟨fun v hv => h.1 v (hs.subset hv), Nat.le_trans hs.countP_le h.2⟩

theorem total_perm {vs ws : List Value} (h : vs.Perm ws) : total vs = total ws := by
  have hword : vs.foldr (·.word + ·) 0 = ws.foldr (·.word + ·) (0 : Word) := by
    apply h.foldr_eq'
    intro x _ y _ w
    rw [← UInt16.add_assoc, UInt16.add_comm y.word, UInt16.add_assoc]
  unfold total
  rw [hword, h.any_eq]

theorem total_isRelocatable (vs : List Value) : (total vs).isRelocatable = vs.any isRelocatable := by
  unfold total
  cases vs.any isRelocatable <;> rfl

theorem foldr_word_add (vs : List Value) (w : Word) :
    vs.foldr (·.word + ·) w = vs.foldr (·.word + ·) 0 + w := by
  induction vs with
  | nil => exact (UInt16.zero_add w).symm
  | cons v vs ih => rw [List.foldr_cons, List.foldr_cons, ih, UInt16.add_assoc]

/-- Terms can be replaced by their sum. -/
theorem total_grouped (vs ws : List Value) : total (total vs :: ws) = total (vs ++ ws) := by
  have hword : (total vs).word + ws.foldr (·.word + ·) 0 = (vs ++ ws).foldr (·.word + ·) 0 := by
    rw [List.foldr_append, foldr_word_add vs]
    rfl
  have hmoves : (total vs :: ws).any isRelocatable = (vs ++ ws).any isRelocatable := by
    rw [List.any_cons, total_isRelocatable, List.any_append]
  calc total (total vs :: ws)
      = ⟨(total vs).word + ws.foldr (·.word + ·) 0, .loc,
          if (total vs :: ws).any isRelocatable then .rel else .fix⟩ := rfl
    _ = total (vs ++ ws) := by
      rw [hword, hmoves]
      rfl

/-- Of compatible values as many move as of their sum alone. -/
theorem Compatible.countP_eq {vs : List Value} (h : Compatible vs) :
    vs.countP isRelocatable = if (total vs).isRelocatable then 1 else 0 := by
  rw [total_isRelocatable]
  cases hmoves : vs.any isRelocatable with
  | false =>
    rw [List.any_eq_false] at hmoves
    exact List.countP_eq_zero.2 hmoves
  | true =>
    have hpos : 0 < vs.countP isRelocatable := List.countP_pos_iff.2 (List.any_eq_true.1 hmoves)
    exact Nat.le_antisymm h.2 hpos

theorem Compatible.grouped_iff {vs : List Value} (h : Compatible vs) (ws : List Value) :
    Compatible (total vs :: ws) ↔ Compatible (vs ++ ws) := by
  have hlocal : (∀ v ∈ total vs :: ws, v.isExternal = false) ↔ ∀ v ∈ vs ++ ws, v.isExternal = false := by
    rw [List.forall_mem_cons, List.forall_mem_append]
    exact and_congr_left' ⟨fun _ => h.1, fun _ => rfl⟩
  have hmoves : (total vs :: ws).countP isRelocatable = (vs ++ ws).countP isRelocatable := by
    rw [List.countP_cons, List.countP_append, h.countP_eq, Nat.add_comm]
  unfold Compatible
  rw [hlocal, hmoves]

/-! ## Sums of two values -/

theorem add_comm (x y : Value) : x.add y = y.add x := by
  rw [add_eq, add_eq, Bool.or_comm x.isExternal, Bool.and_comm x.isRelocatable, Bool.or_comm x.isRelocatable,
    UInt16.add_comm x.word]

theorem compatible_pair {x y : Value} : Compatible [x, y] ↔
    (x.isExternal || y.isExternal) = false ∧ (x.isRelocatable && y.isRelocatable) = false := by
  unfold Compatible
  rw [List.forall_mem_cons, List.forall_mem_singleton, Bool.or_eq_false_iff]
  apply and_congr_right'
  cases hx : x.isRelocatable <;> cases hy : y.isRelocatable <;> simp [hx, hy]

theorem add_eq_ok_iff {x y v : Value} : x.add y = .ok v ↔ Compatible [x, y] ∧ v = total [x, y] := by
  have htotal : total [x, y] =
      ⟨x.word + y.word, .loc, if x.isRelocatable || y.isRelocatable then .rel else .fix⟩ := by
    unfold total
    rw [List.foldr_cons, List.foldr_cons, List.foldr_nil, UInt16.add_zero, List.any_cons, List.any_cons, List.any_nil,
      Bool.or_false]
  rw [add_eq, compatible_pair, htotal]
  cases x.isExternal || y.isExternal with
  | true => exact ⟨nofun, fun h => nomatch h.1.1⟩
  | false =>
    cases x.isRelocatable && y.isRelocatable with
    | true => exact ⟨nofun, fun h => nomatch h.1.2⟩
    | false => exact ⟨fun h => ⟨⟨rfl, rfl⟩, (Except.ok.inj h).symm⟩, fun h => congrArg Except.ok h.2.symm⟩

/-! ## Sums of any number of values -/

theorem bind_eq_ok_iff {s : Except ArithmeticFault Value} {f : Value → Except ArithmeticFault Value} {v : Value} :
    (s >>= f) = .ok v ↔ ∃ u, s = .ok u ∧ f u = .ok v := by
  cases s with
  | error fault => exact ⟨nofun, fun ⟨_, h, _⟩ => nomatch h⟩
  | ok u => exact ⟨fun h => ⟨u, rfl, h⟩, fun ⟨_, hu, h⟩ => Except.ok.inj hu ▸ h⟩

/-- Values that are added one after the other have a sum exactly if they are compatible. -/
theorem foldlM_add_eq_ok_iff {v : Value} (zs : List Value) (x y : Value) :
    (y :: zs).foldlM add x = .ok v ↔ Compatible (x :: y :: zs) ∧ v = total (x :: y :: zs) := by
  -- the first two terms are replaced by their sum, which is compatible with the rest exactly if they are
  induction zs generalizing x y with
  | nil =>
    rw [List.foldlM_cons, bind_eq_ok_iff]
    constructor
    · rintro ⟨u, hu, h⟩
      cases h
      exact add_eq_ok_iff.1 hu
    · intro h
      exact ⟨v, add_eq_ok_iff.2 h, rfl⟩
  | cons z zs ih =>
    rw [List.foldlM_cons, bind_eq_ok_iff]
    constructor
    · rintro ⟨u, hu, h⟩
      obtain ⟨hxy, rfl⟩ := add_eq_ok_iff.1 hu
      rw [ih, hxy.grouped_iff, total_grouped] at h
      exact h
    · intro h
      have hxy : Compatible [x, y] := h.1.sublist (by simp)
      refine ⟨total [x, y], add_eq_ok_iff.2 ⟨hxy, rfl⟩, ?_⟩
      rw [ih, hxy.grouped_iff, total_grouped]
      exact h

theorem add_add_eq_ok_iff (x y z v : Value) :
    (x.add y >>= (·.add z)) = .ok v ↔ Compatible [x, y, z] ∧ v = total [x, y, z] := by
  rw [← foldlM_add_eq_ok_iff]
  simp only [List.foldlM_cons, List.foldlM_nil, bind_pure]

/-- Of three values, the last two can be added first. -/
theorem add_grouped_eq_ok_iff (x y z v : Value) :
    (y.add z >>= x.add) = .ok v ↔ Compatible [x, y, z] ∧ v = total [x, y, z] := by
  have hperm : [y, z, x].Perm [x, y, z] := List.perm_append_singleton x [y, z]
  rw [show x.add = (·.add x) from funext (add_comm x), add_add_eq_ok_iff, Compatible.perm hperm, total_perm hperm]

-- which fault is met first depends on the grouping
example : ((relocatable 1).add (relocatable 2) >>= (·.add external)) = .error .relocatableSum := rfl

example : ((relocatable 2).add external >>= (relocatable 1).add) = .error .external := rfl

/-- Where exactly the compatible values have a sum, a fault means a foreign term or two that move. -/
theorem fails_iff {s : Except ArithmeticFault Value} {vs : List Value}
    (h : ∀ v, s = .ok v ↔ Compatible vs ∧ v = total vs) :
    (∃ fault, s = .error fault) ↔ (∃ v ∈ vs, v.isExternal = true) ∨ 2 ≤ vs.countP isRelocatable := by
  rw [← not_compatible_iff]
  cases s with
  | error fault =>
    have hnot : ¬ Compatible vs := fun hc => nomatch (h (total vs)).2 ⟨hc, rfl⟩
    exact ⟨fun _ => hnot, fun _ => ⟨fault, rfl⟩⟩
  | ok v =>
    have hc : Compatible vs := ((h v).1 rfl).1
    exact ⟨fun ⟨_, hfault⟩ => (nomatch hfault), fun hnot => absurd hc hnot⟩

/-! ## Sums in a module that is moved -/

/-- The word of a sum moves by as much as the words of its terms together. -/
theorem add_moved_word {x y v : Value} (h : x.add y = .ok v) (b : Word) :
    (v.moved b).word = (x.moved b).word + (y.moved b).word := by
  have hb : (x.moved b).add (y.moved b) = .ok (v.moved b) := by
    rw [add_moved, h]
    rfl
  rw [(add_eq_ok_iff.1 hb).2]
  show (x.moved b).word + ((y.moved b).word + 0) = _
  rw [UInt16.add_zero]

/-- Values under addition are a partial commutative monoid: the order of the terms matters neither for the sum nor
for the fault, zero is neutral, and the grouping of three terms matters neither for the sum nor for whether
there is one. Moving the module by any base moves a sum as it moves the terms, and no sum is negative. -/
theorem add_partial_commMonoid (x y z : Value) :
    (x.add y = y.add x ∧ x.addOrZero y = y.addOrZero x) ∧
    (x.IsLocal → (const 0).add x = .ok x ∧ x.add (const 0) = .ok x) ∧
    ((∃ fault, (x.add y >>= (·.add z)) = .error fault) ↔ ∃ fault, (y.add z >>= x.add) = .error fault) ∧
    ((∃ fault, (x.add y >>= (·.add z)) = .error fault) ↔
      (∃ v ∈ [x, y, z], v.isExternal = true) ∨ 2 ≤ [x, y, z].countP isRelocatable) ∧
    (∀ v, (x.add y >>= (·.add z)) = .ok v ↔ (y.add z >>= x.add) = .ok v) ∧
    (∀ v, x.add y = .ok v → ∀ b, (v.moved b).word = (x.moved b).word + (y.moved b).word) ∧
    x.add y ≠ .error .negative := by
  have hcomm := add_comm x y
  have hleft := fails_iff (add_add_eq_ok_iff x y z)
  have hright := fails_iff (add_grouped_eq_ok_iff x y z)
  refine ⟨⟨hcomm, ?_⟩, ?_, hleft.trans hright.symm, hleft, ?_, fun v h => add_moved_word h,
    fun h => add_ne_negative h rfl⟩
  · unfold addOrZero
    rw [hcomm]
  · intro hx
    exact ⟨(add_comm _ x).trans (add_zero hx), add_zero hx⟩
  · intro v
    exact (add_add_eq_ok_iff x y z v).trans (add_grouped_eq_ok_iff x y z v).symm

/-- A moving address and two fixed words, of which the sum wraps around, in a module moved by half the memory. -/
theorem add_partial_commMonoid_around :
    (relocatable 0xffff).IsLocal ∧ (const 0).add (relocatable 0xffff) = .ok (relocatable 0xffff) ∧
    (relocatable 0xffff).add (const 2) = .ok (relocatable 1) ∧
    ((relocatable 1).moved 0x8000).word = ((relocatable 0xffff).moved 0x8000).word + ((const 2).moved 0x8000).word := by
  have hlocal := relocatable_isLocal 0xffff
  have hsum : (relocatable 0xffff).add (const 2) = .ok (relocatable 1) := rfl
  obtain ⟨-, hzero, -, -, -, hmoved, -⟩ := add_partial_commMonoid (relocatable 0xffff) (const 2) (const 3)
  exact ⟨hlocal, (hzero hlocal).1, hsum, hmoved _ hsum 0x8000⟩

end Sigma16.Value
