/-
Numerals and the numbers they denote. Digits are read from the left and given up as soon as the number needs more
than 32 bits, which is never too early: a numeral of any length is accepted exactly if its number has a word, and
then stands for that word.
-/
import Sigma16.Expression
import Sigma16.Literal

namespace Sigma16

/-! ## Numbers -/

namespace Text

/-- The number that decimal digits denote. -/
def natural? (t : Text) : Option Nat :=
  if t ≠ [] ∧ t.all isDigit = true then some (t.foldl (fun n b => 10 * n + (b.toNat - '0'.toNat)) 0) else none

/-- The number that decimal digits denote, after a minus sign if there is one. -/
def decimal? : Text → Option Int
  | [] => none
  | b :: t => if b = '-'.toUInt8 then (natural? t).map fun n : Nat => -(n : Int) else (natural? (b :: t)).map Int.ofNat

theorem natural?_isSome (t : Text) : (natural? t).isSome = (!t.isEmpty && t.all isDigit) := by
  unfold natural?
  split
  · rename_i h
    simp [h.1, h.2]
  · rename_i h
    cases t with
    | nil => rfl
    | cons b t => simpa using h

theorem isDigit_of_natural? {b : UInt8} {t : Text} {n : Nat} (h : natural? (b :: t) = some n) : isDigit b = true := by
  have hsome := natural?_isSome (b :: t)
  rw [h] at hsome
  simp only [Option.isSome_some, List.isEmpty_cons, Bool.not_false, Bool.true_and, List.all_cons] at hsome
  exact (Bool.and_eq_true_iff.1 hsome.symm).1

/-- The decimals are the texts that denote an integer. -/
theorem isDecimal_eq (t : Text) : isDecimal t = (decimal? t).isSome := by
  unfold isDecimal
  cases t with
  | nil => rfl
  | cons b t =>
    unfold decimal?
    by_cases hb : b = '-'.toUInt8
    · simp [hb, natural?_isSome]
    · simp [hb, natural?_isSome]

theorem isDecimal_iff {t : Text} : isDecimal t = true ↔ ∃ n, decimal? t = some n := by
  rw [isDecimal_eq, Option.isSome_iff_exists]

/-- A byte and digits denote an integer if the byte is a minus sign or a digit too. -/
theorem decimal?_cons {b : UInt8} {t : Text} {n : Int} (h : decimal? (b :: t) = some n) :
    (b = '-'.toUInt8 ∧ ∃ m, natural? t = some m ∧ n = -(m : Int)) ∨
    (b ≠ '-'.toUInt8 ∧ ∃ m, natural? (b :: t) = some m ∧ n = m) := by
  rw [decimal?] at h
  split at h
  · rename_i hb
    obtain ⟨m, hm, rfl⟩ := Option.map_eq_some_iff.1 h
    exact .inl ⟨hb, m, hm, rfl⟩
  · rename_i hb
    obtain ⟨m, hm, rfl⟩ := Option.map_eq_some_iff.1 h
    exact .inr ⟨hb, m, hm, rfl⟩

end Text

/-! ## Reading them -/

namespace Literal

theorem le_foldl_digits : ∀ (t : Text) (n : Nat), n ≤ t.foldl (fun n b => 10 * n + (b.toNat - '0'.toNat)) n
  | [], _ => Nat.le_refl _
  | b :: t, n => by
    have h := le_foldl_digits t (10 * n + (b.toNat - '0'.toNat))
    rw [List.foldl_cons]
    omega

/-- A number that has become too large stays too large, whatever digits follow. -/
theorem digits_eq : ∀ {t : Text} {n : Nat}, (∀ b ∈ t, Text.isDigit b = true) → n < 0x100000000 → digits n t =
    if t.foldl (fun n b => 10 * n + (b.toNat - '0'.toNat)) n < 0x100000000 then
      .ok (t.foldl (fun n b => 10 * n + (b.toNat - '0'.toNat)) n)
    else .error .tooLarge
  | [], n, _, hn => (if_pos hn).symm
  | b :: t, n, h, _ => by
    have hb := h b List.mem_cons_self
    have ht : ∀ c ∈ t, Text.isDigit c = true := fun c hc => h c (List.mem_cons_of_mem _ hc)
    have hle := le_foldl_digits t (10 * n + (b.toNat - '0'.toNat))
    have hstep : digits n (b :: t) = if 10 * n + (b.toNat - '0'.toNat) < 0x100000000 then
        digits (10 * n + (b.toNat - '0'.toNat)) t else .error .tooLarge := if_pos hb
    rw [hstep, List.foldl_cons]
    by_cases hsmall : 10 * n + (b.toNat - '0'.toNat) < 0x100000000
    · rw [if_pos hsmall]
      exact digits_eq ht hsmall
    · rw [if_neg hsmall, if_neg (by omega)]

theorem digits_of_natural? {t : Text} {n : Nat} (h : Text.natural? t = some n) :
    t.isEmpty = false ∧ digits 0 t = if n < 0x100000000 then .ok n else .error .tooLarge := by
  unfold Text.natural? at h
  split at h
  · rename_i ht
    cases h
    exact ⟨by simpa using ht.1, digits_eq (List.all_eq_true.1 ht.2) (by decide)⟩
  · cases h

/-- Digits are read as their number, with the sign in front of them. -/
theorem decimal_of_natural? {t : Text} {m : Nat} (hplus : t.head? ≠ some '+'.toUInt8)
    (hm : Text.natural? (if t.head? == some '-'.toUInt8 then t.tail else t) = some m) : decimal t =
      if t.head? == some '-'.toUInt8 then if m ≤ 0x80000000 then .ok (-m) else .error (.decimalRange t)
      else if m < 0x80000000 then .ok m else .error (.decimalRange t) := by
  obtain ⟨hne, hdigits⟩ := digits_of_natural? hm
  unfold decimal
  rw [if_neg (by simpa using hplus)]
  simp only [hne, hdigits, Bool.false_eq_true, if_false]
  -- more than 32 bits are more than 32 bits with a sign
  by_cases hsmall : m < 0x100000000
  · simp only [hsmall, if_true]
  · simp only [hsmall, if_false]
    rw [if_neg (show ¬ m ≤ 0x80000000 by omega), if_neg (show ¬ m < 0x80000000 by omega), ite_self]

/-- A numeral is read as its number, if that has 32 bits with a sign. -/
theorem decimal_eq {t : Text} {n : Int} (h : Text.decimal? t = some n) : decimal t =
    if -0x80000000 ≤ n ∧ n < 0x80000000 then .ok n else .error (.decimalRange t) := by
  cases t with
  | nil => cases h
  | cons b t =>
    rcases Text.decimal?_cons h with ⟨rfl, m, hm, rfl⟩ | ⟨hb, m, hm, rfl⟩
    · rw [decimal_of_natural? (t := '-'.toUInt8 :: t) (show some '-'.toUInt8 ≠ some '+'.toUInt8 by decide) hm]
      simp only [List.head?_cons, beq_self_eq_true, if_true]
      split <;> split <;> first | rfl | omega
    · have hdigit := Text.isDigit_of_natural? hm
      have hplus : b ≠ '+'.toUInt8 := by
        rintro rfl
        cases hdigit
      rw [decimal_of_natural? (by simpa using hplus) (by simpa [hb] using hm)]
      simp only [List.head?_cons, Option.some_beq_some, beq_eq_false_iff_ne.2 hb, Bool.false_eq_true, if_false]
      split <;> split <;> first | rfl | omega

/-- A numeral stands for the word of its number, of any length. -/
theorem decimal_word {t : Text} {n : Int} (h : Text.decimal? t = some n) :
    (decimal t).toOption.bind Word.ofInt? = Word.ofInt? n := by
  rw [decimal_eq h]
  split
  · rfl
  · unfold Word.ofInt?
    rw [if_neg (by omega)]
    rfl

theorem hex_eq {dollar : UInt8} {digits : Text} (hdollar : dollar = '$'.toUInt8) (hlength : digits.length = 4)
    (hdigits : ∀ b ∈ digits, Text.isHexDigit b = true) :
    hex (dollar :: digits) = .ok (.ofNat (Text.hexNumber digits)) := by
  match digits, hlength with
  | [x, y, z, w], _ => simp only [hex, hdollar, beq_self_eq_true, if_true, List.all_eq_true.2 hdigits]

end Literal

end Sigma16
