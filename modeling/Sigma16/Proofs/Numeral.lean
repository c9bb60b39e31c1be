/-
Literals and their numbers. In a numeral a digit counts by its place, which is the number of digits after it; leading
zeros count for nothing, and there may be any number of digits. A decimal is read exactly if it is a numeral whose
number has 32 bits with a sign, and a word in hexadecimal exactly if it has its four digits; each is read as its
number. As a term a numeral of any length stands for the word of its number, or is refused if the number has no word.
-/
import Sigma16.Proofs.Grammar
import Sigma16.Proofs.Object

namespace Sigma16

/-! ## Place values -/

namespace Text

/-- The number that digits denote to a base, every digit by its place. -/
def placeValue (base : Nat) (value : UInt8 → Nat) : Text → Nat
  | [] => 0
  | b :: t => value b * Nat.pow base t.length + placeValue base value t

def digitValue (b : UInt8) : Nat := b.toNat - '0'.toNat

/-- Numerals and their numbers: digits, possibly after a minus sign. -/
inductive Numeral : Text → Int → Prop where
  | natural {digits : Text} : digits ≠ [] → (∀ b ∈ digits, isDigit b = true) →
      Numeral digits (placeValue 10 digitValue digits)
  | negative {digits : Text} : digits ≠ [] → (∀ b ∈ digits, isDigit b = true) →
      Numeral ('-'.toUInt8 :: digits) (-(placeValue 10 digitValue digits : Int))

/-- Reading digits from the left gives them the values of their places. -/
theorem foldl_eq_placeValue (base : Nat) (value : UInt8 → Nat) : ∀ (t : Text) (n : Nat),
    t.foldl (fun n b => base * n + value b) n = n * Nat.pow base t.length + placeValue base value t
  | [], n => by simp [placeValue]
  | b :: t, n => by
    rw [List.foldl_cons, foldl_eq_placeValue base value t, placeValue, List.length_cons]
    show (base * n + value b) * Nat.pow base t.length + _ =
      n * (Nat.pow base t.length * base) + (value b * Nat.pow base t.length + _)
    rw [Nat.add_mul, Nat.add_assoc, Nat.mul_comm base n, Nat.mul_assoc, Nat.mul_comm base]

theorem placeValue_lt {base : Nat} {value : UInt8 → Nat} : ∀ {t : Text}, (∀ b ∈ t, value b < base) →
    placeValue base value t < Nat.pow base t.length
  | [], _ => Nat.one_pos
  | b :: t, h => by
    have hb : value b + 1 ≤ base := h b List.mem_cons_self
    have ht := placeValue_lt fun c hc => h c (List.mem_cons_of_mem b hc)
    calc value b * Nat.pow base t.length + placeValue base value t
        < value b * Nat.pow base t.length + Nat.pow base t.length := Nat.add_lt_add_left ht _
      _ = (value b + 1) * Nat.pow base t.length := (Nat.succ_mul _ _).symm
      _ ≤ base * Nat.pow base t.length := Nat.mul_le_mul_right _ hb
      _ = Nat.pow base t.length * base := Nat.mul_comm _ _

theorem natural?_eq_some {t : Text} {n : Nat} : natural? t = some n ↔
    t ≠ [] ∧ (∀ b ∈ t, isDigit b = true) ∧ n = placeValue 10 digitValue t := by
  have hvalue : t.foldl (fun n b => 10 * n + (b.toNat - '0'.toNat)) 0 = placeValue 10 digitValue t := by
    have h := foldl_eq_placeValue 10 digitValue t 0
    rw [Nat.zero_mul, Nat.zero_add] at h
    exact h
  unfold natural?
  rw [hvalue]
  simp only [List.all_eq_true, Option.ite_none_right_eq_some, Option.some.injEq, and_assoc, eq_comm (b := n)]

theorem numeral_iff {t : Text} {n : Int} : Numeral t n ↔ decimal? t = some n := by
  constructor
  · intro h
    cases h with
    | @natural digits hne hdigits =>
      obtain ⟨b, t, rfl⟩ := List.exists_cons_of_ne_nil hne
      have hminus : b ≠ '-'.toUInt8 := by
        rintro rfl
        cases hdigits _ List.mem_cons_self
      rw [decimal?, if_neg hminus, natural?_eq_some.2 ⟨hne, hdigits, rfl⟩]
      rfl
    | negative hne hdigits =>
      rw [decimal?, if_pos rfl, natural?_eq_some.2 ⟨hne, hdigits, rfl⟩]
      rfl
  · intro h
    cases t with
    | nil => cases h
    | cons b t =>
      rcases decimal?_cons h with ⟨rfl, m, hm, rfl⟩ | ⟨-, m, hm, rfl⟩
      · obtain ⟨hne, hdigits, rfl⟩ := natural?_eq_some.1 hm
        exact .negative hne hdigits
      · obtain ⟨hne, hdigits, rfl⟩ := natural?_eq_some.1 hm
        exact .natural hne hdigits

theorem Numeral.spelt {t : Text} {n : Int} (h : Numeral t n) : (Term.decimal t).Spelt t := by
  cases h with
  | natural hne hdigits => exact .decimal hne hdigits
  | negative hne hdigits => exact .negative hne hdigits

end Text

/-! ## Reading literals -/

namespace Literal

theorem isDigit_of_digits : ∀ {t : Text} {n m : Nat}, digits n t = .ok m → ∀ b ∈ t, Text.isDigit b = true
  | [], _, _, _ => List.forall_mem_nil _
  | b :: t, n, m, h => by
    unfold digits at h
    split at h
    · rename_i hb
      dsimp only at h
      split at h
      · exact List.forall_mem_cons.2 ⟨hb, isDigit_of_digits h⟩
      · cases h
    · cases h

/-- What is read as a decimal has the form of one. -/
theorem isDecimal_of_decimal {t : Text} {n : Int} (h : decimal t = .ok n) : Text.isDecimal t = true := by
  unfold decimal at h
  unfold Text.isDecimal
  split at h
  · cases h
  · dsimp only at h ⊢
    generalize (if t.head? == some '-'.toUInt8 then t.tail else t) = body at h ⊢
    split at h
    · cases h
    · rename_i hne
      split at h
      · cases h
      · cases h
      · rename_i hdigits
        simpa [hne] using isDigit_of_digits hdigits

/-- A decimal is read exactly if it is a numeral whose number has 32 bits with a sign. -/
theorem decimal_eq_ok {t : Text} {n : Int} :
    decimal t = .ok n ↔ Text.Numeral t n ∧ -2147483648 ≤ n ∧ n ≤ 2147483647 := by
  rw [Text.numeral_iff]
  constructor
  · intro h
    obtain ⟨k, hk⟩ := Text.isDecimal_iff.1 (isDecimal_of_decimal h)
    rw [decimal_eq hk] at h
    split at h
    · cases h
      exact ⟨hk, by omega, by omega⟩
    · cases h
  · rintro ⟨hn, hlow, hhigh⟩
    rw [decimal_eq hn, if_pos (by omega)]

/-- A word in hexadecimal is read exactly if it has a dollar sign and its four digits. -/
theorem hex_eq_ok {t : Text} {w : Word} : hex t = .ok w ↔ ∃ digits, t = '$'.toUInt8 :: digits ∧ digits.length = 4 ∧
    (∀ b ∈ digits, Text.isHexDigit b = true) ∧ w.toNat = Text.placeValue 16 Text.hexValue digits := by
  have hvalue {digits : Text} (hlength : digits.length = 4) :
      (UInt16.ofNat (Text.hexNumber digits)).toNat = Text.placeValue 16 Text.hexValue digits := by
    have hplaces := Text.foldl_eq_placeValue 16 Text.hexValue digits 0
    rw [Nat.zero_mul, Nat.zero_add] at hplaces
    have hlt := Text.placeValue_lt (t := digits) fun b _ => Text.hexValue_lt b
    rw [hlength] at hlt
    show (UInt16.ofNat (digits.foldl _ 0)).toNat = _
    rw [hplaces]
    exact Nat.mod_eq_of_lt hlt
  constructor
  · intro h
    unfold hex at h
    split at h
    · rename_i dollar x y z w
      split at h
      · rename_i hdollar
        split at h
        · rename_i hdigits
          cases h
          exact ⟨[x, y, z, w], by rw [beq_iff_eq.1 hdollar], rfl, List.all_eq_true.1 hdigits, hvalue rfl⟩
        · cases h
      · cases h
    · cases h
  · rintro ⟨digits, rfl, hlength, hdigits, hw⟩
    rw [hex_eq rfl hlength hdigits]
    exact congrArg _ (UInt16.toNat_inj.1 ((hvalue hlength).trans hw.symm))

/-- A word is read back from its digits. -/
theorem hex_hex (w : Word) : hex ('$'.toUInt8 :: w.hex) = .ok w := by
  rw [hex_eq rfl rfl (List.all_eq_true.1 w.hex_all), Word.hexNumber_hex, UInt16.ofNat_toNat]

end Literal

/-! ## Numerals as terms -/

/-- The word of an integer is its remainder. -/
theorem Word.toNat_ofInt (n : Int) : ((UInt16.ofInt n).toNat : Int) = n % 65536 := by
  show (((n % 65536).toNat % 65536 : Nat) : Int) = n % 65536
  omega

/-- A numeral stands for the word of its number under any bindings, or is refused. -/
theorem evaluateTerm_numeral {t : Text} {n : Int} (h : Text.Numeral t n) (symbols : SymbolTable) (s : Statement) :
    evaluateTerm symbols s t =
      if -32768 ≤ n ∧ n ≤ 65535 then ⟨.const (.ofInt n), {}⟩
      else ⟨.const 0, { errors := [⟨s.textCursor t, .invalidLiteral t⟩] }⟩ := by
  have hn := Text.numeral_iff.1 h
  split
  · rename_i hrange
    exact SymbolTable.TermMeans.evaluateTerm h.spelt (.inRange hn hrange.1 hrange.2) s
  · exact SymbolTable.TermMeans.evaluateTerm h.spelt (.outOfRange hn (by omega)) s

/-- Literals have the number that they denote or are refused. A text is read as a decimal exactly if it is a numeral
whose number has 32 bits with a sign, and as a word in hexadecimal exactly if it is a dollar sign and four digits; both
give the number by its places, and every word is read back from its digits. A numeral of any length stands for its
number modulo the number of words, and nothing is reported, exactly if the number fits into a word with or without a
sign; else it is reported once and counts as zero. -/
theorem literals_denote (t : Text) :
    (∀ n, Literal.decimal t = .ok n ↔ Text.Numeral t n ∧ -2147483648 ≤ n ∧ n ≤ 2147483647) ∧
    (∀ w, Literal.hex t = .ok w ↔ ∃ digits, t = '$'.toUInt8 :: digits ∧ digits.length = 4 ∧
      (∀ b ∈ digits, Text.isHexDigit b = true) ∧ w.toNat = Text.placeValue 16 Text.hexValue digits) ∧
    (∀ w : Word, Literal.hex ('$'.toUInt8 :: w.hex) = .ok w) ∧
    ∀ n, Text.Numeral t n → ∀ (symbols : SymbolTable) (s : Statement),
      ((∃ w : Word, (w.toNat : Int) = n % 65536 ∧ evaluateTerm symbols s t = ⟨.const w, {}⟩) ↔
        -32768 ≤ n ∧ n ≤ 65535) ∧
      (¬ (-32768 ≤ n ∧ n ≤ 65535) →
        evaluateTerm symbols s t = ⟨.const 0, { errors := [⟨s.textCursor t, .invalidLiteral t⟩] }⟩) := by
  refine ⟨fun n => Literal.decimal_eq_ok, fun w => Literal.hex_eq_ok, Literal.hex_hex, fun n hn symbols s => ?_⟩
  rw [evaluateTerm_numeral hn]
  by_cases hrange : -32768 ≤ n ∧ n ≤ 65535
  · rw [if_pos hrange]
    exact ⟨⟨fun _ => hrange, fun _ => ⟨_, Word.toNat_ofInt n, rfl⟩⟩, fun hout => absurd hrange hout⟩
  · rw [if_neg hrange]
    refine ⟨⟨?_, fun h => absurd h hrange⟩, fun _ => rfl⟩
    rintro ⟨w, -, h⟩
    cases h

/-- The least number of a word, after more zeros than a number of 64 bits has digits. -/
theorem literals_denote_zeros :
    Literal.decimal "-0000000000000000000000032768" = .ok (-32768) ∧
    ∃ w : Word, w.toNat = 0x8000 ∧
      evaluateTerm .empty (.read 1 (.const 0) " data 1") "-0000000000000000000000032768" = ⟨.const w, {}⟩ := by
  have hdigits : ∀ b ∈ Text.ofString "0000000000000000000000032768", Text.isDigit b = true :=
    List.all_eq_true.1 (by decide)
  have hn : Text.Numeral "-0000000000000000000000032768" (-32768) := .negative (by decide) hdigits
  obtain ⟨hdecimal, -, -, hterm⟩ := literals_denote "-0000000000000000000000032768"
  obtain ⟨w, hw, heval⟩ := (hterm _ hn .empty (.read 1 (.const 0) " data 1")).1.2 (by decide)
  exact ⟨(hdecimal _).2 ⟨hn, by decide, by decide⟩, w, by omega, heval⟩

end Sigma16
