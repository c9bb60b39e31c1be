/-
Maximal munch. The parts of a line are, from left to right, the longest runs of bytes of their classes, and nothing of
the line is lost; there is no other way to take a line apart of which this holds. Of all the ways to cut a line into
parts of the right bytes, whatever their lengths, it is the one that a match finds which makes the first part as long as
it can, then the second, and so on: such a match never has to take a step back.
-/
import Sigma16.Proofs.Line

namespace Sigma16

/-! ## The longest run at the start of a text -/

namespace Text

/-- The longest run of bytes of a class that a text starts with. -/
structure LongestRun (p : UInt8 → Bool) (run t : Text) : Prop where
  start : run <+: t
  bytes : ∀ b ∈ run, p b = true
  longest : ∀ other, other <+: t → (∀ b ∈ other, p b = true) → other.length ≤ run.length

theorem prefix_takeWhile {p : UInt8 → Bool} {run t : Text} (h : run <+: t) (hrun : ∀ b ∈ run, p b = true) :
    run <+: t.takeWhile p := by
  obtain ⟨rest, rfl⟩ := h
  rw [List.takeWhile_append_of_pos hrun]
  exact List.prefix_append _ _

/-- A run is the longest one exactly if the text goes on with a byte of another class, or ends. -/
theorem longestRun_append {p : UInt8 → Bool} {run rest : Text} :
    LongestRun p run (run ++ rest) ↔ (∀ b ∈ run, p b = true) ∧ Stops p rest := by
  constructor
  · rintro ⟨-, hbytes, hlongest⟩
    refine ⟨hbytes, fun b hb => ?_⟩
    obtain ⟨rest, rfl⟩ : ∃ tail, rest = b :: tail := List.head?_eq_some_iff.1 hb
    rw [← Bool.not_eq_true]
    intro hp
    -- one more byte would make a longer run
    have hlonger := hlongest (run ++ [b]) ⟨rest, by rw [List.append_assoc, List.singleton_append]⟩
      (List.forall_mem_append.2 ⟨hbytes, List.forall_mem_singleton.2 hp⟩)
    rw [List.length_append, List.length_singleton] at hlonger
    omega
  · rintro ⟨hbytes, hstops⟩
    refine ⟨List.prefix_append _ _, hbytes, fun other hother hclass => ?_⟩
    have hprefix := prefix_takeWhile hother hclass
    rw [takeWhile_append_stops hbytes hstops] at hprefix
    exact hprefix.length_le

/-- A run of bytes of a class is shorter than the longest one, or it is the longest one. -/
theorem run_cases {p : UInt8 → Bool} {run : Text} (hrun : ∀ b ∈ run, p b = true) (rest : Text) :
    run.length < ((run ++ rest).takeWhile p).length ∨
      (run ++ rest).takeWhile p = run ∧ (run ++ rest).dropWhile p = rest := by
  by_cases hstops : Stops p rest
  · exact .inr ⟨takeWhile_append_stops hrun hstops, dropWhile_append_stops hrun hstops⟩
  · left
    have hlonger : rest.takeWhile p ≠ [] := by
      intro hnil
      refine hstops fun b hb => ?_
      obtain ⟨tail, rfl⟩ := List.head?_eq_some_iff.1 hb
      rw [List.takeWhile_cons] at hnil
      split at hnil
      · cases hnil
      · rename_i hp
        exact eq_false_of_ne_true hp
    rw [List.takeWhile_append_of_pos hrun, List.length_append]
    have hpos := List.length_pos_iff.2 hlonger
    omega

end Text

/-! ## The parts of a line -/

namespace Line

/-- The first five parts of a line are the longest runs of their bytes, each at its place. -/
structure Munched (l : Line) : Prop where
  label : Text.LongestRun Text.isWordByte l.label
    (l.label ++ (l.labelGap ++ (l.mnemonic ++ (l.mnemonicGap ++ (l.operands ++ l.comment)))))
  labelGap : Text.LongestRun Text.isBlank l.labelGap
    (l.labelGap ++ (l.mnemonic ++ (l.mnemonicGap ++ (l.operands ++ l.comment))))
  mnemonic : Text.LongestRun Text.isWordByte l.mnemonic (l.mnemonic ++ (l.mnemonicGap ++ (l.operands ++ l.comment)))
  mnemonicGap : Text.LongestRun Text.isBlank l.mnemonicGap (l.mnemonicGap ++ (l.operands ++ l.comment))
  operands : Text.LongestRun Text.isWordByte l.operands (l.operands ++ l.comment)

theorem munched_iff {l : Line} : l.Munched ↔ l.Maximal := by
  constructor
  · rintro ⟨hlabel, hlabelGap, hmnemonic, hmnemonicGap, hoperands⟩
    rw [Text.longestRun_append] at hlabel hlabelGap hmnemonic hmnemonicGap hoperands
    exact ⟨hlabel.1, hlabelGap.1, hmnemonic.1, hmnemonicGap.1, hoperands.1, hlabel.2, hlabelGap.2, hmnemonic.2,
      hmnemonicGap.2, hoperands.2⟩
  · intro h
    exact ⟨Text.longestRun_append.2 ⟨h.label, h.afterLabel⟩, Text.longestRun_append.2 ⟨h.labelGap, h.afterLabelGap⟩,
      Text.longestRun_append.2 ⟨h.mnemonic, h.afterMnemonic⟩,
      Text.longestRun_append.2 ⟨h.mnemonicGap, h.afterMnemonicGap⟩,
      Text.longestRun_append.2 ⟨h.operands, h.afterOperands⟩⟩

/-- Parts of the right bytes, of whatever length. -/
structure Formed (l : Line) : Prop where
  label : ∀ b ∈ l.label, Text.isWordByte b = true
  labelGap : ∀ b ∈ l.labelGap, Text.isBlank b = true
  mnemonic : ∀ b ∈ l.mnemonic, Text.isWordByte b = true
  mnemonicGap : ∀ b ∈ l.mnemonicGap, Text.isBlank b = true
  operands : ∀ b ∈ l.operands, Text.isWordByte b = true

/-- Lists of lengths that are the same, or the first lengths that differ are shorter on the left. -/
inductive NoLonger : List Nat → List Nat → Prop where
  | nil : NoLonger [] []
  | shorter {m n : Nat} {xs ys : List Nat} : m < n → NoLonger (m :: xs) (n :: ys)
  | same {n : Nat} {xs ys : List Nat} : NoLonger xs ys → NoLonger (n :: xs) (n :: ys)

/-- Only where a part is the longest do the parts after it matter. -/
theorem NoLonger.run {p : UInt8 → Bool} {run rest : Text} (hrun : ∀ b ∈ run, p b = true) {xs ys : List Nat}
    (h : (run ++ rest).dropWhile p = rest → NoLonger xs ys) :
    NoLonger (run.length :: xs) (((run ++ rest).takeWhile p).length :: ys) := by
  rcases Text.run_cases hrun rest with hlt | ⟨htake, hdrop⟩
  · exact .shorter hlt
  · rw [htake]
    exact .same (h hdrop)

/-- The lengths of the parts, up to the comment. -/
def sizes (l : Line) : List Nat :=
  [l.label.length, l.labelGap.length, l.mnemonic.length, l.mnemonicGap.length, l.operands.length]

/-- A match that makes every part as long as it can, the first ones first, finds the longest runs. -/
theorem Formed.noLonger {l : Line} (h : l.Formed) : NoLonger l.sizes (split l.text).sizes := by
  rw [text_eq]
  simp only [sizes, split]
  refine NoLonger.run h.label fun hlabel => ?_
  rw [hlabel]
  refine NoLonger.run h.labelGap fun hlabelGap => ?_
  rw [hlabelGap]
  refine NoLonger.run h.mnemonic fun hmnemonic => ?_
  rw [hmnemonic]
  refine NoLonger.run h.mnemonicGap fun hmnemonicGap => ?_
  rw [hmnemonicGap]
  exact NoLonger.run h.operands fun _ => .nil

theorem Maximal.comment_head {l : Line} (h : l.Maximal) {b : UInt8} (hb : b ∈ l.comment.head?) :
    Text.isBlank b = true ∨ b = '"'.toUInt8 ∨ b = ';'.toUInt8 := by
  have hword := h.afterOperands b hb
  simp only [Text.isWordByte, Bool.and_eq_false_iff, Bool.not_eq_false', bne_eq_false_iff_eq] at hword
  exact or_assoc.1 hword

end Line

/-! ## Lines that are read -/

namespace Statement

/-- Reading a line is lossless maximal munch. A line without a newline, whatever its bytes, is taken apart, and its
parts put together are the line. Label, mnemonic and operands hold no blanks, quotes and semicolons, the gaps hold
blanks only, and each of these five is the longest such run at its place, so that a comment starts with a blank, a quote
or a semicolon. The line has no other parts of this kind; and of all ways to cut it into parts of the right bytes this
one has the longest parts, the first ones first. -/
theorem read_munched (line : Int) (address : Value) (t : Text) (h : '\n'.toUInt8 ∉ t) :
    let s := read line address t
    Line.ofText? t = some s.parts ∧ (∀ e ∈ s.errors, e.kind ≠ .internal) ∧ s.parts.text = t ∧ s.parts.Munched ∧
    (∀ b ∈ s.parts.comment.head?, Text.isBlank b = true ∨ b = '"'.toUInt8 ∨ b = ';'.toUInt8) ∧
    (∀ l : Line, l.text = t → l.Munched → l = s.parts) ∧
    ∀ l : Line, l.text = t → l.Formed → Line.NoLonger l.sizes s.parts.sizes := by
  intro s
  have hparts : s.parts = Line.split t := read_parts line address h
  have hmaximal := Line.split_maximal t
  rw [hparts]
  refine ⟨Line.ofText?_eq_some h, read_blameless line address h, Line.split_text t, Line.munched_iff.2 hmaximal,
    fun b hb => hmaximal.comment_head hb, ?_, ?_⟩
  · rintro l rfl hl
    exact (Line.munched_iff.1 hl).split.symm
  · rintro l rfl hl
    exact hl.noLonger

/-- A line that starts with a byte of no character, and whose operands end at a semicolon before a quote. -/
theorem read_munched_stray :
    '\n'.toUInt8 ∉ 0xFF :: Text.ofString "\t add R1;R2 \"x" ∧
    (read 1 (.relocatable 0) (0xFF :: Text.ofString "\t add R1;R2 \"x")).parts =
      ⟨[0xFF], "\t ", "add", " ", "R1", ";R2 \"x"⟩ ∧
    Line.NoLonger (Line.sizes ⟨[], [], [0xFF], "\t ", "add", " R1;R2 \"x"⟩)
      (Line.sizes ⟨[0xFF], "\t ", "add", " ", "R1", ";R2 \"x"⟩) := by
  have hline : '\n'.toUInt8 ∉ 0xFF :: Text.ofString "\t add R1;R2 \"x" := by decide
  obtain ⟨-, -, -, -, -, hunique, hgreedy⟩ := read_munched 1 (.relocatable 0) _ hline
  have hparts : (⟨[0xFF], "\t ", "add", " ", "R1", ";R2 \"x"⟩ : Line).Munched := Line.munched_iff.2
    (Line.split_maximal (0xFF :: Text.ofString "\t add R1;R2 \"x"))
  have hread := hunique _ rfl hparts
  refine ⟨hline, hread.symm, ?_⟩
  rw [hread]
  refine hgreedy ⟨[], [], [0xFF], "\t ", "add", " R1;R2 \"x"⟩ rfl ⟨?_, ?_, ?_, ?_, ?_⟩
  all_goals exact List.all_eq_true.1 (by decide)

end Statement

end Sigma16
