/-
Lines and their parts. The parts of a line put together are the line, each of them is as long as it can
be, and a line has no other parts of this kind; so a line is changed part by part. A source in turn is its
lines put together, and what stands between two separators is a piece of the text that was split or cut.
-/
import Sigma16.Proofs.Object

namespace Sigma16

/-! ## Splitting and joining -/

namespace Text

theorem infix_join {sep : Text} : ∀ {parts : List Text} {part : Text}, part ∈ parts → part <:+: join sep parts
  | [], _, h => by cases h
  | [only], part, h => by
    refine ⟨[], [], ?_⟩
    unfold join
    rw [List.intercalate_singleton, List.nil_append, List.append_nil, List.mem_singleton.1 h]
  | first :: second :: parts, part, h => by
    unfold join
    rw [List.intercalate_cons_cons, List.append_assoc]
    rcases List.mem_cons.1 h with rfl | h
    · exact (List.prefix_append _ _).isInfix
    · have ih : part <:+: join sep (second :: parts) := infix_join h
      exact ih.trans ((List.suffix_append _ _).trans (List.suffix_append _ _)).isInfix

/-- What stands between two separators is a piece of the text. -/
theorem infix_splitOn {x : UInt8} {t part : Text} (h : part ∈ t.splitOn x) : part <:+: t := by
  have hjoin : part <:+: join [x] (t.splitOn x) := infix_join h
  unfold join at hjoin
  rwa [List.intercalate_splitOn] at hjoin

theorem infix_splitOperands {t part : Text} (h : part ∈ splitOperands t) : part <:+: t := by
  unfold splitOperands at h
  split at h
  · cases h
  · exact infix_splitOn h

theorem splitOperands_notMem {t part : Text} (h : part ∈ splitOperands t) : ','.toUInt8 ∉ part := by
  unfold splitOperands at h
  split at h
  · cases h
  · exact splitOn_notMem _ _ part h

theorem join_splitOperands (t : Text) : join "," (splitOperands t) = t := by
  unfold splitOperands
  split
  · rename_i h
    rw [List.isEmpty_iff.1 h]
    rfl
  · exact List.intercalate_splitOn _

/-- Operands are read back from a text that is not empty. -/
theorem splitOperands_join {parts : List Text} (h : ∀ part ∈ parts, ','.toUInt8 ∉ part)
    (hne : join "," parts ≠ []) : splitOperands (join "," parts) = parts := by
  have hparts : parts ≠ [] := by
    rintro rfl
    exact hne rfl
  unfold splitOperands
  rw [if_neg (by simpa using hne)]
  exact List.splitOn_intercalate _ h hparts

/-- A byte that ends no line and is not dropped. -/
def isLineByte (b : UInt8) : Bool := b != '\n'.toUInt8 && b != '\r'.toUInt8

theorem notMem_of_isLineByte {t : Text} (h : ∀ b ∈ t, isLineByte b = true) : '\n'.toUInt8 ∉ t := by
  intro hn
  exact absurd (h _ hn) (by decide)

theorem sourceLines_bytes (t : Text) : ∀ line ∈ sourceLines t, ∀ b ∈ line, isLineByte b = true := by
  intro line hl b hb
  have hn : b ≠ '\n'.toUInt8 := by
    rintro rfl
    exact sourceLines_notMem t line hl hb
  have hkept := (infix_splitOn hl).subset hb
  simpa [isLineByte, hn] using (List.mem_filter.1 hkept).2

/-- The lines of a source can be replaced by any others. -/
theorem sourceLines_join {lines : List Text} (hne : lines ≠ []) (h : ∀ line ∈ lines, ∀ b ∈ line, isLineByte b = true) :
    sourceLines (join "\n" lines) = lines := by
  have hkept : (join "\n" lines).filter (· != '\r'.toUInt8) = join "\n" lines := by
    rw [List.filter_eq_self]
    intro b hb
    rcases mem_join hb with hb | ⟨line, hl, hb⟩
    · rw [List.mem_singleton.1 hb]
      decide
    · have hline := h line hl b hb
      simp only [isLineByte, Bool.and_eq_true] at hline
      exact hline.2
  unfold sourceLines
  rw [hkept]
  exact List.splitOn_intercalate _ (fun line hl => notMem_of_isLineByte (h line hl)) hne

/-! ## Runs of bytes -/

/-- A text that does not go on with a byte of a class. -/
def Stops (p : UInt8 → Bool) (t : Text) : Prop := ∀ b ∈ t.head?, p b = false

theorem Stops.append {p : UInt8 → Bool} {x : Text} (hne : x ≠ []) (hx : ∀ b ∈ x, p b = false) (y : Text) :
    Stops p (x ++ y) := by
  cases x with
  | nil => exact absurd rfl hne
  | cons a x =>
    intro b hb
    simp only [List.cons_append, List.head?_cons, Option.mem_def, Option.some.injEq] at hb
    exact hb ▸ hx a List.mem_cons_self

theorem Stops.takeWhile {p : UInt8 → Bool} {y : Text} (h : Stops p y) : y.takeWhile p = [] := by
  cases y with
  | nil => rfl
  | cons b y => exact List.takeWhile_cons_of_neg (by simp [h b rfl])

theorem Stops.dropWhile {p : UInt8 → Bool} {y : Text} (h : Stops p y) : y.dropWhile p = y := by
  cases y with
  | nil => rfl
  | cons b y => exact List.dropWhile_cons_of_neg (by simp [h b rfl])

/-- A run of bytes of a class ends where the text goes on with another byte. -/
theorem takeWhile_append_stops {p : UInt8 → Bool} {x y : Text} (hx : ∀ b ∈ x, p b = true) (hy : Stops p y) :
    (x ++ y).takeWhile p = x := by
  rw [List.takeWhile_append_of_pos hx, hy.takeWhile, List.append_nil]

theorem dropWhile_append_stops {p : UInt8 → Bool} {x y : Text} (hx : ∀ b ∈ x, p b = true) (hy : Stops p y) :
    (x ++ y).dropWhile p = y := by
  rw [List.dropWhile_append_of_pos hx, hy.dropWhile]

theorem mem_takeWhile {p : UInt8 → Bool} {t : Text} : ∀ b ∈ t.takeWhile p, p b = true :=
  List.all_eq_true.1 List.all_takeWhile

theorem stops_dropWhile (p : UInt8 → Bool) (t : Text) : Stops p (t.dropWhile p) := by
  intro b hb
  have h := List.head?_dropWhile_not p t
  rw [Option.mem_def.1 hb] at h
  simpa using h

theorem bne_of_notMem {sep : UInt8} {t : Text} (h : sep ∉ t) : ∀ b ∈ t, (b != sep) = true := by
  intro b hb
  rw [bne_iff_ne]
  rintro rfl
  exact h hb

theorem stops_bne (sep : UInt8) (t : Text) : Stops (· != sep) (sep :: t) := by
  intro b hb
  cases hb
  simp

/-- A text is cut at the first separator. -/
theorem cut?_append {sep : UInt8} {left : Text} (h : sep ∉ left) (right : Text) :
    cut? sep (left ++ sep :: right) = some (left, right) := by
  unfold cut?
  rw [if_pos (by simp), takeWhile_append_stops (bne_of_notMem h) (stops_bne sep right),
    dropWhile_append_stops (bne_of_notMem h) (stops_bne sep right)]
  rfl

theorem cut?_eq_none {sep : UInt8} {t : Text} (h : sep ∉ t) : cut? sep t = none := by
  unfold cut?
  rw [if_neg (by simpa using h)]

theorem cut?_eq_some {sep : UInt8} {t left right : Text} (h : cut? sep t = some (left, right)) :
    t = left ++ sep :: right := by
  by_cases hmem : sep ∈ t
  · obtain ⟨x, y, ht, hx⟩ := List.eq_append_cons_of_mem hmem
    rw [ht, cut?_append hx] at h
    cases h
    exact ht
  · rw [cut?_eq_none hmem] at h
    cases h

theorem isBlank_of_isWordByte {b : UInt8} (h : isWordByte b = true) : isBlank b = false := by
  simp only [isWordByte, Bool.and_eq_true, Bool.not_eq_true'] at h
  exact h.1.1

theorem isWordByte_of_isBlank {b : UInt8} (h : isBlank b = true) : isWordByte b = false := by
  simp [isWordByte, h]

end Text

/-! ## The parts of a line -/

namespace Line

/-- Parts of the right bytes, the first five of them as long as what follows them allows. -/
structure Maximal (l : Line) : Prop where
  label : ∀ b ∈ l.label, Text.isWordByte b = true
  labelGap : ∀ b ∈ l.labelGap, Text.isBlank b = true
  mnemonic : ∀ b ∈ l.mnemonic, Text.isWordByte b = true
  mnemonicGap : ∀ b ∈ l.mnemonicGap, Text.isBlank b = true
  operands : ∀ b ∈ l.operands, Text.isWordByte b = true
  afterLabel : Text.Stops Text.isWordByte
    (l.labelGap ++ (l.mnemonic ++ (l.mnemonicGap ++ (l.operands ++ l.comment))))
  afterLabelGap : Text.Stops Text.isBlank (l.mnemonic ++ (l.mnemonicGap ++ (l.operands ++ l.comment)))
  afterMnemonic : Text.Stops Text.isWordByte (l.mnemonicGap ++ (l.operands ++ l.comment))
  afterMnemonicGap : Text.Stops Text.isBlank (l.operands ++ l.comment)
  afterOperands : Text.Stops Text.isWordByte l.comment

/-- The parts put together, from left to right. -/
theorem text_eq (l : Line) :
    l.text = l.label ++ (l.labelGap ++ (l.mnemonic ++ (l.mnemonicGap ++ (l.operands ++ l.comment)))) := by
  simp only [text, List.append_assoc]

/-- Nothing of a line is lost. -/
theorem split_text (t : Text) : (split t).text = t := by
  rw [text_eq]
  simp only [split, List.takeWhile_append_dropWhile]

theorem split_maximal (t : Text) : (split t).Maximal where
  label := Text.mem_takeWhile
  labelGap := Text.mem_takeWhile
  mnemonic := Text.mem_takeWhile
  mnemonicGap := Text.mem_takeWhile
  operands := Text.mem_takeWhile
  afterLabel := by
    simp only [split, List.takeWhile_append_dropWhile]
    exact Text.stops_dropWhile _ _
  afterLabelGap := by
    simp only [split, List.takeWhile_append_dropWhile]
    exact Text.stops_dropWhile _ _
  afterMnemonic := by
    simp only [split, List.takeWhile_append_dropWhile]
    exact Text.stops_dropWhile _ _
  afterMnemonicGap := by
    simp only [split, List.takeWhile_append_dropWhile]
    exact Text.stops_dropWhile _ _
  afterOperands := Text.stops_dropWhile _ _

/-- A line has only one sequence of maximal parts. -/
theorem Maximal.split {l : Line} (h : l.Maximal) : split l.text = l := by
  rw [text_eq]
  unfold Line.split
  simp only [Text.takeWhile_append_stops h.label h.afterLabel, Text.dropWhile_append_stops h.label h.afterLabel,
    Text.takeWhile_append_stops h.labelGap h.afterLabelGap, Text.dropWhile_append_stops h.labelGap h.afterLabelGap,
    Text.takeWhile_append_stops h.mnemonic h.afterMnemonic, Text.dropWhile_append_stops h.mnemonic h.afterMnemonic,
    Text.takeWhile_append_stops h.mnemonicGap h.afterMnemonicGap,
    Text.dropWhile_append_stops h.mnemonicGap h.afterMnemonicGap,
    Text.takeWhile_append_stops h.operands h.afterOperands, Text.dropWhile_append_stops h.operands h.afterOperands]

/-- Blanks separate the label, also an empty one, from the mnemonic. -/
theorem Maximal.labelGap_ne_nil {l : Line} (h : l.Maximal) (hm : l.mnemonic ≠ []) : l.labelGap ≠ [] := by
  intro hgap
  have hstop := h.afterLabel
  rw [hgap, List.nil_append] at hstop
  obtain ⟨b, rest, hb⟩ := List.exists_cons_of_ne_nil hm
  have hword := h.mnemonic b (by simp [hb])
  rw [hstop b (by simp [hb])] at hword
  cases hword

/-- Any words, and a gap between mnemonic and operands, can stand in the place of others. -/
theorem Maximal.replace {l : Line} (h : l.Maximal) (hm : l.mnemonic ≠ []) {mnemonic mnemonicGap operands : Text}
    (hmnemonic : mnemonic ≠ [] ∧ ∀ b ∈ mnemonic, Text.isWordByte b = true)
    (hgap : mnemonicGap ≠ [] ∧ ∀ b ∈ mnemonicGap, Text.isBlank b = true)
    (hoperands : operands ≠ [] ∧ ∀ b ∈ operands, Text.isWordByte b = true) :
    Maximal { l with mnemonic, mnemonicGap, operands } where
  label := h.label
  labelGap := h.labelGap
  mnemonic := hmnemonic.2
  mnemonicGap := hgap.2
  operands := hoperands.2
  afterLabel := .append (h.labelGap_ne_nil hm) (fun b hb => Text.isWordByte_of_isBlank (h.labelGap b hb)) _
  afterLabelGap := .append hmnemonic.1 (fun b hb => Text.isBlank_of_isWordByte (hmnemonic.2 b hb)) _
  afterMnemonic := .append hgap.1 (fun b hb => Text.isWordByte_of_isBlank (hgap.2 b hb)) _
  afterMnemonicGap := .append hoperands.1 (fun b hb => Text.isBlank_of_isWordByte (hoperands.2 b hb)) _
  afterOperands := h.afterOperands

end Line

end Sigma16
