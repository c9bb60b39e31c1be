/-
Diagnostics point into their own lines. A cursor is about a piece of its line: the label, the mnemonic, the
operands, a text that was found in the operands, or one character. Every report takes its cursor from one
of these, so in a well-formed source its columns lie inside the line, and a report that quotes what it
found points exactly there.
-/
import Sigma16.Proofs.Decoding
import Sigma16.Proofs.Diagnosis
import Sigma16.Proofs.Rune
import Sigma16.Report

namespace Sigma16

/-! ## Pieces of a text -/

namespace Text

theorem isWordByte_of_isTail : ∀ b : UInt8, isTail b = true → isWordByte b = true := forall_byte (by decide +kernel)

theorem lt_of_isBlank : ∀ b : UInt8, isBlank b = true → b < 0x80 := forall_byte (by decide +kernel)

/-- A word ends where a character starts. -/
theorem Stops.isTail {t : Text} (h : Stops isWordByte t) : Stops isTail t := by
  intro b hb
  rw [Bool.eq_false_iff]
  intro htail
  have hword := isWordByte_of_isTail b htail
  rw [h b hb] at hword
  cases hword

/-- A text that occurs is found, and stands where it is found. -/
theorem find?_eq_some {needle : Text} : ∀ {t : Text} {n : Nat}, find? needle t = some n →
    ∃ rest, t = t.take n ++ (needle ++ rest)
  | [], n, h => by
    unfold find? at h
    split at h
    · rename_i hempty
      cases h
      exact ⟨[], by rw [List.isEmpty_iff.1 hempty]; rfl⟩
    · cases h
  | b :: t, n, h => by
    unfold find? at h
    split at h
    · rename_i hstart
      cases h
      obtain ⟨rest, hrest⟩ := List.isPrefixOf_iff_prefix.1 hstart
      exact ⟨rest, hrest.symm⟩
    · obtain ⟨m, hm, rfl⟩ := Option.map_eq_some_iff.1 h
      obtain ⟨rest, hrest⟩ := find?_eq_some hm
      refine ⟨rest, ?_⟩
      rw [List.take_succ_cons, List.cons_append, ← hrest]

theorem find?_isSome {needle : Text} : ∀ {t : Text}, needle <:+: t → (find? needle t).isSome = true
  | [], h => by
    rw [List.infix_nil] at h
    simp [find?, h]
  | b :: t, h => by
    unfold find?
    split
    · rfl
    · rename_i hstart
      rw [Option.isSome_map]
      rcases List.infix_cons_iff.1 h with hhere | hlater
      · exact absurd (List.isPrefixOf_iff_prefix.2 hhere) hstart
      · exact find?_isSome hlater

end Text

/-! ## The parts of a well-formed line -/

/-- Parts that are well formed one by one. -/
structure Line.IsUtf8 (l : Line) : Prop where
  label : Text.IsUtf8 l.label
  labelGap : Text.IsUtf8 l.labelGap
  mnemonic : Text.IsUtf8 l.mnemonic
  mnemonicGap : Text.IsUtf8 l.mnemonicGap
  operands : Text.IsUtf8 l.operands

theorem Line.Maximal.isUtf8 {l : Line} (h : l.Maximal) (hu : Text.IsUtf8 l.text) : l.IsUtf8 := by
  have blank : ∀ {t : Text}, (∀ b ∈ t, Text.isBlank b = true) → Text.IsUtf8 t := fun ht =>
    Text.isUtf8_of_ascii fun b hb => Text.lt_of_isBlank b (ht b hb)
  rw [text_eq] at hu
  obtain ⟨hlabel, hu⟩ := hu.of_append h.afterLabel.isTail
  have hlabelGap := blank h.labelGap
  obtain ⟨hmnemonic, hu⟩ := (hlabelGap.right hu).of_append h.afterMnemonic.isTail
  have hmnemonicGap := blank h.mnemonicGap
  obtain ⟨hoperands, -⟩ := (hmnemonicGap.right hu).of_append h.afterOperands.isTail
  exact ⟨hlabel, hlabelGap, hmnemonic, hmnemonicGap, hoperands⟩

/-- The characters of a line are those of its parts. -/
theorem Line.IsUtf8.runes {l : Line} (h : l.IsUtf8) : Text.runes l.text =
    Text.runes l.label ++ (Text.runes l.labelGap ++ (Text.runes l.mnemonic ++ (Text.runes l.mnemonicGap ++
      (Text.runes l.operands ++ Text.runes l.comment)))) := by
  rw [text_eq, h.label.runes_append, h.labelGap.runes_append, h.mnemonic.runes_append, h.mnemonicGap.runes_append,
    h.operands.runes_append]

/-! ## Cursors -/

/-- A cursor that is about a piece of a line: it has the number of the line, the column where the piece
starts and as many characters as the piece. -/
structure Cursor.Spans (position : Cursor) (number : Int) (line : Text) (piece : List (Option Nat)) : Prop where
  number : position.line = number
  place : ∃ before after, Text.runes line = before ++ (piece ++ after) ∧ position.column = 1 + before.length
  size : position.size = piece.length

/-- A cursor can be narrowed to a piece of its piece. -/
theorem Cursor.Spans.within {position : Cursor} {number : Int} {line : Text} {piece : List (Option Nat)}
    (h : position.Spans number line piece) {before inner after : List (Option Nat)}
    (hpiece : piece = before ++ (inner ++ after)) :
    Cursor.Spans { position with column := position.column + before.length, size := inner.length } number line
      inner := by
  obtain ⟨start, rest, hline, hcolumn⟩ := h.place
  refine ⟨h.number, ⟨start ++ before, after ++ rest, ?_, ?_⟩, rfl⟩
  · simp only [hline, hpiece, List.append_assoc]
  · simp only [hcolumn, List.length_append]
    omega

/-- A statement whose parts are those of its line, the line being well formed. -/
structure Statement.Readable (s : Statement) : Prop where
  parts : s.parts = Line.split s.source
  utf8 : Text.IsUtf8 s.source

namespace Statement.Readable

variable {s : Statement}

theorem parts_isUtf8 (h : s.Readable) : s.parts.IsUtf8 := by
  rw [h.parts]
  refine (Line.split_maximal s.source).isUtf8 ?_
  rw [Line.split_text]
  exact h.utf8

theorem runes_source (h : s.Readable) : Text.runes s.source = Text.runes s.parts.label ++
    (Text.runes s.parts.labelGap ++ (Text.runes s.parts.mnemonic ++ (Text.runes s.parts.mnemonicGap ++
      (Text.runes s.parts.operands ++ Text.runes s.parts.comment)))) := by
  rw [← h.parts_isUtf8.runes, h.parts, Line.split_text]

theorem labelCursor (h : s.Readable) : s.labelCursor.Spans s.line s.source (Text.runes s.parts.label) :=
  ⟨rfl, ⟨[], _, h.runes_source, rfl⟩, rfl⟩

theorem operationCursor (h : s.Readable) : s.operationCursor.Spans s.line s.source (Text.runes s.parts.mnemonic) := by
  have hu := h.parts_isUtf8
  refine ⟨rfl, ⟨Text.runes (s.parts.label ++ s.parts.labelGap), Text.runes s.parts.mnemonicGap ++
    (Text.runes s.parts.operands ++ Text.runes s.parts.comment), ?_, rfl⟩, rfl⟩
  rw [h.runes_source, hu.label.runes_append, List.append_assoc]

theorem operandsCursor (h : s.Readable) : s.operandsCursor.Spans s.line s.source (Text.runes s.parts.operands) := by
  have hu := h.parts_isUtf8
  refine ⟨rfl, ⟨Text.runes (s.parts.label ++ s.parts.labelGap ++ s.parts.mnemonic ++ s.parts.mnemonicGap),
    Text.runes s.parts.comment, ?_, rfl⟩, rfl⟩
  rw [h.runes_source]
  simp only [List.append_assoc, hu.label.runes_append, hu.labelGap.runes_append, hu.mnemonic.runes_append]

/-- The cursor of a well-formed text is about that text if it occurs in the operands, and else about all of
the operands. -/
theorem textCursor (h : s.Readable) {text : Text} (hu : Text.IsUtf8 text) :
    ∃ piece, (s.textCursor text).Spans s.line s.source piece ∧
      (text ≠ [] → text <:+: s.parts.operands → piece = Text.runes text) := by
  unfold Statement.textCursor
  by_cases hempty : text.isEmpty = true
  · simp only [hempty, if_true]
    exact ⟨_, h.operandsCursor, fun hne => absurd (List.isEmpty_iff.1 hempty) hne⟩
  · simp only [hempty, Bool.false_eq_true, if_false]
    have hne : text ≠ [] := fun hnil => hempty (List.isEmpty_iff.2 hnil)
    cases hfind : Text.find? text s.parts.operands with
    | none =>
      refine ⟨_, h.operandsCursor, fun _ hin => ?_⟩
      have hsome := Text.find?_isSome hin
      rw [hfind] at hsome
      cases hsome
    | some n =>
      obtain ⟨rest, hrest⟩ := Text.find?_eq_some hfind
      -- where the bytes of the text stand, so do its characters, since no character reaches into it
      have hoperands := h.parts_isUtf8.operands
      have hrunes : Text.runes s.parts.operands =
          Text.runes (s.parts.operands.take n) ++ (Text.runes text ++ Text.runes rest) := by
        conv => lhs; rw [hrest]
        exact (Text.IsUtf8.runes_infix (hrest ▸ hoperands) hu hne).1
      exact ⟨_, h.operandsCursor.within hrunes, fun _ _ => rfl⟩

end Statement.Readable

/-! ## Reports about pieces of a line -/

/-- A diagnostic about a piece of a line, which is the text that the cause quotes. -/
def Diagnostic.Located (number : Int) (line : Text) (e : Diagnostic) : Prop :=
  ∃ piece, e.position.Spans number line piece ∧ ∀ text ∈ e.cause.found?, piece = Text.runes text

/-- A report that quotes nothing may be about any piece. -/
theorem Cursor.Spans.located {position : Cursor} {number : Int} {line : Text} {piece : List (Option Nat)}
    (h : position.Spans number line piece) {cause : Cause} (hc : cause.found? = none) :
    Diagnostic.Located number line ⟨position, cause⟩ := by
  refine ⟨piece, h, fun text ht => ?_⟩
  rw [hc] at ht
  cases ht

/-- A report that quotes a text is about its characters. -/
theorem Cursor.Spans.located_found {position : Cursor} {number : Int} {line text : Text}
    (h : position.Spans number line (Text.runes text)) {cause : Cause} (hc : cause.found? = some text) :
    Diagnostic.Located number line ⟨position, cause⟩ := by
  refine ⟨Text.runes text, h, fun text' ht => ?_⟩
  rw [hc] at ht
  cases ht
  rfl

theorem Statement.Piece.isUtf8 {s : Statement} (h : Text.IsUtf8 s.parts.operands) {text : Text} (ht : s.Piece text) :
    Text.IsUtf8 text := by
  induction ht with
  | whole => exact h
  | operand hmem =>
    unfold Statement.operands Text.splitOperands at hmem
    split at hmem
    · cases hmem
    · exact h.splitOn (by decide) _ hmem
  | left _ hsep hcut ih =>
    rw [Text.cut?_eq_some hcut] at ih
    exact (ih.of_append_cons hsep).1
  | right _ hsep hcut ih =>
    rw [Text.cut?_eq_some hcut] at ih
    exact (ih.of_append_cons hsep).2

/-- A wrong character is one character of its line. -/
theorem Text.mem_invalidColumns {line : Text} {column : Nat} (h : column ∈ invalidColumns line) (number : Int) :
    ∃ c, Cursor.Spans ⟨number, column, 1⟩ number line [c] := by
  obtain ⟨⟨c, k⟩, hmem, hk⟩ := List.mem_filterMap.1 h
  obtain ⟨hlow, hget⟩ := List.mk_mem_zipIdx_iff_le_and_getElem?_sub.1 hmem
  have hkept : (if isSourceRune c then none else some k) = some column := hk
  obtain rfl : k = column := by
    split at hkept
    · cases hkept
    · exact Option.some.inj hkept
  obtain ⟨hlength, hget⟩ := List.getElem?_eq_some_iff.1 hget
  refine ⟨c, rfl, ⟨(runes line).take (k - 1), (runes line).drop (k - 1 + 1), ?_, ?_⟩, rfl⟩
  · rw [← hget, List.singleton_append, ← List.drop_eq_getElem_cons hlength, List.take_append_drop]
  · rw [List.length_take]
    show (k : Int) = _
    omega

/-- In a well-formed line every report is about a piece of it. -/
theorem Statement.Tells.located {s : Statement} (h : s.Readable) {e : Diagnostic} (he : s.Tells e) :
    e.Located s.line s.source := by
  cases he with
  | character hcolumn hfound =>
    obtain ⟨c, hspans⟩ := Text.mem_invalidColumns hcolumn s.line
    exact hspans.located hfound
  | label hfound =>
    rcases hfound with hfound | hfound
    · exact h.labelCursor.located hfound
    · exact h.labelCursor.located_found hfound
  | operation hfound =>
    rcases hfound with hfound | hfound
    · exact h.operationCursor.located hfound
    · exact h.operationCursor.located_found hfound
  | operands hfound => exact h.operandsCursor.located hfound
  | piece htext hfound =>
    obtain ⟨piece, hspans, hpiece⟩ := h.textCursor (htext.isUtf8 h.parts_isUtf8.operands)
    rcases hfound with hfound | ⟨hne, hfound⟩
    · exact hspans.located hfound
    · rw [hpiece hne htext.isInfix] at hspans
      exact hspans.located_found hfound

/-! ## The mark under a line -/

/-- What a user sees of a diagnostic that is about a piece of its line. -/
structure Diagnostic.Inside (number : Int) (line : Text) (e : Diagnostic) : Prop where
  number : e.position.line = number
  column : 1 ≤ e.position.column
  size : 0 ≤ e.position.size
  width : e.position.column - 1 + e.position.size ≤ Text.width line
  /-- The characters at the position are those of the text that is quoted. -/
  found : ∀ text ∈ e.cause.found?,
    ((Text.runes line).drop (e.position.column - 1).toNat).take e.position.size.toNat = Text.runes text
  /-- The mark starts at the column itself. -/
  mark : Report.underline e.position line =
    List.replicate (e.position.column - 1).toNat ' '.toUInt8 ++
      ("^" ++ List.replicate (e.position.size - 1).toNat '~'.toUInt8)
  markLength : ((Report.underline e.position line).length : Int) ≤ max (Text.width line : Int) e.position.column

theorem Diagnostic.Located.inside {number : Int} {line : Text} {e : Diagnostic} (h : e.Located number line) :
    e.Inside number line := by
  obtain ⟨piece, ⟨hnumber, ⟨before, after, hline, hcolumn⟩, hsize⟩, hfound⟩ := h
  have hwidth : Text.width line = before.length + (piece.length + after.length) := by
    unfold Text.width
    rw [hline, List.length_append, List.length_append]
  have hmark : Report.underline e.position line =
      List.replicate (e.position.column - 1).toNat ' '.toUInt8 ++
        ("^" ++ List.replicate (e.position.size - 1).toNat '~'.toUInt8) := by
    have hclamped : min (max e.position.column 1) (Text.width line + 1) = e.position.column := by omega
    unfold Report.underline
    rw [hclamped, List.append_assoc]
  refine ⟨hnumber, by omega, by omega, by omega, fun text ht => ?_, hmark, ?_⟩
  · have hstart : (e.position.column - 1).toNat = before.length := by omega
    have hlength : e.position.size.toNat = piece.length := by omega
    rw [hline, hstart, hlength, List.drop_left, List.take_left, hfound text ht]
  · rw [hmark, List.length_append, List.length_append, List.length_replicate, List.length_replicate,
      show (Text.ofString "^").length = 1 from rfl]
    omega

/-! ## A whole source -/

namespace Assembly

/-- The statements of a well-formed source report on pieces of their lines. -/
theorem assemble_located {name source : Text} (h : Text.IsUtf8 source) {i : Nat} {s : Statement}
    (hs : (assemble name source).statements[i]? = some s) : ∀ e ∈ s.errors, e.Located s.line s.source := by
  obtain ⟨-, hline, hparsed, hreports⟩ := assemble_reports hs
  have hreadable : s.Readable := ⟨hparsed.parts, h.sourceLines _ (List.mem_of_getElem? hline)⟩
  intro e he
  exact (hreports e he).1.located hreadable

/-- Every diagnostic is positioned inside its own line. In a well-formed source, a diagnostic of a statement has
the line number of the statement, its columns lie inside the line, the mark under the line starts where the
diagnostic says and reaches over the end of the line at most at the column, and a label, an operation, a
symbol or a literal that is quoted is what the line has at that place. All diagnostics together come in the
order of the lines, and they are as many as are counted. -/
theorem assemble_errors_inside (name source : Text) (h : Text.IsUtf8 source) :
    (∀ (i : Nat) (s : Statement), (assemble name source).statements[i]? = some s →
      s.line = 1 + i ∧ (Text.sourceLines source)[i]? = some s.source ∧ ∀ e ∈ s.errors, e.Inside s.line s.source) ∧
    (assemble name source).errors = (assemble name source).statements.flatMap (·.errors) ∧
    (assemble name source).errors.Pairwise (fun e e' => e.position.line ≤ e'.position.line) ∧
    (assemble name source).errors.length = (assemble name source).errorCount := by
  refine ⟨fun i s hs => ?_, rfl, ?_, rfl⟩
  · obtain ⟨hline, hsource, -⟩ := assemble_reports hs
    exact ⟨hline, hsource, fun e he => (assemble_located h hs e he).inside⟩
  · have hlines : ∀ (i : Nat) (hi : i < (assemble name source).statements.length),
        ∀ e ∈ ((assemble name source).statements[i]).errors, e.position.line = 1 + i := by
      intro i hi e he
      have hs := List.getElem?_eq_getElem hi
      exact (assemble_located h hs e he).inside.number.trans (assemble_reports hs).1
    -- the diagnostics of one statement have the same line, those of a later statement a later one
    unfold errors
    rw [List.pairwise_flatMap]
    constructor
    · intro s hs
      obtain ⟨i, hi, rfl⟩ := List.getElem_of_mem hs
      refine List.pairwise_of_forall_mem_list fun e he e' he' => ?_
      have hfirst := hlines i hi e he
      have hsecond := hlines i hi e' he'
      omega
    · rw [List.pairwise_iff_getElem]
      intro i j hi hj hij e he e' he'
      have hfirst := hlines i hi e he
      have hsecond := hlines j hj e' he'
      omega

set_option maxRecDepth 4000 in
/-- A symbol without a binding, behind a label that is one character of two bytes. -/
theorem assemble_errors_inside_accent : Text.IsUtf8 "è data q" ∧ ∃ s : Statement,
    (assemble [] "è data q").statements[0]? = some s ∧ ⟨⟨1, 8, 1⟩, .undefinedSymbol "q"⟩ ∈ s.errors ∧
    Diagnostic.Inside 1 "è data q" ⟨⟨1, 8, 1⟩, .undefinedSymbol "q"⟩ := by
  have hutf8 : Text.IsUtf8 "è data q" := by decide +kernel
  have hrun : (assemble [] "è data q").statements[0]?.map (fun s => (s.line, s.source,
      decide (⟨⟨1, 8, 1⟩, .undefinedSymbol "q"⟩ ∈ s.errors))) = some (1, Text.ofString "è data q", true) := by
    decide +kernel
  obtain ⟨s, hs, hplace⟩ := Option.map_eq_some_iff.1 hrun
  simp only [Prod.mk.injEq, decide_eq_true_eq] at hplace
  obtain ⟨hline, hsource, herror⟩ := hplace
  obtain ⟨-, -, hinside⟩ := (assemble_errors_inside [] "è data q" hutf8).1 0 s hs
  have hlocated := hinside _ herror
  rw [hline, hsource] at hlocated
  exact ⟨hutf8, s, hs, herror, hlocated⟩

end Assembly

end Sigma16
