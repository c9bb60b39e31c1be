/-
What is reported, and about what. Every report of a statement is about its label, its mnemonic, its operands, a
text that evaluation takes out of the operands, or a character. A report that quotes what it found quotes the
text at its place, and no text that it quotes has a newline. One walk through layout and encoding shows this
for all reports; what follows for their places and for their wording is derived from it.
-/
import Sigma16.Proofs.Code
import Sigma16.Proofs.Denotation
import Sigma16.Proofs.Line
import Sigma16.Proofs.Persistence

namespace Sigma16

open Outcome

/-! ## Pieces of the operands -/

theorem Text.isTerm_ne_nil {t : Text} (h : isTerm t = true) : t ≠ [] := by
  rintro rfl
  cases h

/-- A text that evaluation takes out of the operands: all of them, one of them, or what stands on one side of a
byte of ASCII. -/
inductive Statement.Piece (s : Statement) : Text → Prop where
  | whole : s.Piece s.parts.operands
  | operand {text : Text} : text ∈ s.operands → s.Piece text
  | left {sep : UInt8} {text left right : Text} : s.Piece text → sep < 0x80 →
      Text.cut? sep text = some (left, right) → s.Piece left
  | right {sep : UInt8} {text left right : Text} : s.Piece text → sep < 0x80 →
      Text.cut? sep text = some (left, right) → s.Piece right

theorem Statement.Piece.isInfix {s : Statement} {text : Text} (h : s.Piece text) : text <:+: s.parts.operands := by
  induction h with
  | whole => exact List.infix_rfl
  | operand hmem => exact Text.infix_splitOperands hmem
  | left _ _ hcut ih =>
    rw [Text.cut?_eq_some hcut] at ih
    exact (List.prefix_append _ _).isInfix.trans ih
  | right _ _ hcut ih =>
    rw [Text.cut?_eq_some hcut] at ih
    exact ((List.suffix_cons _ _).trans (List.suffix_append _ _)).isInfix.trans ih

/-! ## Causes and the texts they quote -/

/-- The text that a cause says was found, for the causes that point exactly to what they quote. -/
def Cause.found? : Cause → Option Text
  | .invalidLabel text | .unknownOperation text | .undefinedSymbol text | .invalidLiteral text => some text
  | _ => none

/-- A cause that quotes no newline. -/
def Cause.Plain : Cause → Prop
  | .invalidOperand required received => '\n'.toUInt8 ∉ required ∧ '\n'.toUInt8 ∉ received
  | .characterNote text | .invalidLabel text | .missingLabel text | .unknownOperation text
  | .invalidExpression text | .invalidLiteral text | .redeclaredSymbol text _ | .undefinedSymbol text
  | .unknownControlRegister text | .undefinedExport text | .movingField text _ | .oversizedField text _ _
  | .internal text => '\n'.toUInt8 ∉ text
  | .invalidCharacters _ | .operandCount _ _ | .arithmetic _ | .movingBlock _ | .unhandledFormat _ _ _ => True

theorem Operation.Known.notMem_mnemonic {op : Operation} (h : op.Known) : '\n'.toUInt8 ∉ op.mnemonic := by
  have table_plain : ∀ op ∈ empty :: table, '\n'.toUInt8 ∉ op.mnemonic := by decide +kernel
  exact table_plain op h

/-! ## Statements that come from a line -/

theorem Line.notMem_text {l : Line} {b : UInt8} : b ∉ l.text ↔ b ∉ l.label ∧ b ∉ l.labelGap ∧ b ∉ l.mnemonic ∧
    b ∉ l.mnemonicGap ∧ b ∉ l.operands ∧ b ∉ l.comment := by
  simp only [text_eq, List.mem_append, not_or]

/-- A statement that has the parts of its line and an operation that a line can have. -/
structure Statement.Parsed (s : Statement) : Prop where
  parts : s.parts = Line.split s.source
  notMem : '\n'.toUInt8 ∉ s.source
  known : s.operation.Known

namespace Statement.Parsed

variable {s : Statement}

theorem note (h : s.Parsed) (es : List Diagnostic) : (s.note es).Parsed := ⟨h.parts, h.notMem, h.known⟩

theorem notMem_text (h : s.Parsed) : '\n'.toUInt8 ∉ s.parts.text := by
  rw [h.parts, Line.split_text]
  exact h.notMem

theorem notMem_label (h : s.Parsed) : '\n'.toUInt8 ∉ s.parts.label := (Line.notMem_text.1 h.notMem_text).1

theorem notMem_mnemonic (h : s.Parsed) : '\n'.toUInt8 ∉ s.parts.mnemonic := (Line.notMem_text.1 h.notMem_text).2.2.1

theorem notMem_piece (h : s.Parsed) {text : Text} (ht : s.Piece text) : '\n'.toUInt8 ∉ text := by
  intro hmem
  exact (Line.notMem_text.1 h.notMem_text).2.2.2.2.1 (ht.isInfix.subset hmem)

end Statement.Parsed

/-! ## Reports -/

/-- The reports that a statement can have, by what they are about. -/
inductive Statement.Tells (s : Statement) : Diagnostic → Prop where
  | character {column : Nat} {cause : Cause} : column ∈ Text.invalidColumns s.source → cause.found? = none →
      s.Tells ⟨⟨s.line, column, 1⟩, cause⟩
  | label {cause : Cause} : cause.found? = none ∨ cause.found? = some s.parts.label → s.Tells ⟨s.labelCursor, cause⟩
  | operation {cause : Cause} : cause.found? = none ∨ cause.found? = some s.parts.mnemonic →
      s.Tells ⟨s.operationCursor, cause⟩
  | operands {cause : Cause} : cause.found? = none → s.Tells ⟨s.operandsCursor, cause⟩
  | piece {text : Text} {cause : Cause} : s.Piece text → cause.found? = none ∨ text ≠ [] ∧ cause.found? = some text →
      s.Tells ⟨s.textCursor text, cause⟩

/-- All diagnostics are reports of a statement and quote no newline. -/
def Statement.Reports (s : Statement) (errors : List Diagnostic) : Prop := ∀ e ∈ errors, s.Tells e ∧ e.cause.Plain

namespace Statement.Reports

variable {s : Statement}

theorem nil (s : Statement) : s.Reports [] := by
  intro e he
  cases he

theorem append {xs ys : List Diagnostic} (hx : s.Reports xs) (hy : s.Reports ys) : s.Reports (xs ++ ys) := by
  intro e he
  rcases List.mem_append.1 he with he | he
  · exact hx e he
  · exact hy e he

theorem single {e : Diagnostic} (h : s.Tells e) (hp : e.cause.Plain) : s.Reports [e] := by
  intro e' he
  rw [List.mem_singleton.1 he]
  exact ⟨h, hp⟩

/-- What a statement can report depends on its line alone. -/
theorem congr {s' : Statement} {errors : List Diagnostic} (h : s.Reports errors) (hline : s'.line = s.line)
    (hsource : s'.source = s.source) (hparts : s'.parts = s.parts) : s'.Reports errors := by
  have hpiece : ∀ {text : Text}, s.Piece text → s'.Piece text := by
    intro text ht
    induction ht with
    | whole => exact hparts ▸ .whole
    | operand hmem =>
      refine .operand ?_
      unfold Statement.operands at hmem ⊢
      rwa [hparts]
    | left _ hsep hcut ih => exact .left ih hsep hcut
    | right _ hsep hcut ih => exact .right ih hsep hcut
  obtain ⟨line, address, source, parts⟩ := s
  obtain ⟨line', address', source', parts'⟩ := s'
  cases hline
  cases hsource
  cases hparts
  intro e he
  obtain ⟨htells, hplain⟩ := h e he
  refine ⟨?_, hplain⟩
  cases htells with
  | character hcolumn hfound => exact .character hcolumn hfound
  | label hfound => exact .label hfound
  | operation hfound => exact .operation hfound
  | operands hfound => exact .operands hfound
  | piece htext hfound => exact .piece (hpiece htext) hfound

end Statement.Reports

/-- An outcome whose diagnostics are reports of a statement. -/
def Outcome.Reports {α : Type} (s : Statement) (o : Outcome α) : Prop := s.Reports o.effects.errors

namespace Outcome.Reports

variable {α β : Type} {s : Statement}

theorem pure (a : α) : Reports s (Pure.pure a : Outcome α) := Statement.Reports.nil s

theorem bind {x : Outcome α} {f : α → Outcome β} (hx : x.Reports s) (hf : (f x.result).Reports s) :
    (x >>= f).Reports s := Statement.Reports.append hx hf

theorem report {e : Diagnostic} {a : α} (h : s.Tells e) (hp : e.cause.Plain) : (Outcome.report e a).Reports s :=
  Statement.Reports.single h hp

end Outcome.Reports

/-! ## Operands -/

section Operands

variable {s : Statement} (h : s.Parsed) (symbols : SymbolTable)

include h

theorem evaluateTerm_reports {text : Text} (ht : s.Piece text) (hterm : Text.isTerm text = true) :
    (evaluateTerm symbols s text).Reports s := by
  have hne := Text.isTerm_ne_nil hterm
  unfold evaluateTerm
  split
  · split
    · exact .bind (Statement.Reports.nil s) (.pure _)
    · exact .report (.piece ht (.inr ⟨hne, rfl⟩)) (h.notMem_piece ht)
  · split
    · exact .pure _
    · exact .report (.piece ht (.inr ⟨hne, rfl⟩)) (h.notMem_piece ht)
  · split
    · exact .pure _
    · exact .report (.piece ht (.inr ⟨hne, rfl⟩)) (h.notMem_piece ht)

theorem evaluate_reports {text : Text} (ht : s.Piece text) : (evaluate symbols s text).Reports s := by
  unfold evaluate
  cases he : Expression.ofText? text with
  | none => exact .report (.piece ht (.inl rfl)) (h.notMem_piece ht)
  | some expression =>
    unfold Expression.ofText? at he
    split at he
    · rename_i hterm
      cases he
      exact evaluateTerm_reports h symbols ht hterm
    · split at he
      · rename_i left right hcut
        split at he
        · rename_i hterms
          cases he
          rw [Bool.and_eq_true] at hterms
          refine .bind (evaluateTerm_reports h symbols (.left ht (by decide) hcut) hterms.1)
            (.bind (evaluateTerm_reports h symbols (.right ht (by decide) hcut) hterms.2) ?_)
          split
          · exact .pure _
          · exact .report (.piece ht (.inl rfl)) trivial
        · cases he
      · cases he

theorem register_reports {text : Text} (ht : s.Piece text) : (register s text).Reports s := by
  unfold register
  split
  · exact .pure _
  · exact .report (.piece ht (.inl rfl)) ⟨by decide, h.notMem_piece ht⟩

theorem controlRegister_reports {text : Text} (ht : s.Piece text) : (controlRegister s text).Reports s := by
  unfold controlRegister
  split
  · exact .pure _
  · exact .report (.piece ht (.inl rfl)) (h.notMem_piece ht)

/-- The displacement of an indexed operand is a piece of it, or is put in the place of a wrong one. -/
theorem indexed_reports {text : Text} (ht : s.Piece text) :
    (indexed s text).Reports s ∧
    (s.Piece (indexed s text).result.1 ∨ (indexed s text).result.1 = Text.ofString "0") := by
  unfold indexed
  cases hi : indexed? text with
  | none => exact ⟨.report (.piece ht (.inl rfl)) ⟨by decide, h.notMem_piece ht⟩, Or.inr rfl⟩
  | some x =>
    refine ⟨.pure _, Or.inl ?_⟩
    obtain ⟨⟨displacement, rest⟩, hcut, hi⟩ := Option.bind_eq_some_iff.1 hi
    obtain ⟨-, -, hi⟩ := Option.bind_eq_some_iff.1 hi
    obtain ⟨n, -, hi⟩ := Option.bind_eq_some_iff.1 hi
    cases hi
    exact .left ht (by decide) hcut

theorem link_reports {text : Text} (ht : s.Piece text) (address : Word) (value : Value) (field : Text) :
    (link symbols s address text value field).Reports s := by
  have hplain : Cause.Plain (.internal ("external symbol " ++ text ++ " undefined")) := by
    have hfixed : '\n'.toUInt8 ∉ Text.ofString "external symbol " ∧ '\n'.toUInt8 ∉ Text.ofString " undefined" := by
      decide
    show '\n'.toUInt8 ∉ _ ++ text ++ _
    simp only [List.mem_append, not_or]
    exact ⟨⟨hfixed.1, h.notMem_piece ht⟩, hfixed.2⟩
  unfold link link.undefinedExternal
  split
  · split
    · split
      · exact Statement.Reports.nil s
      · exact .report (.piece ht (.inl rfl)) hplain
    · exact .report (.piece ht (.inl rfl)) hplain
  · split <;> exact Statement.Reports.nil s

theorem fieldValue_reports {text : Text} (ht : s.Piece text) (field : Field) :
    (fieldValue symbols s field text).Reports s := by
  unfold fieldValue wholeWord constant
  dsimp only
  split
  · exact .bind (evaluate_reports h symbols ht) (.bind (link_reports h symbols ht _ _ _) (.pure _))
  · refine .bind (evaluate_reports h symbols ht) ?_
    split
    · exact .bind (link_reports h symbols ht _ _ _) (.pure _)
    · split
      · exact .report (.piece ht (.inl rfl)) field.notMem_name
      · split
        · exact .report (.piece ht (.inl rfl)) field.notMem_name
        · exact .pure _

omit h in
/-- Nothing is wrong with the displacement that stands for a wrong one. -/
theorem fieldValue_zero (field : Field) : (fieldValue symbols s field "0").effects.errors = [] := by
  have hzero : numeral? "0" = some 0 := by decide
  unfold fieldValue wholeWord
  dsimp only
  split
  · rw [evaluate_numeral hzero, pure_bind_eq]
    rfl
  · rw [constant_numeral hzero (UInt16.le_iff_toNat_le.2 (Nat.zero_le _))]
    rfl

theorem placeOperand_reports {text : Text} (ht : s.Piece text) (slot : Slot) :
    (placeOperand symbols s slot text).Reports s := by
  cases slot with
  | register field => exact .bind (register_reports h ht) (.pure _)
  | control field => exact .bind (controlRegister_reports h ht) (.pure _)
  | value field => exact .bind (fieldValue_reports h symbols ht field) (.pure _)
  | indexed index field =>
    obtain ⟨hindexed, hdisplacement⟩ := indexed_reports h ht
    refine .bind hindexed (.bind ?_ (.pure _))
    rcases hdisplacement with hpiece | hzero
    · exact fieldValue_reports h symbols hpiece field
    · rw [hzero, Outcome.Reports, fieldValue_zero]
      exact .nil s

theorem placeOperands_reports : ∀ (slots : List Slot) (texts : List Text), (∀ text ∈ texts, s.Piece text) →
    (placeOperands symbols s slots texts).Reports s
  | [], _, _ => .pure _
  | _ :: _, [], _ => .pure _
  | slot :: slots, text :: texts, ht =>
    .bind (placeOperand_reports h symbols (ht text List.mem_cons_self) slot)
      (.bind (placeOperands_reports slots texts fun t hm => ht t (List.mem_cons_of_mem _ hm)) (.pure _))

theorem exportNames_reports : ∀ {names : List Text}, (∀ name ∈ names, s.Piece name) →
    (exportNames symbols s names).Reports s
  | [], _ => .pure _
  | name :: names, hnames => by
    refine .bind ?_ (exportNames_reports fun t hm => hnames t (List.mem_cons_of_mem _ hm))
    have hname := hnames name List.mem_cons_self
    unfold exportName
    split
    · split
      · exact Statement.Reports.nil s
      · exact .report (.piece hname (.inl rfl)) (h.notMem_piece hname)
    · exact .report (.piece hname (.inl rfl)) ⟨by decide, h.notMem_piece hname⟩

/-- All that encoding a statement reports. -/
theorem encode_reports : (encode symbols s).Reports s := by
  unfold encode
  split
  · exact .pure _
  · exact .pure _
  · unfold encodeWords
    split
    · exact .bind (placeOperands_reports h symbols _ _ fun _ hm => .operand hm) (.pure _)
    · exact .report (.operands rfl) trivial
  · split
    · exact .report (.operands rfl) trivial
    · exact .bind (exportNames_reports h symbols fun _ hm => .operand hm) (.pure _)
  · exact .report (.operation (.inl rfl)) trivial

end Operands

/-! ## Lines -/

theorem Statement.characterErrors_reports (s : Statement) : s.Reports s.characterErrors := by
  unfold Statement.characterErrors
  cases hc : Text.invalidColumns s.source with
  | nil => exact .nil s
  | cons column columns =>
    -- all of them are about the first wrong character
    have hcolumn : column ∈ Text.invalidColumns s.source := by
      rw [hc]
      exact List.mem_cons_self
    have hnotes : ∀ note ∈ characterNotes, '\n'.toUInt8 ∉ note := by decide +kernel
    intro e he
    rcases List.mem_cons.1 he with rfl | he
    · exact ⟨.character hcolumn rfl, trivial⟩
    · obtain ⟨note, hnote, rfl⟩ := List.mem_map.1 he
      exact ⟨.character hcolumn rfl, hnotes note hnote⟩

section Layout

variable {s : Statement} (h : s.Parsed)

include h

theorem labelErrors_reports : s.Reports s.labelErrors := by
  unfold Statement.labelErrors
  split
  · exact .nil s
  · exact .single (.label (.inr rfl)) h.notMem_label

theorem newBinding_reports (c : Context) : (newBinding c s).Reports s := by
  unfold newBinding
  split
  · exact .bind (evaluate_reports h c.symbols .whole) (.pure _)
  · split
    · rename_i moduleName foreignName hoperands
      split
      · rename_i name hname
        have hmem : name ∈ s.operands := hoperands ▸ List.mem_of_find?_eq_some hname
        exact .report (.piece (.operand hmem) (.inl rfl)) ⟨by decide, h.notMem_piece .whole⟩
      · exact .pure _
    · exact .report (.operands rfl) trivial
  · exact .pure _

theorem bindLabel_reports (c : Context) : s.Reports (bindLabel c s).2 := by
  rw [bindLabel_eq]
  split
  · split
    · exact .nil s
    · split
      · exact .single (.label (.inl rfl)) h.notMem_label
      · exact newBinding_reports h c
  · split
    · exact .single (.operation (.inl rfl)) h.known.notMem_mnemonic
    · exact .single (.operation (.inl rfl)) h.known.notMem_mnemonic
    · exact .single (.operation (.inl rfl)) h.known.notMem_mnemonic
    · exact .nil s

theorem orgTarget_reports (c : Context) : (orgTarget c s).Reports s := by
  unfold orgTarget
  refine .bind (evaluate_reports h c.symbols .whole) ?_
  split
  · exact .report (.operands rfl) ⟨by decide, h.notMem_piece .whole⟩
  · exact .pure _

theorem blockTarget_reports (c : Context) : (blockTarget c s).Reports s := by
  unfold blockTarget
  refine .bind (evaluate_reports h c.symbols .whole) ?_
  split
  · exact .report (.operands rfl) trivial
  · split
    · exact .pure _
    · exact .report (.operands rfl) trivial

theorem advance_reports (hs : s.Reports s.errors) (c : Context) : s.Reports (advance c s).2.errors := by
  unfold advance
  split
  · exact hs.append (orgTarget_reports h c)
  · exact hs.append (blockTarget_reports h c)
  · split
    · exact hs
    · exact hs.append (.single (.operation (.inl rfl)) trivial)

theorem withOperation_reports (hs : s.Reports s.errors) : s.Reports s.withOperation.errors := by
  unfold Statement.withOperation
  split
  · exact hs
  · split
    · exact hs
    · exact hs.append (.single (.operation (.inr rfl)) h.notMem_mnemonic)

end Layout

/-- A statement keeps its line when its operation is looked up. -/
theorem Statement.withOperation_source (s : Statement) : s.withOperation.source = s.source := by
  unfold Statement.withOperation
  split
  · rfl
  · split <;> rfl

section Line

variable {source : Text} (hn : '\n'.toUInt8 ∉ source)

include hn

theorem checked_reports (line : Int) (address : Value) :
    (Statement.checked line address source).Parsed ∧ (Statement.checked line address source).source = source ∧
    (Statement.checked line address source).Reports (Statement.checked line address source).errors := by
  -- the statement of the parts, before its label and its mnemonic are looked at
  let s : Statement := { line, address, source, parts := Line.split source }
  have hs : s.Parsed := ⟨rfl, hn, Operation.empty_known⟩
  have hread : Statement.read line address source = (s.note s.labelErrors).withOperation := by
    unfold Statement.read
    rw [Line.ofText?_eq_some hn]
  have hplaced := Statement.checked_placed line address source
  have hsource := Statement.withOperation_source (s.note s.labelErrors)
  have hparts := Statement.withOperation_parts (s.note s.labelErrors)
  have herrors : (s.note s.labelErrors).Reports (s.note s.labelErrors).errors :=
    ((Statement.Reports.nil s).append (labelErrors_reports hs)).congr rfl rfl rfl
  have hreports := withOperation_reports (hs.note s.labelErrors) herrors
  rw [← hread] at hsource hparts hreports
  refine ⟨⟨?_, ?_, hplaced.known⟩, hsource, ?_⟩
  · show (Statement.read line address source).parts = Line.split (Statement.read line address source).source
    rw [hparts, hsource]
    rfl
  · show '\n'.toUInt8 ∉ (Statement.read line address source).source
    rw [hsource]
    exact hn
  · exact (Statement.characterErrors_reports _).append (hreports.congr hplaced.line hsource hparts)

/-- All that laying out a line reports. -/
theorem layOutLine_reports (c : Context) (line : Int) :
    (layOutLine c line source).2.Parsed ∧ (layOutLine c line source).2.line = line ∧
    (layOutLine c line source).2.source = source ∧
    (layOutLine c line source).2.Reports (layOutLine c line source).2.errors := by
  obtain ⟨hs, hsource, herrors⟩ := checked_reports hn line c.counter
  have hline := (Statement.checked_placed line c.counter source).line
  rw [layOutLine_eq]
  generalize Statement.checked line c.counter source = s at hs hline hsource herrors
  have hreports := advance_reports (hs.note (bindLabel c s).2)
    ((herrors.append (bindLabel_reports hs c)).congr rfl rfl rfl) (bindLabel c s).1
  obtain ⟨orgAddress, errors, h⟩ := advance_statement (bindLabel c s).1 (s.note (bindLabel c s).2)
  rw [h] at hreports ⊢
  exact ⟨⟨hs.parts, hs.notMem, hs.known⟩, hline, hsource, hreports.congr rfl rfl rfl⟩

end Line

/-! ## A whole source -/

namespace Assembly

/-- The statement of a line in an assembled module has the number and the text of the line, and its errors are
reports of the statement. -/
theorem assemble_reports {name source : Text} {i : Nat} {s : Statement}
    (hs : (assemble name source).statements[i]? = some s) :
    s.line = 1 + i ∧ (Text.sourceLines source)[i]? = some s.source ∧ s.Parsed ∧ s.Reports s.errors := by
  rw [assemble_statements] at hs
  obtain ⟨line, hline, rfl⟩ := Option.map_eq_some_iff.1 hs
  obtain ⟨hparsed, hnumber, htext, hreports⟩ := layOutLine_reports
    (Text.sourceLines_notMem source line (List.mem_of_getElem? hline)) (contextAfter name source i) (1 + i)
  generalize (layOutLine (contextAfter name source i) (1 + i) line).2 = u at hparsed hnumber htext hreports
  refine ⟨hnumber, ?_, ⟨hparsed.parts, hparsed.notMem, hparsed.known⟩, ?_⟩
  · rw [hline]
    exact congrArg some htext.symm
  · exact (hreports.append (encode_reports hparsed _)).congr rfl rfl rfl

end Assembly

end Sigma16
