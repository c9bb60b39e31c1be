/-
Reports on operands. What is wrong with an operand is reported on a piece of it, but the piece is looked up among all
operands: the report points to the first operand that holds the same text. It points into the operand that is wrong
exactly if no operand before that one holds the text.
-/
import Sigma16.Proofs.Grammar
import Sigma16.Proofs.Position

namespace Sigma16

open Outcome

/-! ## Finding a text between separators -/

namespace Text

theorem prefix_append_cons {sep : UInt8} {needle x y : Text} (h : sep ∉ needle) :
    needle <+: x ++ sep :: y ↔ needle <+: x := by
  constructor
  · intro hstart
    rcases List.prefix_or_prefix_of_prefix hstart (List.prefix_append x _) with hx | ⟨z, rfl⟩
    · exact hx
    · rw [List.prefix_append_right_inj] at hstart
      cases z with
      | nil => exact (List.append_nil x).symm ▸ List.prefix_rfl
      | cons b z =>
        obtain ⟨rfl, -⟩ := List.cons_prefix_cons.1 hstart
        exact absurd (List.mem_append_right x List.mem_cons_self) h
  · exact fun hstart => hstart.trans (List.prefix_append _ _)

/-- A text without a separator is found on one side of it. -/
theorem find?_append_cons {sep : UInt8} {needle : Text} (hne : needle ≠ []) (h : sep ∉ needle) (rest : Text) :
    ∀ first : Text, find? needle (first ++ sep :: rest) =
      (find? needle first).or ((find? needle rest).map (first.length + 1 + ·))
  | [] => by
    have hstart : ¬ needle.isPrefixOf (sep :: rest) = true := by
      rw [List.isPrefixOf_iff_prefix, ← List.nil_append (sep :: rest), prefix_append_cons h, List.prefix_nil]
      exact hne
    have hnone : find? needle [] = none := if_neg (by simpa using hne)
    have hstep : find? needle (sep :: rest) = (find? needle rest).map (· + 1) := if_neg hstart
    rw [List.nil_append, hnone, Option.none_or, hstep]
    simp [Nat.add_comm]
  | b :: first => by
    have hstart : needle.isPrefixOf (b :: (first ++ sep :: rest)) = true ↔ needle.isPrefixOf (b :: first) = true := by
      rw [List.isPrefixOf_iff_prefix, List.isPrefixOf_iff_prefix, ← List.cons_append, prefix_append_cons h]
    rw [List.cons_append, find?, find?, find?_append_cons hne h rest first]
    by_cases hhere : needle.isPrefixOf (b :: first) = true
    · rw [if_pos (hstart.2 hhere), if_pos hhere, Option.some_or]
    · rw [if_neg (mt hstart.1 hhere), if_neg hhere]
      cases find? needle first with
      | some n => rfl
      | none =>
        rw [Option.none_or, Option.map_none, Option.none_or, Option.map_map]
        congr 1
        funext n
        simp only [Function.comp_apply, List.length_cons]
        omega

theorem find?_split {needle t : Text} {n : Nat} (hne : needle ≠ []) (h : find? needle t = some n) :
    ∃ before after, t = before ++ (needle ++ after) ∧ before.length = n := by
  obtain ⟨after, ht⟩ := find?_eq_some h
  have hlength := congrArg List.length ht
  have hpositive := List.length_pos_iff.2 hne
  rw [List.length_append, List.length_append, List.length_take] at hlength
  refine ⟨t.take n, after, ht, ?_⟩
  rw [List.length_take]
  omega

theorem find?_eq_none {needle t : Text} (hne : needle ≠ []) (h : ¬ needle <:+: t) : find? needle t = none := by
  cases hfind : find? needle t with
  | none => rfl
  | some n =>
    obtain ⟨before, after, rfl, -⟩ := find?_split hne hfind
    exact absurd ⟨before, after, by simp⟩ h

theorem join_cons_of_ne_nil {first : Text} : ∀ {parts : List Text}, parts ≠ [] →
    join "," (first :: parts) = first ++ ','.toUInt8 :: join "," parts
  | [], h => absurd rfl h
  | second :: parts, _ => by
    unfold join
    rw [List.intercalate_cons_cons, List.append_assoc]
    rfl

/-- The parts before a part, each with its comma. -/
def beforePart (parts : List Text) (i : Nat) : Text := (parts.take i).flatMap (· ++ [','.toUInt8])

@[simp] theorem beforePart_zero (parts : List Text) : beforePart parts 0 = [] := rfl

@[simp] theorem beforePart_cons_succ (first : Text) (parts : List Text) (i : Nat) :
    beforePart (first :: parts) (i + 1) = first ++ ','.toUInt8 :: beforePart parts i := by
  simp [beforePart]

/-- A part ends before a later one starts. -/
theorem beforePart_lt : ∀ {parts : List Text} {j i : Nat} {part : Text}, parts[j]? = some part → j < i →
    (beforePart parts j).length + part.length < (beforePart parts i).length
  | [], _, _, _, h, _ => by simp at h
  | first :: parts, _, 0, _, _, hij => absurd hij (Nat.not_lt_zero _)
  | first :: parts, 0, i + 1, part, h, _ => by
    obtain rfl : first = part := by simpa using h
    simp
  | first :: parts, j + 1, i + 1, part, h, hij => by
    rw [List.getElem?_cons_succ] at h
    have ih := beforePart_lt h (Nat.lt_of_succ_lt_succ hij)
    simp only [beforePart_cons_succ, List.length_append, List.length_cons]
    omega

theorem ne_nil_of_getElem?_succ {first : Text} {parts : List Text} {i : Nat} {part : Text}
    (h : (first :: parts)[i + 1]? = some part) : parts ≠ [] := by
  rintro rfl
  simp at h

theorem join_at : ∀ {parts : List Text} {i : Nat} {part : Text}, parts[i]? = some part →
    ∃ rest, join "," parts = beforePart parts i ++ (part ++ rest)
  | [], _, _, h => by simp at h
  | [first], 0, part, h => by
    obtain rfl : first = part := by simpa using h
    exact ⟨[], by simp [join]⟩
  | first :: second :: parts, 0, part, h => by
    obtain rfl : first = part := by simpa using h
    exact ⟨_, join_cons_of_ne_nil (List.cons_ne_nil _ _)⟩
  | first :: parts, i + 1, part, h => by
    have hparts := ne_nil_of_getElem?_succ h
    rw [List.getElem?_cons_succ] at h
    obtain ⟨rest, hrest⟩ := join_at h
    refine ⟨rest, ?_⟩
    rw [join_cons_of_ne_nil hparts, hrest, beforePart_cons_succ, List.append_assoc, List.cons_append]

/-- A text is found in the first part that holds it. -/
theorem find?_join {needle : Text} (hne : needle ≠ []) (hcomma : ','.toUInt8 ∉ needle) :
    ∀ {parts : List Text} {i : Nat} {part : Text}, parts[i]? = some part → needle <:+: part →
      (∀ earlier ∈ parts.take i, ¬ needle <:+: earlier) →
      find? needle (join "," parts) = (find? needle part).map ((beforePart parts i).length + ·)
  | [], _, _, h, _, _ => by simp at h
  | [first], 0, part, h, _, _ => by
    obtain rfl : first = part := by simpa using h
    simp [join]
  | first :: second :: parts, 0, part, h, hin, _ => by
    obtain rfl : first = part := by simpa using h
    obtain ⟨n, hn⟩ := Option.isSome_iff_exists.1 (find?_isSome hin)
    rw [join_cons_of_ne_nil (List.cons_ne_nil _ _), find?_append_cons hne hcomma, hn]
    simp
  | first :: parts, i + 1, part, h, hin, hfirst => by
    have hparts := ne_nil_of_getElem?_succ h
    rw [List.getElem?_cons_succ] at h
    rw [List.take_succ_cons, List.forall_mem_cons] at hfirst
    rw [join_cons_of_ne_nil hparts, find?_append_cons hne hcomma, find?_eq_none hne hfirst.1, Option.none_or,
      find?_join hne hcomma h hin hfirst.2, Option.map_map]
    congr 1
    funext n
    simp only [Function.comp_apply, beforePart_cons_succ, List.length_append, List.length_cons]
    omega

end Text

/-! ## Reports on one operand -/

/-- All reports are about pieces of a text. -/
def Outcome.PointsInto {α : Type} (s : Statement) (text : Text) (o : Outcome α) : Prop :=
  ∀ e ∈ o.effects.errors, ∃ t : Text, t ≠ [] ∧ t <:+: text ∧ e.position = s.textCursor t

namespace Outcome.PointsInto

variable {α β : Type} {s : Statement} {text : Text}

theorem of_nil {o : Outcome α} (h : o.effects.errors = []) : o.PointsInto s text := by
  intro e he
  rw [h] at he
  cases he

theorem pure (a : α) : (Pure.pure a : Outcome α).PointsInto s text := .of_nil rfl

theorem bind {x : Outcome α} {f : α → Outcome β} (hx : x.PointsInto s text) (hf : (f x.result).PointsInto s text) :
    (x >>= f).PointsInto s text := by
  intro e he
  rw [bind_effects, Effects.append_errors] at he
  rcases List.mem_append.1 he with he | he
  · exact hx e he
  · exact hf e he

theorem report (h : text ≠ []) (cause : Cause) (a : α) :
    (Outcome.report ⟨s.textCursor text, cause⟩ a).PointsInto s text := by
  intro e he
  rw [List.mem_singleton.1 he]
  exact ⟨text, h, List.infix_rfl, rfl⟩

theorem mono {o : Outcome α} {whole : Text} (h : o.PointsInto s text) (hin : text <:+: whole) :
    o.PointsInto s whole := by
  intro e he
  obtain ⟨t, hne, ht, hposition⟩ := h e he
  exact ⟨t, hne, ht.trans hin, hposition⟩

end Outcome.PointsInto

theorem Term.Spelt.ne_nil {k : Term} {t : Text} (h : k.Spelt t) : t ≠ [] := by
  obtain ⟨b, s, rfl, -⟩ := h.bytes
  exact List.cons_ne_nil b s

section Operand

variable (symbols : SymbolTable) (s : Statement) {text : Text} (hne : text ≠ [])

include hne

theorem evaluateTerm_pointsInto : (evaluateTerm symbols s text).PointsInto s text := by
  unfold evaluateTerm
  split
  · split
    · exact .bind (.of_nil rfl) (.pure _)
    · exact .report hne _ _
  · split
    · exact .pure _
    · exact .report hne _ _
  · split
    · exact .pure _
    · exact .report hne _ _

theorem evaluate_pointsInto : (evaluate symbols s text).PointsInto s text := by
  unfold evaluate
  cases he : Expression.ofText? text with
  | none => exact .report hne _ _
  | some expression =>
    cases Expression.spelt_of_ofText? he with
    | term _ => exact evaluateTerm_pointsInto symbols s hne
    | sum hx hy =>
      have hleft := evaluateTerm_pointsInto symbols s hx.ne_nil
      have hright := evaluateTerm_pointsInto symbols s hy.ne_nil
      refine .bind (hleft.mono (List.prefix_append _ _).isInfix)
        (.bind (hright.mono ((List.suffix_cons _ _).trans (List.suffix_append _ _)).isInfix) ?_)
      split
      · exact .pure _
      · exact .report hne _ _

theorem register_pointsInto : (register s text).PointsInto s text := by
  unfold register
  split
  · exact .pure _
  · exact .report hne _ _

theorem controlRegister_pointsInto : (controlRegister s text).PointsInto s text := by
  unfold controlRegister
  split
  · exact .pure _
  · exact .report hne _ _

theorem link_pointsInto (address : Word) (value : Value) (field : Text) :
    (link symbols s address text value field).PointsInto s text := by
  unfold link link.undefinedExternal
  split
  · split
    · split
      · exact .of_nil rfl
      · exact .report hne _ _
    · exact .report hne _ _
  · split <;> exact .of_nil rfl

theorem fieldValue_pointsInto (field : Field) : (fieldValue symbols s field text).PointsInto s text := by
  unfold fieldValue wholeWord constant
  dsimp only
  split
  · exact .bind (evaluate_pointsInto symbols s hne) (.bind (link_pointsInto symbols s hne _ _ _) (.pure _))
  · refine .bind (evaluate_pointsInto symbols s hne) ?_
    split
    · exact .bind (link_pointsInto symbols s hne _ _ _) (.pure _)
    · split
      · exact .report hne _ _
      · split
        · exact .report hne _ _
        · exact .pure _

/-- The displacement of an indexed operand is a piece of it, or is put in the place of a wrong one. -/
theorem indexed_pointsInto : (indexed s text).PointsInto s text ∧
    ((indexed s text).result.1 ≠ [] ∧ (indexed s text).result.1 <:+: text ∨
      (indexed s text).result.1 = Text.ofString "0") := by
  unfold indexed
  cases hindexed : indexed? text with
  | none => exact ⟨.report hne _ _, .inr rfl⟩
  | some x =>
    refine ⟨.pure _, .inl ?_⟩
    obtain ⟨⟨displacement, rest⟩, hcut, hindexed⟩ := Option.bind_eq_some_iff.1 hindexed
    obtain ⟨_, hform, hindexed⟩ := Option.bind_eq_some_iff.1 hindexed
    obtain ⟨n, -, hindexed⟩ := Option.bind_eq_some_iff.1 hindexed
    cases hindexed
    constructor
    · rintro rfl
      cases hform
    · rw [Text.cut?_eq_some hcut]
      exact (List.prefix_append _ _).isInfix

theorem placeOperand_pointsInto (slot : Slot) : (placeOperand symbols s slot text).PointsInto s text := by
  cases slot with
  | register field => exact .bind (register_pointsInto s hne) (.pure _)
  | control field => exact .bind (controlRegister_pointsInto s hne) (.pure _)
  | value field => exact .bind (fieldValue_pointsInto symbols s hne field) (.pure _)
  | indexed index field =>
    obtain ⟨hindexed, hdisplacement⟩ := indexed_pointsInto s hne
    refine .bind hindexed (.bind ?_ (.pure _))
    rcases hdisplacement with ⟨hne', hpiece⟩ | hzero
    · exact (fieldValue_pointsInto symbols s hne' field).mono hpiece
    · rw [hzero]
      exact .of_nil (fieldValue_zero symbols field)

theorem exportName_pointsInto : (exportName symbols s text).PointsInto s text := by
  unfold exportName
  split
  · split
    · exact .bind (.of_nil rfl) (.of_nil rfl)
    · exact .report hne _ _
  · exact .report hne _ _

end Operand

/-! ## Reports on all operands -/

namespace Statement

/-- Has the statement as many operands as its encoding asks for? -/
def isCounted (s : Statement) : Bool :=
  match s.operation.encoding? with
  | some (.words shape) => s.operands.length == shape.slots.length
  | some .exports => !s.operands.isEmpty
  | some .nothing | some .origin => true
  | none => false

/-- What encoding reports on each operand, from left to right. -/
def operandErrors (s : Statement) (symbols : SymbolTable) : List (List Diagnostic) :=
  match s.operation.encoding? with
  | some (.words shape) =>
    shape.slots.zipWith (fun slot text => (placeOperand symbols s slot text).effects.errors) s.operands
  | some .exports => s.operands.map fun name => (exportName symbols s name).effects.errors
  | _ => []

end Statement

theorem placeOperands_errors (symbols : SymbolTable) (s : Statement) : ∀ (slots : List Slot) (texts : List Text),
    (placeOperands symbols s slots texts).effects.errors =
      (slots.zipWith (fun slot text => (placeOperand symbols s slot text).effects.errors) texts).flatten
  | [], _ => by simp [placeOperands]
  | _ :: _, [] => by simp [placeOperands]
  | slot :: slots, text :: texts => by
    simp only [placeOperands, bind_effects, pure_effects, Effects.append_empty, Effects.append_errors,
      placeOperands_errors symbols s slots texts, List.zipWith_cons_cons, List.flatten_cons]

theorem exportNames_errors (symbols : SymbolTable) (s : Statement) : ∀ names : List Text,
    (exportNames symbols s names).effects.errors =
      (names.map fun name => (exportName symbols s name).effects.errors).flatten
  | [] => rfl
  | name :: names => by
    simp only [exportNames, bind_effects, Effects.append_errors, exportNames_errors symbols s names, List.map_cons,
      List.flatten_cons]

/-- With the right number of operands, all reports are on operands. -/
theorem encode_errors {s : Statement} (h : s.isCounted = true) (symbols : SymbolTable) :
    (encode symbols s).effects.errors = (s.operandErrors symbols).flatten := by
  unfold Statement.isCounted at h
  unfold encode Statement.operandErrors
  split at h
  · rename_i shape hencoding
    simp only [hencoding, encodeWords, if_pos (beq_iff_eq.1 h), bind_effects, pure_effects, Effects.append_empty,
      placeOperands_errors]
  · rename_i hencoding
    simp only [Bool.not_eq_true'] at h
    simp only [hencoding, h, Bool.false_eq_true, if_false, bind_effects, pure_effects, Effects.append_empty,
      exportNames_errors]
  · rename_i hencoding
    simp [hencoding]
  · rename_i hencoding
    simp [hencoding]
  · cases h

theorem operandErrors_pointsInto {s : Statement} {symbols : SymbolTable} {i : Nat} {operand : Text}
    {errors : List Diagnostic} (hoperand : s.operands[i]? = some operand) (hne : operand ≠ [])
    (herrors : (s.operandErrors symbols)[i]? = some errors) :
    ∀ e ∈ errors, ∃ t : Text, t ≠ [] ∧ t <:+: operand ∧ e.position = s.textCursor t := by
  unfold Statement.operandErrors at herrors
  split at herrors
  · obtain ⟨slot, text, -, htext, rfl⟩ := List.getElem?_zipWith_eq_some.1 herrors
    obtain rfl : operand = text := Option.some.inj (hoperand.symm.trans htext)
    exact placeOperand_pointsInto symbols s hne slot
  · rw [List.getElem?_map, hoperand] at herrors
    cases herrors
    exact exportName_pointsInto symbols s hne
  · cases herrors

/-! ## Columns -/

namespace Statement

/-- What stands in the line before an operand. -/
def beforeOperand (s : Statement) (i : Nat) : Text :=
  s.parts.label ++ s.parts.labelGap ++ s.parts.mnemonic ++ s.parts.mnemonicGap ++ Text.beforePart s.operands i

/-- What a cursor marks in a line of ASCII. -/
def marked (s : Statement) (position : Cursor) : Text :=
  (s.source.drop (position.column - 1).toNat).take position.size.toNat

/-- A statement whose parts are those of its line, the line being of ASCII. -/
structure IsAscii (s : Statement) : Prop where
  parts : s.parts = Line.split s.source
  ascii : ∀ b ∈ s.source, b < 0x80

theorem IsAscii.source_eq {s : Statement} (h : s.IsAscii) : s.source = s.parts.label ++ s.parts.labelGap ++
    s.parts.mnemonic ++ s.parts.mnemonicGap ++ (s.parts.operands ++ s.parts.comment) := by
  rw [h.parts, ← List.append_assoc]
  exact (Line.split_text s.source).symm

theorem IsAscii.beforeOperand_prefix {s : Statement} (h : s.IsAscii) {i : Nat} {operand : Text}
    (hoperand : s.operands[i]? = some operand) : s.beforeOperand i ++ operand <+: s.source := by
  obtain ⟨rest, hrest⟩ := Text.join_at hoperand
  rw [operands, Text.join_splitOperands] at hrest
  refine ⟨rest ++ s.parts.comment, ?_⟩
  rw [h.source_eq, hrest]
  simp only [beforeOperand, operands, List.append_assoc]

/-- Where the cursor of a text stands that is found in the operands. -/
theorem IsAscii.textCursor_eq {s : Statement} (h : s.IsAscii) {t : Text} (hne : t ≠ []) {n : Nat}
    (hfind : Text.find? t s.parts.operands = some n) :
    (s.textCursor t).column = 1 + (s.beforeOperand 0).length + n ∧ s.marked (s.textCursor t) = t := by
  obtain ⟨before, after, hoperands, rfl⟩ := Text.find?_split hne hfind
  have hsource : s.source = s.beforeOperand 0 ++ (before ++ (t ++ (after ++ s.parts.comment))) := by
    rw [h.source_eq, hoperands]
    simp [beforeOperand]
  -- every piece is of ASCII, so it has as many characters as bytes
  have hwidth : ∀ piece : Text, piece <:+: s.source → Text.width piece = piece.length := fun piece hpiece =>
    Text.width_of_ascii fun b hb => h.ascii b (hpiece.subset hb)
  have hfront := hwidth (s.beforeOperand 0) (hsource ▸ (List.prefix_append _ _).isInfix)
  have hbefore := hwidth before (hsource ▸ ⟨s.beforeOperand 0, _, by rw [List.append_assoc]⟩)
  have htext := hwidth t (hsource ▸ ⟨s.beforeOperand 0 ++ before, _, by simp only [List.append_assoc]; rfl⟩)
  have htake : s.parts.operands.take before.length = before := by rw [hoperands, List.take_left]
  have hcursor : s.textCursor t = ⟨s.line, 1 + (s.beforeOperand 0).length + before.length, t.length⟩ := by
    unfold textCursor
    rw [if_neg (by simpa using hne), hfind]
    simp only [htake, hbefore, htext, operandsCursor]
    rw [← hfront, beforeOperand, Text.beforePart_zero, List.append_nil]
  refine ⟨by rw [hcursor], ?_⟩
  have hcolumn : ((1 + (s.beforeOperand 0).length + before.length : Int) - 1).toNat =
      (s.beforeOperand 0 ++ before).length := by
    rw [List.length_append]
    omega
  rw [hcursor, marked]
  simp only [hcolumn, Int.toNat_natCast]
  rw [hsource, ← List.append_assoc, List.drop_left, List.take_left]

/-- The cursor of a text stands in the first operand that holds it. -/
theorem IsAscii.textCursor_first {s : Statement} (h : s.IsAscii) {t : Text} (hne : t ≠ []) {j : Nat} {operand : Text}
    (hoperand : s.operands[j]? = some operand) (hin : t <:+: operand)
    (hfirst : ∀ earlier ∈ s.operands.take j, ¬ t <:+: earlier) :
    s.marked (s.textCursor t) = t ∧ ∃ m : Nat, m + t.length ≤ operand.length ∧
      (s.textCursor t).column = 1 + (s.beforeOperand j).length + m := by
  have hcomma : ','.toUInt8 ∉ t := fun hmem =>
    Text.splitOperands_notMem (List.mem_of_getElem? hoperand) (hin.subset hmem)
  obtain ⟨m, hm⟩ := Option.isSome_iff_exists.1 (Text.find?_isSome hin)
  have hfind := Text.find?_join hne hcomma hoperand hin hfirst
  rw [hm, operands, Text.join_splitOperands] at hfind
  obtain ⟨hcolumn, hmarked⟩ := h.textCursor_eq hne hfind
  obtain ⟨before, after, rfl, rfl⟩ := Text.find?_split hne hm
  refine ⟨hmarked, before.length, ?_, ?_⟩
  · simp only [List.length_append]
    omega
  · rw [hcolumn]
    simp only [beforeOperand, operands, Text.beforePart_zero, List.append_nil, List.length_append]
    omega

end Statement

/-- A property that an item has is had by a first one. -/
theorem exists_first_getElem? {α : Type} {p : α → Prop} {items : List α} (i : Nat) {item : α}
    (h : items[i]? = some item) (hp : p item) :
    ∃ j ≤ i, ∃ first, items[j]? = some first ∧ p first ∧ ∀ earlier ∈ items.take j, ¬ p earlier := by
  induction i using Nat.strongRecOn generalizing item with
  | _ i ih =>
    by_cases hearlier : ∃ earlier ∈ items.take i, p earlier
    · obtain ⟨earlier, hmem, hpe⟩ := hearlier
      obtain ⟨k, hk, rfl⟩ := List.mem_take_iff_getElem.1 hmem
      obtain ⟨j, hj, hfirst⟩ := ih k (by omega) (List.getElem?_eq_getElem (by omega)) hpe
      exact ⟨j, by omega, hfirst⟩
    · exact ⟨i, Nat.le_refl i, item, h, hp, fun earlier hmem hpe => hearlier ⟨earlier, hmem, hpe⟩⟩

/-- A report on an operand marks a piece of it, and stands in its columns exactly if no operand before it holds the same
piece. -/
theorem Statement.IsAscii.column_iff {s : Statement} (h : s.IsAscii) {t : Text} (hne : t ≠ []) {i : Nat}
    {operand : Text} (hoperand : s.operands[i]? = some operand) (hin : t <:+: operand) :
    s.marked (s.textCursor t) = t ∧
    ((s.beforeOperand i).length < (s.textCursor t).column ∧
        (s.textCursor t).column ≤ (s.beforeOperand i).length + operand.length ↔
      ∀ earlier ∈ s.operands.take i, ¬ t <:+: earlier) := by
  obtain ⟨j, hj, first, hget, hholds, hfirst⟩ := exists_first_getElem? i hoperand hin
  obtain ⟨hmarked, m, hm, hcolumn⟩ := h.textCursor_first hne hget hholds hfirst
  have hpositive := List.length_pos_iff.2 hne
  refine ⟨hmarked, ?_⟩
  rw [hcolumn]
  rcases Nat.lt_or_eq_of_le hj with hlt | rfl
  · -- an earlier operand ends before this one starts
    have hends : (s.beforeOperand j).length + first.length < (s.beforeOperand i).length := by
      have hparts := Text.beforePart_lt hget hlt
      simp only [beforeOperand, List.length_append]
      omega
    refine iff_of_false (by omega) fun hnone => hnone first ?_ hholds
    exact List.mem_of_getElem? ((List.getElem?_take_of_lt hlt).trans hget)
  · obtain rfl : operand = first := Option.some.inj (hoperand.symm.trans hget)
    exact iff_of_true (by omega) hfirst

/-! ## A whole source -/

theorem ofSource_isAscii {name source : Text} (h : ∀ b ∈ source, b < 0x80) {k : Nat} {s : Statement}
    (hs : (Assembly.ofSource (.initial name) source).statements[k]? = some s) : s.IsAscii := by
  rw [ofSource_getElem?] at hs
  obtain ⟨line, hline, rfl⟩ := Option.map_eq_some_iff.1 hs
  have hmem := List.mem_of_getElem? hline
  obtain ⟨hparsed, -, hsource, -⟩ := layOutLine_reports (Text.sourceLines_notMem source line hmem)
    (contextAfter name source k) (1 + k)
  refine ⟨hparsed.parts, ?_⟩
  rw [hsource]
  intro b hb
  exact h b (List.mem_filter.1 ((Text.infix_splitOn hmem).subset hb)).1

/-- In a source of ASCII and a statement with the right number of operands, what encoding reports are reports on the
operands one by one. A report on an operand marks a text of that operand, and its column is one of those that the
operand fills exactly if no operand before it holds the marked text too. -/
theorem assemble_operand_columns (name source : Text) (hascii : ∀ b ∈ source, b < 0x80) (k : Nat) (s : Statement)
    (hs : (Assembly.ofSource (.initial name) source).statements[k]? = some s) (hcount : s.isCounted = true)
    (i : Nat) (operand : Text) (hoperand : s.operands[i]? = some operand) (hne : operand ≠ []) :
    let reports := s.operandErrors (Assembly.ofSource (.initial name) source).symbols
    (assemble name source).statements[k]?.map (·.errors) = some (s.errors ++ reports.flatten) ∧
    s.beforeOperand i ++ operand <+: s.source ∧
    ∀ errors, reports[i]? = some errors → ∀ e ∈ errors,
      s.marked e.position ≠ [] ∧ s.marked e.position <:+: operand ∧
      ((s.beforeOperand i).length < e.position.column ∧
          e.position.column ≤ (s.beforeOperand i).length + operand.length ↔
        ∀ earlier ∈ s.operands.take i, ¬ s.marked e.position <:+: earlier) := by
  intro reports
  have hline := ofSource_isAscii hascii hs
  refine ⟨?_, hline.beforeOperand_prefix hoperand, fun errors herrors e he => ?_⟩
  · unfold assemble
    rw [Assembly.generate_statements, List.getElem?_map, hs, Option.map_map, ← encode_errors hcount]
    rfl
  · obtain ⟨t, ht, hin, hposition⟩ := operandErrors_pointsInto hoperand hne herrors e he
    obtain ⟨hmarked, hcolumns⟩ := hline.column_iff ht hoperand hin
    rw [hposition, hmarked]
    exact ⟨ht, hin, hcolumns⟩

set_option maxRecDepth 4000 in
/-- The second term of a displacement is found behind the first operand. -/
theorem assemble_operand_columns_term : ∃ s : Statement,
    (Assembly.ofSource (.initial []) " lea R1,x+70000[R2]").statements[0]? = some s ∧ s.isCounted = true ∧
    s.operands[1]? = some (Text.ofString "x+70000[R2]") ∧ ∃ errors : List Diagnostic, ∃ e ∈ errors,
      (s.operandErrors (Assembly.ofSource (.initial []) " lea R1,x+70000[R2]").symbols)[1]? = some errors ∧
      e.cause = .invalidLiteral "70000" ∧ (s.beforeOperand 1).length < e.position.column ∧
      e.position.column ≤ (s.beforeOperand 1).length + (Text.ofString "x+70000[R2]").length := by
  have hrun : (Assembly.ofSource (.initial []) " lea R1,x+70000[R2]").statements[0]?.map (fun s =>
      (s.isCounted, s.operands, (s.operandErrors (Assembly.ofSource (.initial []) " lea R1,x+70000[R2]").symbols)[1]?,
        s.marked ⟨1, 11, 5⟩)) =
      some (true, [Text.ofString "R1", "x+70000[R2]"],
        some [⟨⟨1, 9, 1⟩, .undefinedSymbol "x"⟩, ⟨⟨1, 11, 5⟩, .invalidLiteral "70000"⟩], Text.ofString "70000") := by
    decide +kernel
  obtain ⟨s, hs, h⟩ := Option.map_eq_some_iff.1 hrun
  obtain ⟨hcount, hoperands, herrors, hmarked⟩ := by simpa only [Prod.mk.injEq] using h
  have hoperand : s.operands[1]? = some (Text.ofString "x+70000[R2]") := by rw [hoperands]; rfl
  obtain ⟨-, -, hcolumns⟩ := assemble_operand_columns [] _ (by decide) 0 s hs hcount 1 _ hoperand (by decide)
  refine ⟨s, hs, hcount, hoperand, _, _, List.mem_cons_of_mem _ List.mem_cons_self, herrors, rfl, ?_⟩
  refine (hcolumns _ herrors _ (List.mem_cons_of_mem _ List.mem_cons_self)).2.2.2 ?_
  rw [hmarked, hoperands]
  decide

/-- The third operand is wrong, and the report stands under the first. -/
theorem assemble_operand_column_astray : ∃ s : Statement,
    (Assembly.ofSource (.initial []) " add R1,R2,R").statements[0]? = some s ∧ s.isCounted = true ∧
    s.operands[2]? = some (Text.ofString "R") ∧
    (s.operandErrors (Assembly.ofSource (.initial []) " add R1,R2,R").symbols)[2]? =
      some [⟨⟨1, 6, 1⟩, .invalidOperand "register" "R"⟩] ∧ (s.beforeOperand 2).length = 11 := by
  have hrun : (Assembly.ofSource (.initial []) " add R1,R2,R").statements[0]?.map (fun s =>
      (s.isCounted, s.operands[2]?, (s.operandErrors (Assembly.ofSource (.initial []) " add R1,R2,R").symbols)[2]?,
        (s.beforeOperand 2).length)) =
      some (true, some (Text.ofString "R"), some [⟨⟨1, 6, 1⟩, .invalidOperand "register" "R"⟩], 11) := by
    decide +kernel
  obtain ⟨s, hs, h⟩ := Option.map_eq_some_iff.1 hrun
  obtain ⟨hcount, hoperand, herrors, hbefore⟩ := by simpa only [Prod.mk.injEq] using h
  exact ⟨s, hs, hcount, hoperand, herrors, hbefore⟩

end Sigma16
