/-
Shorthands and what they stand for. A shorthand is an instruction with some operands left out, and a line
with a shorthand can be written with the instruction and all of its operands instead, in any source and
whatever is wrong with it: the module has the same code and notes for the linker, the same symbols and as
many diagnostics.
-/
import Sigma16.Proofs.Decoding
import Sigma16.Proofs.Renumbering
import Sigma16.Proofs.Replacement
import Sigma16.Proofs.Rune

namespace Sigma16

open Outcome

/-! ## Expansions -/

/-- The instruction that a shorthand stands for, and the operands that come before and after those of the
shorthand. -/
structure Expansion where
  mnemonic : Text
  before : List Text := []
  after : List Text := []
  deriving DecidableEq, Repr

namespace Expansion

/-- A jump on one bit of the condition code. -/
def condition (mnemonic bit : String) : Expansion := { mnemonic, before := [Text.ofString bit] }

/-- An operation on bits, given by its truth table. -/
def logic (mnemonic function : String) : Expansion := { mnemonic, after := [Text.ofString function] }

def table : List (Text × Expansion) :=
  [ ⟨"jumplt", condition "jumpc1" "4"⟩,
    ⟨"jumple", condition "jumpc0" "0"⟩,
    ⟨"jumpne", condition "jumpc0" "2"⟩,
    ⟨"jumpeq", condition "jumpc1" "2"⟩,
    ⟨"jumpge", condition "jumpc0" "4"⟩,
    ⟨"jumpgt", condition "jumpc1" "0"⟩,
    ⟨"jumpv", condition "jumpc1" "5"⟩,
    ⟨"jumpco", condition "jumpc1" "6"⟩,
    ⟨"andw", logic "logicw" "1"⟩,
    ⟨"orw", logic "logicw" "7"⟩,
    ⟨"xorw", logic "logicw" "6"⟩,
    -- the function ignores its second argument
    ⟨"invw", { mnemonic := "logicw", after := ["R0", "12"] }⟩,
    ⟨"andb", logic "logicb" "1"⟩,
    ⟨"orb", logic "logicb" "7"⟩,
    ⟨"xorb", logic "logicb" "6"⟩ ]

/-- The expansion of a mnemonic. -/
def of? (mnemonic : Text) : Option Expansion := table.lookup mnemonic

/-- The operands of the instruction, from those of the shorthand. -/
def operands (x : Expansion) (texts : List Text) : List Text := x.before ++ (texts ++ x.after)

end Expansion

/-- The line with the instruction for the shorthand. Label and comment stay, and so do the gaps, except that
operands never follow the mnemonic without one. -/
def Line.expanded (x : Expansion) (l : Line) : Line :=
  { l with
    mnemonic := x.mnemonic
    mnemonicGap := if l.mnemonicGap.isEmpty then " " else l.mnemonicGap
    operands := Text.join "," (x.operands (Text.splitOperands l.operands)) }

/-! ## Operands that are the same everywhere -/

/-- The fields that an operand fills in any statement under any bindings: a register, or a number that
fits. -/
def fixedPart? : Slot → Text → Option Placement
  | .register field, text => (register? text).map fun n => [(field, n)]
  | .value field, text =>
    (numeral? text).bind fun w => if field.isWhole = false ∧ w ≤ field.limit then some [(field, w)] else none
  | _, _ => none

def fixedParts? : List Slot → List Text → Option Placement
  | [], [] => some []
  | slot :: slots, text :: texts =>
    (fixedPart? slot text).bind fun part => (fixedParts? slots texts).map fun parts => part ++ parts
  | _, _ => none

theorem placeOperand_fixed {slot : Slot} {text : Text} {part : Placement} (h : fixedPart? slot text = some part)
    (symbols : SymbolTable) (s : Statement) : placeOperand symbols s slot text = pure part := by
  cases slot with
  | register field =>
    obtain ⟨n, hn, rfl⟩ := Option.map_eq_some_iff.1 h
    simp only [placeOperand, register, hn, pure_bind_eq]
  | value field =>
    obtain ⟨w, hw, h⟩ := Option.bind_eq_some_iff.1 h
    split at h
    · rename_i hfits
      cases h
      simp only [placeOperand, fieldValue, hfits.1, Bool.false_eq_true, if_false, constant_numeral hw hfits.2,
        pure_bind_eq]
    · cases h
  | control field => cases h
  | indexed index field => cases h

theorem placeOperands_fixed : ∀ {slots : List Slot} {texts : List Text} {parts : Placement},
    fixedParts? slots texts = some parts → ∀ (symbols : SymbolTable) (s : Statement),
      slots.length = texts.length ∧ placeOperands symbols s slots texts = pure parts
  | [], [], _, h, _, _ => by
    cases h
    exact ⟨rfl, rfl⟩
  | [], _ :: _, _, h, _, _ => by cases h
  | _ :: _, [], _, h, _, _ => by cases h
  | slot :: slots, text :: texts, _, h, symbols, s => by
    obtain ⟨part, hpart, h⟩ := Option.bind_eq_some_iff.1 h
    obtain ⟨parts, hparts, rfl⟩ := Option.map_eq_some_iff.1 h
    obtain ⟨hlength, hplace⟩ := placeOperands_fixed hparts symbols s
    refine ⟨congrArg (· + 1) hlength, ?_⟩
    rw [placeOperands, placeOperand_fixed hpart, pure_bind_eq, hplace, pure_bind_eq]

theorem placeOperands_append (symbols : SymbolTable) (s : Statement) (slots' : List Slot) (texts' : List Text) :
    ∀ {slots : List Slot} {texts : List Text}, slots.length = texts.length →
      placeOperands symbols s (slots ++ slots') (texts ++ texts') = (do
        let parts ← placeOperands symbols s slots texts
        let parts' ← placeOperands symbols s slots' texts'
        return parts ++ parts')
  | [], [], _ => by
    refine Outcome.ext rfl ?_
    simp [placeOperands]
  | [], _ :: _, h => by cases h
  | _ :: _, [], h => by cases h
  | slot :: slots, text :: texts, h => by
    simp only [List.cons_append, placeOperands, placeOperands_append symbols s slots' texts' (Nat.succ.inj h)]
    refine Outcome.ext ?_ ?_
    · simp only [bind_result, pure_result, List.append_assoc]
    · simp only [bind_effects, pure_effects, bind_result, Effects.append_empty, Effects.append_assoc]

/-- Operands between operands that are the same everywhere. -/
theorem placeOperands_between {before after slots : List Slot} {texts texts₁ texts₂ : List Text}
    {first last : Placement} (hfirst : fixedParts? before texts₁ = some first)
    (hlast : fixedParts? after texts₂ = some last) (hlength : slots.length = texts.length) (symbols : SymbolTable)
    (s : Statement) : placeOperands symbols s (before ++ (slots ++ after)) (texts₁ ++ (texts ++ texts₂)) =
      (placeOperands symbols s slots texts >>= fun parts => return first ++ (parts ++ last)) := by
  obtain ⟨hbefore, hfirst⟩ := placeOperands_fixed hfirst symbols s
  obtain ⟨-, hlast⟩ := placeOperands_fixed hlast symbols s
  rw [placeOperands_append _ _ _ _ hbefore, placeOperands_append _ _ _ _ hlength, hfirst, hlast, pure_bind_eq]
  refine Outcome.ext rfl ?_
  simp only [bind_effects, pure_effects, Effects.append_empty]

/-! ## Expansions against the tables -/

/-- The shape of an operation that has words. -/
def Operation.shape? (op : Operation) : Option Shape :=
  match op.encoding? with
  | some (.words shape) => some shape
  | _ => none

theorem Operation.encoding?_of_shape? {op : Operation} {shape : Shape} (h : op.shape? = some shape) :
    op.encoding? = some (.words shape) := by
  unfold shape? at h
  split at h
  · rename_i he
    rw [he, Option.some.inj h]
  · cases h

/-- An expansion that fits the tables of operations and shapes. `p` and `q` are the shapes of shorthand and
instruction; `first` and `last` are the fields that the further operands fill. -/
def Expansion.Fits (x : Expansion) (op base : Operation) (p q : Shape) (first last : Placement) : Prop :=
  base.pseudo = false ∧ base.format = op.format ∧ op.directive? = none ∧
  q.slots = q.slots.take x.before.length ++ (p.slots ++ q.slots.drop (x.before.length + p.slots.length)) ∧
  q.size = p.size ∧
  -- without the operands that both have, shorthand and instruction have the same words
  Word.packAll p.size (q.opcode.zip base.opcode ++ (first ++ last)) = Word.packAll p.size (p.opcode.zip op.opcode)

instance (x : Expansion) (op base : Operation) (p q : Shape) (first last : Placement) :
    Decidable (x.Fits op base p q first last) := inferInstanceAs (Decidable (_ ∧ _))

/-- The expansion of a shorthand, with all that is needed to compare the two. -/
structure Operation.Expands (op : Operation) (x : Expansion) (base : Operation) : Prop where
  of? : Expansion.of? op.mnemonic = some x
  lookup : Operation.lookup x.mnemonic = some base
  shapes : ∃ p q first last, op.encoding? = some (.words p) ∧ base.encoding? = some (.words q) ∧
    fixedParts? (q.slots.take x.before.length) x.before = some first ∧
    fixedParts? (q.slots.drop (x.before.length + p.slots.length)) x.after = some last ∧
    x.Fits op base p q first last

set_option maxRecDepth 4000 in
/-- Every shorthand has an expansion. -/
theorem Operation.exists_expands {op : Operation} (hop : op ∈ table) (hp : op.pseudo = true) :
    ∃ x base, op.Expands x base := by
  have table_expands : ∀ op ∈ table, op.pseudo = true →
      (Expansion.of? op.mnemonic).any (fun x => (lookup x.mnemonic).any fun base => op.shape?.any fun p =>
        base.shape?.any fun q => (fixedParts? (q.slots.take x.before.length) x.before).any fun first =>
          (fixedParts? (q.slots.drop (x.before.length + p.slots.length)) x.after).any fun last =>
            decide (x.Fits op base p q first last)) = true := by decide +kernel
  obtain ⟨x, hx, h⟩ := (Option.any_eq_true _ _).1 (table_expands op hop hp)
  obtain ⟨base, hbase, h⟩ := (Option.any_eq_true _ _).1 h
  obtain ⟨p, hshape, h⟩ := (Option.any_eq_true _ _).1 h
  obtain ⟨q, hbaseShape, h⟩ := (Option.any_eq_true _ _).1 h
  obtain ⟨first, hfirst, h⟩ := (Option.any_eq_true _ _).1 h
  obtain ⟨last, hlast, h⟩ := (Option.any_eq_true _ _).1 h
  exact ⟨x, base, hx, hbase, p, q, first, last, encoding?_of_shape? hshape, encoding?_of_shape? hbaseShape, hfirst,
    hlast, of_decide_eq_true h⟩

/-! ## Code -/

/-- Outcomes that agree in all but the wording and the places of diagnostics. -/
structure Outcome.Matches {α : Type} (o o' : Outcome α) : Prop where
  result : o'.result = o.result
  uses : o'.effects.uses = o.effects.uses
  relocations : o'.effects.relocations = o.effects.relocations
  imports : o'.effects.imports = o.effects.imports
  exports : o'.effects.exports = o.effects.exports
  errorCount : o'.effects.errors.length = o.effects.errors.length

theorem SymbolTable.renumbered_id (t : SymbolTable) : t.renumbered id = t := by
  have h : t.bindings.map (·.renumbered id) = t.bindings := by
    rw [show (Binding.renumbered id) = id by funext b; simp [Binding.renumbered], List.map_id]
  unfold renumbered
  rw [h]

/-- Operands fill the same fields and leave the same notes at every place of a line. -/
theorem placeOperands_matches (symbols : SymbolTable) {s s' : Statement} (h : s'.address = s.address)
    (slots : List Slot) (texts : List Text) :
    (placeOperands symbols s slots texts).Matches (placeOperands symbols s' slots texts) := by
  have halike := placeOperands_alike (f := id) symbols h slots texts
  rw [symbols.renumbered_id] at halike
  refine ⟨halike.result, halike.effects.uses, halike.effects.relocations, halike.effects.imports,
    halike.effects.exports, ?_⟩
  simpa using congrArg List.length halike.effects.errors

theorem Outcome.Matches.map {α β : Type} {o o' : Outcome α} (h : o.Matches o') {f g : α → β}
    (hfg : g o.result = f o.result) : (o >>= fun a => return f a).Matches (o' >>= fun a => return g a) := by
  refine ⟨?_, ?_, ?_, ?_, ?_, ?_⟩
  · simp only [bind_result, pure_result, h.result, hfg]
  · simp only [bind_effects, pure_effects, Effects.append_empty, h.uses]
  · simp only [bind_effects, pure_effects, Effects.append_empty, h.relocations]
  · simp only [bind_effects, pure_effects, Effects.append_empty, h.imports]
  · simp only [bind_effects, pure_effects, Effects.append_empty, h.exports]
  · simp only [bind_effects, pure_effects, Effects.append_empty, h.errorCount]

/-- The fields of the further operands make up for the longer opcode of the shorthand. -/
theorem Shape.words_between {p q : Shape} {opcode opcode' : List Word} {first last : Placement}
    (hsize : q.size = p.size)
    (hpack : Word.packAll p.size (q.opcode.zip opcode' ++ (first ++ last)) =
      Word.packAll p.size (p.opcode.zip opcode)) (parts : Placement) :
    q.words opcode' (first ++ (parts ++ last)) = p.words opcode parts := by
  unfold Shape.words
  rw [hsize]
  calc Word.packAll p.size (q.opcode.zip opcode' ++ (first ++ (parts ++ last)))
    _ = Word.packAll p.size (q.opcode.zip opcode' ++ first ++ (parts ++ last)) := by rw [List.append_assoc]
    _ = Word.packAll p.size (q.opcode.zip opcode' ++ first ++ (last ++ parts)) := Word.packAll_append_comm ..
    _ = Word.packAll p.size (q.opcode.zip opcode' ++ (first ++ last) ++ parts) := by simp only [List.append_assoc]
    _ = Word.packAll p.size (p.opcode.zip opcode ++ parts) := Word.packAll_append_congr hpack parts

/-- The instruction with all operands has the code of the shorthand, also where the number of operands is
wrong. -/
theorem Operation.Expands.encode {op base : Operation} {x : Expansion} (h : op.Expands x base) {s s' : Statement}
    (hop : s.operation = op) (hbase : s'.operation = base) (haddress : s'.address = s.address)
    (hsize : s'.size = s.size) (hoperands : s'.operands = x.operands s.operands) (symbols : SymbolTable) :
    (Sigma16.encode symbols s).Matches (Sigma16.encode symbols s') := by
  obtain ⟨p, q, first, last, hp, hq, hfirst, hlast, -, -, -, hslots, hwords, hpack⟩ := h.shapes
  have hbefore := (placeOperands_fixed hfirst symbols s).1
  have hafter := (placeOperands_fixed hlast symbols s).1
  have hcount : q.slots.length = x.before.length + (p.slots.length + x.after.length) := by
    rw [hslots, List.length_append, List.length_append, hbefore, hafter]
  have hcount' : s'.operands.length = x.before.length + (s.operands.length + x.after.length) := by
    rw [hoperands, Expansion.operands, List.length_append, List.length_append]
  simp only [Sigma16.encode, hop, hbase, hp, hq, encodeWords]
  by_cases hnumber : s.operands.length = p.slots.length
  · rw [if_pos hnumber, if_pos (by omega), hslots, hoperands, Expansion.operands,
      placeOperands_between hfirst hlast hnumber.symm, bind_assoc_eq]
    simp only [pure_bind_eq]
    exact (placeOperands_matches symbols haddress _ _).map (Shape.words_between hwords hpack _)
  · rw [if_neg hnumber, if_neg (by omega)]
    refine ⟨?_, rfl, rfl, rfl, rfl, rfl⟩
    simp only [report_result, zeroWords, hsize]

/-! ## The bytes of an expanded line -/

theorem Text.all_join {p : UInt8 → Bool} {sep : Text} (hsep : sep.all p = true) :
    ∀ parts : List Text, (join sep parts).all p = parts.all (List.all · p)
  | [] => rfl
  | [only] => by simp [join]
  | first :: second :: parts => by
    have ih : (sep.intercalate (second :: parts)).all p = _ := all_join hsep (second :: parts)
    unfold join
    rw [List.intercalate_cons_cons, List.all_append, List.all_append, hsep, Bool.and_true, ih]
    rfl

/-- An expansion is written with letters and digits. -/
structure Expansion.Plain (mnemonic : Text) (x : Expansion) : Prop where
  shorthand : mnemonic.all Text.isNameByte = true
  mnemonic : x.mnemonic ≠ [] ∧ x.mnemonic.all Text.isNameByte = true
  operands : (∃ part ∈ x.before ++ x.after, part ≠ []) ∧ (x.before ++ x.after).all (List.all · Text.isNameByte) = true

theorem Expansion.plain_of_of? {mnemonic : Text} {x : Expansion} (h : of? mnemonic = some x) : Plain mnemonic x := by
  have table_plain : ∀ e ∈ table, e.1.all Text.isNameByte = true ∧
      (e.2.mnemonic ≠ [] ∧ e.2.mnemonic.all Text.isNameByte = true) ∧
      ((∃ part ∈ e.2.before ++ e.2.after, part ≠ []) ∧
        (e.2.before ++ e.2.after).all (List.all · Text.isNameByte) = true) := by decide +kernel
  obtain ⟨pre, post, htable, -⟩ := List.lookup_eq_some_iff.1 h
  obtain ⟨hshorthand, hmnemonic, hoperands⟩ := table_plain (mnemonic, x) (by simp [htable])
  exact ⟨hshorthand, hmnemonic, hoperands⟩

theorem Text.isWordByte_of_isNameByte : ∀ b : UInt8, isNameByte b = true → isWordByte b = true :=
  forall_byte (by decide +kernel)

theorem Text.isSourceByte_of_isNameByte : ∀ b : UInt8, isNameByte b = true → isSourceByte b = true :=
  forall_byte (by decide +kernel)

theorem Text.isLineByte_of_isNameByte : ∀ b : UInt8, isNameByte b = true → isLineByte b = true :=
  forall_byte (by decide +kernel)

theorem Text.all_mono {p q : UInt8 → Bool} (h : ∀ b, p b = true → q b = true) {t : Text} (ht : t.all p = true) :
    t.all q = true := by
  rw [List.all_eq_true] at ht ⊢
  exact fun b hb => h b (ht b hb)

namespace Line

variable {x : Expansion} {l : Line} {p : UInt8 → Bool}

/-- The operands of the expanded line are read back. -/
theorem splitOperands_expanded (hx : Expansion.Plain l.mnemonic x) :
    (l.expanded x).operands ≠ [] ∧
    Text.splitOperands (l.expanded x).operands = x.operands (Text.splitOperands l.operands) := by
  obtain ⟨⟨part, hpart, hne⟩, hnames⟩ := hx.operands
  have hmem : ∀ text ∈ x.before ++ x.after, text ∈ x.operands (Text.splitOperands l.operands) := by
    intro text ht
    unfold Expansion.operands
    grind
  have hjoin : (l.expanded x).operands ≠ [] := by
    intro hnil
    have hin : part <:+: (l.expanded x).operands := Text.infix_join (hmem part hpart)
    rw [hnil, List.infix_nil] at hin
    exact hne hin
  refine ⟨hjoin, Text.splitOperands_join (fun text ht => ?_) hjoin⟩
  have hcases : text ∈ x.before ++ x.after ∨ text ∈ Text.splitOperands l.operands := by
    unfold Expansion.operands at ht
    grind
  rcases hcases with ht | ht
  · intro hcomma
    have hname := List.all_eq_true.1 (List.all_eq_true.1 hnames text ht) _ hcomma
    exact absurd hname (by decide)
  · exact Text.splitOperands_notMem ht

/-- Expanding a line adds no byte to the operands that is not a letter, a digit or a comma. -/
theorem all_operands_expanded (hx : Expansion.Plain l.mnemonic x) (hname : ∀ b, Text.isNameByte b = true → p b = true)
    (hcomma : p ','.toUInt8 = true) : (l.expanded x).operands.all p = l.operands.all p := by
  have hsep : (Text.ofString ",").all p = true := by
    show (p ','.toUInt8 && true) = true
    rw [hcomma]
    rfl
  have hnames := hx.operands.2
  rw [List.all_append, Bool.and_eq_true] at hnames
  have hall : ∀ {texts : List Text}, texts.all (List.all · Text.isNameByte) = true →
      texts.all (List.all · p) = true := by
    intro texts h
    rw [List.all_eq_true] at h ⊢
    exact fun text ht => Text.all_mono hname (h text ht)
  have hold : (Text.splitOperands l.operands).all (List.all · p) = l.operands.all p := by
    rw [← Text.all_join hsep, Text.join_splitOperands]
  show (Text.join "," (x.operands (Text.splitOperands l.operands))).all p = _
  rw [Text.all_join hsep, Expansion.operands, List.all_append, List.all_append, hall hnames.1, hall hnames.2, hold,
    Bool.true_and, Bool.and_true]

theorem all_text_expanded (hx : Expansion.Plain l.mnemonic x) (hname : ∀ b, Text.isNameByte b = true → p b = true)
    (hcomma : p ','.toUInt8 = true) (hblank : p ' '.toUInt8 = true) : (l.expanded x).text.all p = l.text.all p := by
  have hgap : (l.expanded x).mnemonicGap.all p = l.mnemonicGap.all p := by
    show (if l.mnemonicGap.isEmpty then (Text.ofString " ") else l.mnemonicGap).all p = _
    split
    · rename_i hempty
      rw [List.isEmpty_iff.1 hempty]
      show (p ' '.toUInt8 && true) = true
      rw [hblank]
      rfl
    · rfl
  unfold text
  simp only [List.all_append, all_operands_expanded hx hname hcomma, hgap]
  rw [show (l.expanded x).mnemonic = x.mnemonic from rfl, Text.all_mono hname hx.mnemonic.2,
    Text.all_mono hname hx.shorthand]
  rfl

/-- The parts of the expanded line are those that it is split into. -/
theorem expanded_maximal (hx : Expansion.Plain l.mnemonic x) (hl : l.Maximal) (hm : l.mnemonic ≠ []) :
    (l.expanded x).Maximal := by
  have hoperands : (l.expanded x).operands.all Text.isWordByte = true := by
    rw [all_operands_expanded hx Text.isWordByte_of_isNameByte (by decide), List.all_eq_true]
    exact hl.operands
  refine hl.replace hm ?_ ?_ ?_
  · exact ⟨hx.mnemonic.1, List.all_eq_true.1 (Text.all_mono Text.isWordByte_of_isNameByte hx.mnemonic.2)⟩
  · split
    · refine ⟨by decide, fun b hb => ?_⟩
      rw [List.mem_singleton.1 hb]
      decide
    · rename_i hgap
      exact ⟨by simpa using hgap, hl.mnemonicGap⟩
  · exact ⟨(splitOperands_expanded hx).1, List.all_eq_true.1 hoperands⟩

end Line

/-! ## The statement of an expanded line -/

/-- One report and two pieces of advice on all wrong characters of a line together. -/
theorem Statement.length_characterErrors (s : Statement) :
    s.characterErrors.length = if s.source.all Text.isSourceByte then 0 else 3 := by
  have hnil := Text.invalidColumns_eq_nil s.source
  rw [← List.all_eq_true] at hnil
  unfold characterErrors
  cases hc : Text.invalidColumns s.source with
  | nil => rw [if_pos (hnil.1 hc)]; rfl
  | cons column columns =>
    rw [if_neg (fun h => by rw [hnil.2 h] at hc; cases hc)]
    rfl

section Statement

variable {source : Text} {op : Operation} (hn : '\n'.toUInt8 ∉ source)
  (hop : Operation.lookup (Line.split source).mnemonic = some op)

include hn hop

/-- The statement of a line with a known mnemonic, before its label is bound. -/
theorem Statement.checked_of_lookup (number : Int) (address : Value) :
    checked number address source =
      let s : Statement := { line := number, address, source, parts := Line.split source }
      { s with operation := op, size := op.format.size, errors := s.characterErrors ++ s.labelErrors } := by
  have hm : (Line.split source).mnemonic.isEmpty = false := by
    cases hm : (Line.split source).mnemonic with
    | nil =>
      have hnone : Operation.lookup [] = none := by decide
      rw [hm, hnone] at hop
      cases hop
    | cons b rest => rfl
  unfold checked read
  rw [Line.ofText?_eq_some hn]
  simp only [withOperation, note_parts, hm, hop, Bool.false_eq_true, if_false]
  rfl

/-- A line with an instruction binds its label to its address and moves on by the words of the
instruction. -/
theorem layOutLine_of_lookup (hd : op.directive? = none) {c : Context} (hc : c.WF) (number : Int) :
    layOutLine c number source =
      ({ (bindLabel c (.checked number c.counter source)).1 with
        counter := ⟨c.counter.word + op.format.size, .loc, c.counter.movability⟩ },
        (Statement.checked number c.counter source).note (bindLabel c (.checked number c.counter source)).2) := by
  have hchecked := Statement.checked_of_lookup hn hop number c.counter
  have hcounter := bindLabel_counter c (.checked number c.counter source)
  have hoperation : (Statement.checked number c.counter source).operation = op := by rw [hchecked]
  have hsize : (Statement.checked number c.counter source).size = op.format.size := by rw [hchecked]
  rw [layOutLine_eq]
  rcases advance_cases (bindLabel_wf hc _) ((Statement.checked number c.counter source).note
      (bindLabel c (.checked number c.counter source)).2) with ⟨hjump, -⟩ | ⟨-, hadvance⟩
  · rw [Statement.note_operation, hoperation, Operation.isJump, hd] at hjump
    cases hjump
  · rw [hadvance, hcounter, Statement.note_size, hsize]

end Statement

/-- A shorthand and its instruction are no directives, and fill as many words. -/
theorem Operation.Expands.instruction {op base : Operation} {x : Expansion} (h : op.Expands x base) :
    base.pseudo = false ∧ base.format = op.format ∧ op.directive? = none ∧ base.directive? = none := by
  obtain ⟨p, q, _, _, -, -, -, -, hpseudo, hformat, hd, -⟩ := h.shapes
  refine ⟨hpseudo, hformat, hd, ?_⟩
  unfold Operation.directive? at hd ⊢
  rw [hformat]
  split at hd
  · cases hd
  · rename_i hformat'
    rw [if_neg hformat']

/-- The label of an instruction is bound by what it is and where it stands, whatever the instruction. -/
theorem bindLabel_congr {s s' : Statement} (hline : s'.line = s.line) (hlabel : s'.parts.label = s.parts.label)
    (hd : s.operation.directive? = none) (hd' : s'.operation.directive? = none) (c : Context) :
    bindLabel c s' = bindLabel c s := by
  have hnew : newBinding c s' = newBinding c s := by
    unfold newBinding
    rw [hd, hd', hline, hlabel]
  rw [bindLabel_eq, bindLabel_eq]
  simp only [Statement.hasLabel, Statement.labelCursor, hnew, hline, hlabel, hd, hd']

/-- Statements that differ in shorthand and instruction contribute the same, whatever diagnostics they already
have in common. -/
theorem Operation.Expands.contribution {op base : Operation} {x : Expansion} (h : op.Expands x base)
    {s s' : Statement} (hop : s.operation = op) (hbase : s'.operation = base) (hline : s'.line = s.line)
    (haddress : s'.address = s.address) (hsize : s'.size = s.size) (hoperands : s'.operands = x.operands s.operands)
    (herrors : s'.errors.length = s.errors.length) (es : List Diagnostic) (c : Context) :
    c.contribution (s'.note es) = c.contribution (s.note es) := by
  have hnoted : (s.note es).operation = op := hop
  have hnoted' : (s'.note es).operation = base := hbase
  have hcode := h.encode hnoted hnoted' haddress hsize hoperands c.symbols
  have horigin : newOrigin? c.counter (s'.note es) = newOrigin? c.counter (s.note es) := by
    obtain ⟨p, q, _, _, hp, hq, -⟩ := h.shapes
    simp only [newOrigin?, Statement.note_operation, hop, hbase, hp, hq]
    rfl
  simp only [Context.contribution, Statement.note_line, Statement.note_address, Statement.note_errors,
    List.length_append, hline, haddress, horigin, hcode.result, hcode.uses, hcode.relocations, hcode.imports,
    hcode.exports, hcode.errorCount, herrors]

section Expanded

variable {source : Text} (hbytes : ∀ b ∈ source, Text.isLineByte b = true) {op base : Operation} {x : Expansion}
  (hop : Operation.lookup (Line.split source).mnemonic = some op) (hx : op.Expands x base)

include hop hx

theorem Operation.Expands.plain : Expansion.Plain (Line.split source).mnemonic x := by
  have hfound := List.find?_some hop
  have hmnemonic : op.mnemonic = (Line.split source).mnemonic := eq_of_beq hfound
  exact Expansion.plain_of_of? (hmnemonic ▸ hx.of?)

/-- The line with the instruction falls apart into the parts that it was made of. -/
theorem Operation.Expands.split :
    Line.split ((Line.split source).expanded x).text = (Line.split source).expanded x := by
  refine (Line.expanded_maximal (hx.plain hop) (Line.split_maximal source) ?_).split
  intro hnil
  have hnone : Operation.lookup [] = none := by decide
  rw [hnil, hnone] at hop
  cases hop

theorem Operation.Expands.all_text {p : UInt8 → Bool} (hname : ∀ b, Text.isNameByte b = true → p b = true)
    (hcomma : p ','.toUInt8 = true) (hblank : p ' '.toUInt8 = true) :
    ((Line.split source).expanded x).text.all p = source.all p := by
  rw [Line.all_text_expanded (hx.plain hop) hname hcomma hblank, Line.split_text]

include hbytes

theorem Operation.Expands.isLineByte : ∀ b ∈ ((Line.split source).expanded x).text, Text.isLineByte b = true := by
  rw [← List.all_eq_true, hx.all_text hop Text.isLineByte_of_isNameByte (by decide) (by decide), List.all_eq_true]
  exact hbytes

/-- The line with the instruction leaves the context of the line with the shorthand and contributes the
same. -/
theorem layOutLine_expanded {c : Context} (hc : c.WF) (number : Int) :
    (layOutLine c number ((Line.split source).expanded x).text).1 = (layOutLine c number source).1 ∧
    (layOutLine c number ((Line.split source).expanded x).text).2.parts = (Line.split source).expanded x ∧
    (layOutLine c number ((Line.split source).expanded x).text).2.operation = base ∧
    ∀ c' : Context, c'.contribution (layOutLine c number ((Line.split source).expanded x).text).2 =
      c'.contribution (layOutLine c number source).2 := by
  obtain ⟨-, hformat, hd, hd'⟩ := hx.instruction
  have hsplit := hx.split hop
  have hn := Text.notMem_of_isLineByte hbytes
  have hn' := Text.notMem_of_isLineByte (hx.isLineByte hbytes hop)
  have hbase : Operation.lookup (Line.split ((Line.split source).expanded x).text).mnemonic = some base := by
    rw [hsplit]
    exact hx.lookup
  have hchecked := Statement.checked_of_lookup hn hop number c.counter
  have hchecked' := Statement.checked_of_lookup hn' hbase number c.counter
  rw [layOutLine_of_lookup hn hop hd hc, layOutLine_of_lookup hn' hbase hd' hc]
  rw [hsplit] at hchecked'
  have hlabel : bindLabel c (.checked number c.counter ((Line.split source).expanded x).text) =
      bindLabel c (.checked number c.counter source) := by
    refine bindLabel_congr ?_ ?_ ?_ ?_ c
    · rw [hchecked, hchecked']
    · rw [hchecked, hchecked']
      rfl
    · rw [hchecked]
      exact hd
    · rw [hchecked']
      exact hd'
  rw [hlabel, hformat]
  refine ⟨rfl, by rw [hchecked']; rfl, by rw [hchecked']; rfl, fun c' => ?_⟩
  have hoperands : (Statement.checked number c.counter ((Line.split source).expanded x).text).operands =
      x.operands (Statement.checked number c.counter source).operands := by
    rw [hchecked, hchecked']
    exact (Line.splitOperands_expanded (hx.plain hop)).2
  -- the reports on wrong characters and on the label are as many as before, wherever they point to
  have hcount : (Statement.checked number c.counter ((Line.split source).expanded x).text).errors.length =
      (Statement.checked number c.counter source).errors.length := by
    rw [hchecked, hchecked']
    simp only [List.length_append, Statement.length_characterErrors,
      hx.all_text hop Text.isSourceByte_of_isNameByte (by decide) (by decide)]
    rfl
  refine hx.contribution ?_ ?_ ?_ ?_ ?_ hoperands hcount _ c'
  · rw [hchecked]
  · rw [hchecked']
  · rw [hchecked, hchecked']
  · rw [hchecked, hchecked']
  · rw [hchecked, hchecked']
    exact congrArg InstructionFormat.size hformat

end Expanded

/-! ## Any source -/

namespace Assembly

/-- A shorthand equals its expansion. In any source, a line with a shorthand and any operands can be written
with the instruction instead: the other lines stay, the statement of the line has the same label, comment
and address and the operands of the shorthand between those of the expansion, and the module has the same
object text, memory, relocations, address map, symbols with their uses and number of errors. -/
theorem assemble_expanded (name source : Text) (n : Nat) (s : Statement)
    (hs : (assemble name source).statements[n]? = some s) (hp : s.operation.pseudo = true) :
    ∃ x, Expansion.of? s.parts.mnemonic = some x ∧
      Text.sourceLines (source.withLine n (s.parts.expanded x).text) =
        (Text.sourceLines source).set n (s.parts.expanded x).text ∧
      (∃ t, (assemble name (source.withLine n (s.parts.expanded x).text)).statements[n]? = some t ∧
        t.parts = s.parts.expanded x ∧ Operation.lookup x.mnemonic = some t.operation ∧
        t.operation.pseudo = false ∧ t.operands = x.before ++ (s.operands ++ x.after) ∧
        t.line = s.line ∧ t.address = s.address) ∧
      (assemble name source).SameOutput (assemble name (source.withLine n (s.parts.expanded x).text)) := by
  obtain ⟨line, hline, u, code, errors, hu, rfl⟩ := assemble_getElem? hs
  have hbytes := Text.sourceLines_bytes source line (List.mem_of_getElem? hline)
  have hn := Text.sourceLines_notMem source line (List.mem_of_getElem? hline)
  have hc := contextAfter_wf name source n
  have hspec := (layOutLine_spec hc (1 + n) line).placed
  have hparts : u.parts = Line.split line := by rw [← hu]; exact layOutLine_parts _ _ hn
  have hop : Operation.lookup (Line.split line).mnemonic = some u.operation := by
    rcases layOutLine_named (contextAfter name source n) (1 + n) line with hempty | hnamed
    · rw [hu] at hempty
      rw [show u.operation = .empty from hempty] at hp
      cases hp
    · rwa [hu, hparts] at hnamed
  obtain ⟨x, base, hx⟩ := Operation.exists_expands (List.mem_of_find?_eq_some hop) hp
  have hof : Expansion.of? (Line.split line).mnemonic = some x := by
    have hfound := List.find?_some hop
    rw [← eq_of_beq hfound]
    exact hx.of?
  have hnew := hx.isLineByte hbytes hop
  obtain ⟨hcontext, hsplit, hoperation, hcontribution⟩ := layOutLine_expanded hbytes hop hx hc (1 + n)
  have hspec' := (layOutLine_spec hc (1 + n) ((Line.split line).expanded x).text).placed
  obtain ⟨code', errors', hget⟩ := assemble_withLine_getElem? hline hnew hcontext
  obtain ⟨hpseudo, -⟩ := hx.instruction
  have hsame := assemble_withLine hline hnew hcontext hcontribution
  rw [hu] at hspec
  generalize (layOutLine (contextAfter name source n) (1 + n) ((Line.split line).expanded x).text).2 = u'
    at hsplit hoperation hspec' hget
  simp only [hparts]
  refine ⟨x, hof, Text.sourceLines_withLine source n hnew, ⟨_, hget, hsplit, ?_, ?_, ?_, ?_, ?_⟩, hsame⟩
  · rw [hoperation]
    exact hx.lookup
  · rw [hoperation]
    exact hpseudo
  · unfold Statement.operands
    simp only [hsplit]
    exact (Line.splitOperands_expanded (hx.plain hop)).2
  · exact hspec'.line.trans hspec.line.symm
  · exact hspec'.address.trans hspec.address.symm

set_option maxRecDepth 4000 in
/-- A conditional jump to an imported address, with a label and with a comment right behind it. -/
theorem assemble_expanded_imported : ∃ s : Statement,
    (assemble [] "x import m,y\nl jumplt x[R0];c").statements[1]? = some s ∧ s.operation.pseudo = true ∧
    (assemble [] "x import m,y\nl jumplt x[R0];c").SameOutput (assemble [] "x import m,y\nl jumpc1 4,x[R0];c") := by
  have hrun : (assemble [] "x import m,y\nl jumplt x[R0];c").statements[1]?.map (fun s =>
      (s.operation.pseudo, s.parts)) = some (true, Line.split "l jumplt x[R0];c") := by decide +kernel
  obtain ⟨s, hs, h⟩ := Option.map_eq_some_iff.1 hrun
  obtain ⟨hp, hparts⟩ := Prod.mk.inj h
  obtain ⟨x, hx, -, -, hsame⟩ := assemble_expanded [] _ 1 s hs hp
  rw [hparts] at hx hsame
  have hof : Expansion.of? (Line.split "l jumplt x[R0];c").mnemonic = some (.condition "jumpc1" "4") := by
    decide +kernel
  rw [hof] at hx
  cases hx
  have hsource : Text.withLine "x import m,y\nl jumplt x[R0];c" 1
      ((Line.split "l jumplt x[R0];c").expanded (.condition "jumpc1" "4")).text =
        Text.ofString "x import m,y\nl jumpc1 4,x[R0];c" := by decide +kernel
  rw [hsource] at hsame
  exact ⟨s, hs, hp, hsame⟩

end Assembly

end Sigma16
