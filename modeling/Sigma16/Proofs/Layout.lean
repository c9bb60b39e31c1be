/-
What one line does to the context, and what a whole source does: the location counter stays in the
module, the symbol table stays well formed, the counter after a statement is where the next one
starts, and no report blames the assembler. Each fact is shown for one line and lifted to all lines
by `layOut_run` and `layOut_inPhase`.
-/
import Sigma16.Assembly
import Sigma16.Proofs.Evaluation
import Sigma16.Proofs.Operation

namespace Sigma16

open Outcome

/-! ## Lines of a source -/

namespace Text

theorem splitOn_notMem (x : UInt8) : ∀ (t : Text), ∀ part ∈ t.splitOn x, x ∉ part
  | [], part, h => by
    simp only [List.splitOn_nil, List.mem_singleton] at h
    rw [h]
    exact List.not_mem_nil
  | b :: t, part, h => by
    have ih := splitOn_notMem x t
    rw [List.splitOn_cons_eq_if_modifyHead] at h
    split at h
    · rcases List.mem_cons.1 h with rfl | h
      · exact List.not_mem_nil
      · exact ih part h
    · rename_i hb
      cases hs : t.splitOn x with
      | nil => rw [hs] at h; cases h
      | cons first rest =>
        rw [hs, List.modifyHead_cons] at h
        rw [hs] at ih
        rcases List.mem_cons.1 h with rfl | h
        · intro hx
          rcases List.mem_cons.1 hx with rfl | hx
          · exact hb (beq_self_eq_true _)
          · exact ih first List.mem_cons_self hx
        · exact ih part (List.mem_cons_of_mem _ h)

theorem sourceLines_notMem (t : Text) : ∀ line ∈ sourceLines t, '\n'.toUInt8 ∉ line :=
  splitOn_notMem _ _

end Text

/-- Every line without a newline has parts. -/
theorem Line.ofText?_eq_some {t : Text} (h : '\n'.toUInt8 ∉ t) : Line.ofText? t = some (Line.split t) := by
  have hc : '\n'.toUInt8 ∉ (Line.split t).comment := by
    intro hm
    have h1 := (List.dropWhile_sublist _).subset hm
    have h2 := (List.dropWhile_sublist _).subset h1
    have h3 := (List.dropWhile_sublist _).subset h2
    have h4 := (List.dropWhile_sublist _).subset h3
    exact h ((List.dropWhile_sublist _).subset h4)
  unfold Line.ofText?
  simp only
  rw [if_neg (by simpa using hc)]

/-! ## Reading a line -/

namespace Statement

@[simp] theorem note_line (s : Statement) (es : List Diagnostic) : (s.note es).line = s.line := rfl

@[simp] theorem note_address (s : Statement) (es : List Diagnostic) : (s.note es).address = s.address := rfl

@[simp] theorem note_parts (s : Statement) (es : List Diagnostic) : (s.note es).parts = s.parts := rfl

@[simp] theorem note_operation (s : Statement) (es : List Diagnostic) : (s.note es).operation = s.operation := rfl

@[simp] theorem note_size (s : Statement) (es : List Diagnostic) : (s.note es).size = s.size := rfl

@[simp] theorem note_orgAddress (s : Statement) (es : List Diagnostic) : (s.note es).orgAddress = s.orgAddress := rfl

@[simp] theorem note_code (s : Statement) (es : List Diagnostic) : (s.note es).code = s.code := rfl

@[simp] theorem note_errors (s : Statement) (es : List Diagnostic) : (s.note es).errors = s.errors ++ es := rfl

/-- The reports of a statement blame the source. -/
def Blameless (s : Statement) : Prop := ∀ e ∈ s.errors, e.BlamesSource

theorem Blameless.note {s : Statement} (h : s.Blameless) {es : List Diagnostic} (he : ∀ e ∈ es, e.BlamesSource) :
    (s.note es).Blameless := by
  intro e hm
  rcases List.mem_append.1 hm with hm | hm
  · exact h e hm
  · exact he e hm

/-- A statement of a line that is not encoded yet. -/
structure Placed (line : Int) (address : Value) (s : Statement) : Prop where
  line : s.line = line
  address : s.address = address
  known : s.operation.Known
  size : s.size = s.operation.format.size
  code : s.code = []

theorem Placed.note {line : Int} {address : Value} {s : Statement} (h : Placed line address s)
    (es : List Diagnostic) : Placed line address (s.note es) :=
  ⟨h.line, h.address, h.known, h.size, h.code⟩

theorem withOperation_placed {line : Int} {address : Value} {s : Statement} (h : Placed line address s) :
    Placed line address s.withOperation := by
  unfold withOperation
  split
  · exact h
  · split
    · rename_i op hop
      exact ⟨h.line, h.address, Operation.lookup_known hop, rfl, h.code⟩
    · exact h.note _

theorem withOperation_orgAddress (s : Statement) : s.withOperation.orgAddress = s.orgAddress := by
  unfold withOperation
  split
  · rfl
  · split <;> rfl

theorem withOperation_parts (s : Statement) : s.withOperation.parts = s.parts := by
  unfold withOperation
  split
  · rfl
  · split <;> rfl

theorem read_placed (line : Int) (address : Value) (source : Text) :
    Placed line address (read line address source) := by
  have blank : Placed line address { line, address, source } := ⟨rfl, rfl, Operation.empty_known, rfl, rfl⟩
  unfold read
  split
  · rename_i parts _
    have withParts : Placed line address { line, address, source, parts } :=
      ⟨rfl, rfl, Operation.empty_known, rfl, rfl⟩
    exact withOperation_placed (withParts.note _)
  · exact blank.note _

theorem characterErrors_blame (s : Statement) : ∀ e ∈ s.characterErrors, e.BlamesSource := by
  unfold characterErrors
  split
  · simp
  · intro e he
    rcases List.mem_cons.1 he with rfl | he
    · exact .of_kind rfl
    · obtain ⟨note, -, rfl⟩ := List.mem_map.1 he
      exact .of_kind rfl

theorem labelErrors_blame (s : Statement) : ∀ e ∈ s.labelErrors, e.BlamesSource := by
  unfold labelErrors
  split
  · simp
  · exact .single rfl

theorem withOperation_blameless {s : Statement} (h : s.Blameless) : s.withOperation.Blameless := by
  unfold withOperation
  split
  · exact h
  · split
    · exact h
    · exact h.note (.single rfl)

theorem read_parts (line : Int) (address : Value) {source : Text} (hn : '\n'.toUInt8 ∉ source) :
    (read line address source).parts = Line.split source := by
  unfold read
  rw [Line.ofText?_eq_some hn]
  exact withOperation_parts _

theorem read_blameless (line : Int) (address : Value) {source : Text} (hn : '\n'.toUInt8 ∉ source) :
    (read line address source).Blameless := by
  unfold read
  rw [Line.ofText?_eq_some hn]
  have empty : Blameless { line, address, source, parts := Line.split source } := by
    intro e he
    cases he
  exact withOperation_blameless (empty.note (labelErrors_blame _))

end Statement

/-! ## Labels -/

/-- The state of a layout: a location counter inside the module, and a well-formed table. -/
structure Context.WF (c : Context) : Prop where
  counter : c.counter.IsLocal
  symbols : c.symbols.WF

theorem Context.initial_wf (name : Text) : (Context.initial name).WF :=
  ⟨Value.relocatable_isLocal 0, SymbolTable.empty_wf⟩

/-- The table after a label is bound, or after an attempt that failed. -/
def SymbolTable.extend (t : SymbolTable) (line : Int) (o : Outcome (Option Binding)) : SymbolTable :=
  ⟨(t.useAll line o.effects.uses).bindings ++ o.result.toList⟩

theorem newBinding_name {c : Context} {s : Statement} {b : Binding} (h : (newBinding c s).result = some b) :
    b.name = s.parts.label := by
  unfold newBinding at h
  split at h
  · cases h; rfl
  · split at h
    · split at h
      · cases h
      · cases h; rfl
    · cases h
  · cases h; rfl

theorem newBinding_sound (c : Context) (s : Statement) : (newBinding c s).Sound := by
  unfold newBinding
  split
  · exact Sound.bind (evaluate_sound ..) (Sound.pure _)
  · split
    · split
      · exact Sound.report rfl _
      · exact Sound.pure _
    · exact Sound.report rfl _
  · exact Sound.pure _

/-- An alias of a placeholder carries the foreign symbol, and an alias of anything else none. -/
theorem alias_wf {c : Context} (hc : c.WF) {s : Statement} (hl : s.hasLabel = true) {uses : List Int} :
    Binding.WF {
      name := s.parts.label
      moduleName := (aliasTarget c.symbols (evaluate c.symbols s s.parts.operands).result s.parts.operands).1
      foreignName := (aliasTarget c.symbols (evaluate c.symbols s s.parts.operands).result s.parts.operands).2
      value := (evaluate c.symbols s s.parts.operands).result
      line := s.line
      uses } := by
  have hp := evaluate_proper hc.symbols s s.parts.operands
  unfold aliasTarget
  by_cases he : (evaluate c.symbols s s.parts.operands).result.isExternal = true
  · obtain ⟨b, hb, wf, hi⟩ := evaluate_imported hc.symbols he
    rw [if_pos he, hb]
    exact ⟨hl, hp, hi.trans he.symm, fun _ => wf.foreign hi⟩
  · rw [if_neg he]
    rw [Bool.not_eq_true] at he
    exact ⟨hl, hp, he.symm, fun h => by cases h⟩

theorem newBinding_wf {c : Context} (hc : c.WF) {s : Statement} (hl : s.hasLabel = true) {b : Binding}
    (h : (newBinding c s).result = some b) : b.WF := by
  unfold newBinding at h
  split at h
  · cases h
    exact alias_wf hc hl
  · split at h
    · rename_i moduleName foreignName _
      split at h
      · cases h
      · rename_i hf
        cases h
        simp only [List.find?_eq_none, List.mem_cons, List.not_mem_nil, or_false, Bool.not_eq_true', forall_eq_or_imp,
          Bool.not_eq_false, forall_eq] at hf
        refine ⟨hl, Value.external_proper, ?_, fun _ => hf⟩
        simp [Binding.isImported, Text.isName_ne_nil hf.1, Value.external, Value.isExternal]
    · cases h
  · cases h
    refine ⟨hl, hc.counter.proper, ?_, fun h => by cases h⟩
    rw [hc.counter.not_external]
    rfl

/-- Binding a label, in full: the name is free when it is bound, so a binding never fails. -/
theorem bindLabel_eq (c : Context) (s : Statement) : bindLabel c s =
    if s.hasLabel then
      if s.operation.directive? = some .moduleName then ({ c with moduleName := s.parts.label }, [])
      else
        match c.symbols.lookup s.parts.label with
        | some binding => (c, [⟨s.labelCursor, .redeclaredSymbol s.parts.label binding.line⟩])
        | none => ({ c with symbols := c.symbols.extend s.line (newBinding c s) }, (newBinding c s).effects.errors)
    else
      match s.operation.directive? with
      | some .moduleName | some .equ | some .importName =>
        (c, [⟨s.operationCursor, .missingLabel s.operation.mnemonic⟩])
      | _ => (c, []) := by
  unfold bindLabel
  by_cases hl : s.hasLabel = true
  · rw [if_pos hl, if_pos hl]
    by_cases hm : s.operation.directive? = some .moduleName
    · rw [if_pos hm, if_pos hm]
    rw [if_neg hm, if_neg hm]
    cases hb : c.symbols.lookup s.parts.label with
    | some binding => rfl
    | none =>
      simp only [SymbolTable.extend]
      cases hr : (newBinding c s).result with
      | none => simp
      | some b =>
        -- the name is not bound, and noting uses has not bound it
        have hfree : (c.symbols.useAll s.line (newBinding c s).effects.uses).lookup b.name = none := by
          rw [SymbolTable.lookup_useAll, newBinding_name hr, hb]
          rfl
        simp only [SymbolTable.define?_of_lookup hfree, Option.toList_some]
  · exact (if_neg hl).trans (if_neg hl).symm

theorem bindLabel_counter (c : Context) (s : Statement) : (bindLabel c s).1.counter = c.counter := by
  rw [bindLabel_eq]
  split
  · split
    · rfl
    · split <;> rfl
  · split <;> rfl

theorem bindLabel_wf {c : Context} (hc : c.WF) (s : Statement) : (bindLabel c s).1.WF := by
  refine ⟨by rw [bindLabel_counter]; exact hc.counter, ?_⟩
  rw [bindLabel_eq]
  split
  · rename_i hl
    split
    · exact hc.symbols
    · split
      · exact hc.symbols
      · refine (hc.symbols.useAll s.line _).append fun b hb => ?_
        exact newBinding_wf hc hl (Option.mem_toList.1 hb)
  · split <;> exact hc.symbols

theorem bindLabel_blame (c : Context) (s : Statement) : ∀ e ∈ (bindLabel c s).2, e.BlamesSource := by
  rw [bindLabel_eq]
  split
  · split
    · simp
    · split
      · exact .single rfl
      · exact (newBinding_sound c s).errors
  · split
    · exact .single rfl
    · exact .single rfl
    · exact .single rfl
    · simp

/-- The module keeps its name, or takes that of a label. -/
theorem bindLabel_moduleName (c : Context) (s : Statement) :
    (bindLabel c s).1.moduleName = c.moduleName ∨ Text.isName (bindLabel c s).1.moduleName = true := by
  rw [bindLabel_eq]
  split
  · rename_i hl
    split
    · exact Or.inr hl
    · split <;> exact Or.inl rfl
  · split <;> exact Or.inl rfl

/-! ## The location counter -/

/-- Where the statement after this one starts: where an `org` or a `block` leads, or past the words of
the statement. -/
def Statement.next (s : Statement) : Value :=
  if s.operation.isJump then s.orgAddress.getD s.address
  else ⟨s.address.word + s.size, .loc, s.address.movability⟩

theorem orgTarget_sound (c : Context) (s : Statement) : (orgTarget c s).Sound := by
  unfold orgTarget
  refine Sound.bind (evaluate_sound ..) ?_
  split
  · exact Sound.report rfl _
  · exact Sound.pure _

theorem orgTarget_isLocal {c : Context} (hc : c.WF) (s : Statement) : (orgTarget c s).result.IsLocal := by
  unfold orgTarget
  rw [bind_result]
  split
  · exact hc.counter
  · rename_i he
    exact (evaluate_proper hc.symbols s _).local_of_not_external (Bool.not_eq_true _ ▸ he)

theorem blockTarget_sound (c : Context) (s : Statement) : (blockTarget c s).Sound := by
  unfold blockTarget
  refine Sound.bind (evaluate_sound ..) ?_
  split
  · exact Sound.report rfl _
  · split
    · exact Sound.pure _
    · rename_i fault hf
      refine Sound.report ?_ _
      have := Value.add_ne_negative hf
      simp [Diagnostic.kind, Cause.kind, this]

theorem blockTarget_isLocal {c : Context} (hc : c.WF) (s : Statement) : (blockTarget c s).result.IsLocal := by
  unfold blockTarget
  rw [bind_result]
  split
  · exact hc.counter
  · split
    · rename_i next hn
      exact Value.add_isLocal hn
    · exact hc.counter

/-- Moving past a statement is a jump to an address of the module, or a step over its words. -/
theorem advance_cases {c : Context} (hc : c.WF) (s : Statement) :
    (s.operation.isJump = true ∧ ∃ target : Outcome Value,
      target.Sound ∧ target.result.IsLocal ∧ advance c s = jump c s target) ∨
    (s.operation.isJump = false ∧
      advance c s = ({ c with counter := ⟨c.counter.word + s.size, .loc, c.counter.movability⟩ }, s)) := by
  unfold advance
  split
  · rename_i hd
    exact Or.inl ⟨by simp [Operation.isJump, hd], _, orgTarget_sound c s, orgTarget_isLocal hc s, rfl⟩
  · rename_i hd
    exact Or.inl ⟨by simp [Operation.isJump, hd], _, blockTarget_sound c s, blockTarget_isLocal hc s, rfl⟩
  · rename_i h1 h2
    refine Or.inr ⟨?_, by rw [Value.add_const hc.counter]⟩
    simp only [Operation.isJump, Bool.or_eq_false_iff, beq_eq_false_iff_ne]
    exact ⟨h1, h2⟩

theorem isLocal_step {v : Value} (h : v.IsLocal) (n : Word) : Value.IsLocal ⟨v.word + n, .loc, v.movability⟩ :=
  Value.add_isLocal (Value.add_const h n)

theorem advance_wf {c : Context} (hc : c.WF) (s : Statement) : (advance c s).1.WF := by
  rcases advance_cases hc s with ⟨-, target, -, hl, h⟩ | ⟨-, h⟩ <;> rw [h]
  · exact ⟨hl, hc.symbols.useAll _ _⟩
  · exact ⟨isLocal_step hc.counter _, hc.symbols⟩

theorem advance_moduleName {c : Context} (hc : c.WF) (s : Statement) :
    (advance c s).1.moduleName = c.moduleName := by
  rcases advance_cases hc s with ⟨-, target, -, -, h⟩ | ⟨-, h⟩
  · rw [h]
    rfl
  · rw [h]

theorem advance_placed {c : Context} (hc : c.WF) {line : Int} {address : Value} {s : Statement}
    (h : s.Placed line address) : (advance c s).2.Placed line address := by
  rcases advance_cases hc s with ⟨-, target, -, -, he⟩ | ⟨-, he⟩ <;> rw [he]
  · exact ⟨h.line, h.address, h.known, h.size, h.code⟩
  · exact h

theorem advance_blameless {c : Context} (hc : c.WF) {s : Statement} (h : s.Blameless) :
    (advance c s).2.Blameless := by
  rcases advance_cases hc s with ⟨-, target, hs, -, he⟩ | ⟨-, he⟩ <;> rw [he]
  · exact h.note hs.errors
  · exact h

/-- The counter moves to where the next statement starts. -/
theorem advance_counter {c : Context} (hc : c.WF) {s : Statement} (h : s.address = c.counter) :
    (advance c s).1.counter = (advance c s).2.next := by
  rcases advance_cases hc s with ⟨hj, target, -, -, he⟩ | ⟨hj, he⟩ <;> rw [he]
  · have hj' : (jump c s target).2.operation.isJump = true := hj
    unfold Statement.next
    rw [if_pos hj']
    rfl
  · simp only [Statement.next, hj, h, Bool.false_eq_true, if_false]

/-- An `org` and a `block`, and no other statement, have an address to jump to. -/
theorem advance_orgAddress {c : Context} (hc : c.WF) {s : Statement} (h : s.orgAddress = none) :
    (advance c s).2.orgAddress.isSome = (advance c s).2.operation.isJump := by
  rcases advance_cases hc s with ⟨hj, target, -, -, he⟩ | ⟨hj, he⟩ <;> rw [he]
  · exact hj.symm
  · rw [h, hj]; rfl

/-! ## One line -/

/-- The statement of a line, with the reports on its characters, before its label is bound. -/
def Statement.checked (line : Int) (address : Value) (source : Text) : Statement :=
  { read line address source with
    errors := (read line address source).characterErrors ++ (read line address source).errors }

theorem Statement.checked_placed (line : Int) (address : Value) (source : Text) :
    (checked line address source).Placed line address := by
  have h := read_placed line address source
  exact ⟨h.line, h.address, h.known, h.size, h.code⟩

theorem Statement.checked_orgAddress (line : Int) (address : Value) (source : Text) :
    (checked line address source).orgAddress = none := by
  show (read line address source).orgAddress = none
  unfold read
  split
  · exact withOperation_orgAddress _
  · rfl

theorem Statement.checked_blameless (line : Int) (address : Value) {source : Text} (hn : '\n'.toUInt8 ∉ source) :
    (checked line address source).Blameless := by
  intro e he
  rcases List.mem_append.1 he with he | he
  · exact characterErrors_blame _ e he
  · exact read_blameless line address hn e he

theorem layOutLine_eq (c : Context) (line : Int) (source : Text) : layOutLine c line source =
    advance (bindLabel c (.checked line c.counter source)).1
      ((Statement.checked line c.counter source).note (bindLabel c (.checked line c.counter source)).2) := rfl

/-- What one line leaves behind. -/
structure LineSpec (c : Context) (line : Int) (c' : Context) (s : Statement) : Prop where
  wf : c'.WF
  placed : s.Placed line c.counter
  counter : c'.counter = s.next
  orgAddress : s.orgAddress.isSome = s.operation.isJump
  moduleName : c'.moduleName = c.moduleName ∨ Text.isName c'.moduleName = true

theorem layOutLine_spec {c : Context} (hc : c.WF) (line : Int) (source : Text) :
    LineSpec c line (layOutLine c line source).1 (layOutLine c line source).2 := by
  have hp := (Statement.checked_placed line c.counter source).note
    (bindLabel c (.checked line c.counter source)).2
  have hb := bindLabel_wf hc (.checked line c.counter source)
  have ha := hp.address.trans (bindLabel_counter c (.checked line c.counter source)).symm
  rw [layOutLine_eq]
  refine ⟨advance_wf hb _, advance_placed hb hp, advance_counter hb ha, advance_orgAddress hb ?_, ?_⟩
  · exact Statement.checked_orgAddress line c.counter source
  · rw [advance_moduleName hb]
    exact bindLabel_moduleName c _

theorem layOutLine_blameless {c : Context} (hc : c.WF) (line : Int) {source : Text} (hn : '\n'.toUInt8 ∉ source) :
    (layOutLine c line source).2.Blameless := by
  rw [layOutLine_eq]
  exact advance_blameless (bindLabel_wf hc _) ((Statement.checked_blameless line _ hn).note (bindLabel_blame c _))

/-! ## All lines -/

/-- What every line keeps of the context and gives to its statement holds after all lines, and of all
statements. -/
theorem layOut_run {I : Context → Prop} {P : Statement → Prop}
    (step : ∀ c line source, '\n'.toUInt8 ∉ source → I c →
      I (layOutLine c line source).1 ∧ P (layOutLine c line source).2) :
    ∀ (sources : List Text) (c : Context) (line : Int), (∀ source ∈ sources, '\n'.toUInt8 ∉ source) → I c →
      I (layOut c line sources).1 ∧ ∀ s ∈ (layOut c line sources).2, P s
  | [], c, line, _, hc => ⟨hc, fun s hs => by cases hs⟩
  | source :: sources, c, line, hn, hc => by
    obtain ⟨hI, hP⟩ := step c line source (hn source List.mem_cons_self) hc
    obtain ⟨hI', hP'⟩ := layOut_run step sources _ (line + 1)
      (fun t ht => hn t (List.mem_cons_of_mem _ ht)) hI
    refine ⟨hI', fun s hs => ?_⟩
    rcases List.mem_cons.1 hs with rfl | hs
    · exact hP
    · exact hP' s hs

/-- Statements that follow one another in memory: each starts where the one before it leads, the
first at `v`, and the last leads to `w`. -/
def InPhase (v : Value) : List Statement → Value → Prop
  | [], w => v = w
  | s :: ss, w => s.address = v ∧ InPhase s.next ss w

/-- The statements of a source follow one another, from the location counter before the first line
to the one after the last. -/
theorem layOut_inPhase : ∀ (sources : List Text) {c : Context} (line : Int), c.WF →
    InPhase c.counter (layOut c line sources).2 (layOut c line sources).1.counter
  | [], c, line, _ => rfl
  | source :: sources, c, line, hc => by
    have h := layOutLine_spec hc line source
    have ih := layOut_inPhase sources (line + 1) h.wf
    rw [h.counter] at ih
    exact ⟨h.placed.address, ih⟩

/-- Phase depends on where statements start and lead, not on what is learnt about them later. -/
theorem InPhase.map {f : Statement → Statement} (ha : ∀ s, (f s).address = s.address)
    (hn : ∀ s, (f s).next = s.next) : ∀ {ss : List Statement} {v w : Value}, InPhase v ss w →
      InPhase v (ss.map f) w
  | [], _, _, h => h
  | s :: ss, _, _, ⟨h1, h2⟩ => by
    refine ⟨(ha s).trans h1, ?_⟩
    rw [hn]
    exact InPhase.map ha hn h2

/-- Two statements that follow one another in the source follow one another in memory. -/
theorem InPhase.next_address : ∀ {ss : List Statement} {v w : Value}, InPhase v ss w →
    ∀ {i : Nat} {s t : Statement}, ss[i]? = some s → ss[i + 1]? = some t → t.address = s.next
  | [], _, _, _, i, s, t, hs, _ => by simp at hs
  | [x], _, _, _, i, s, t, _, ht => by simp at ht
  | x :: y :: ss, _, _, ⟨_, h⟩, i, s, t, hs, ht => by
    cases i with
    | zero =>
      simp only [List.getElem?_cons_zero, List.getElem?_cons_succ, Option.some.injEq] at hs ht
      subst hs ht
      exact h.1
    | succ i => exact InPhase.next_address h hs ht

/-! ## A whole source -/

/-- What layout establishes about a module, for a start at any context. -/
structure Assembly.LaidOut (a : Assembly) : Prop where
  wf : a.toContext.WF
  statements : ∀ s ∈ a.statements, s.operation.Known ∧ s.size = s.operation.format.size ∧ s.code = [] ∧
    s.orgAddress.isSome = s.operation.isJump ∧ s.Blameless

theorem ofSource_laidOut {c : Context} (hc : c.WF) (source : Text) : (Assembly.ofSource c source).LaidOut := by
  obtain ⟨h1, h2⟩ := layOut_run (I := Context.WF) (P := fun s => s.operation.Known ∧
      s.size = s.operation.format.size ∧ s.code = [] ∧ s.orgAddress.isSome = s.operation.isJump ∧ s.Blameless)
    (fun c line source hn hc => by
      have h := layOutLine_spec hc line source
      exact ⟨h.wf, h.placed.known, h.placed.size, h.placed.code, h.orgAddress, layOutLine_blameless hc line hn⟩)
    (Text.sourceLines source) c 1 (Text.sourceLines_notMem source) hc
  exact ⟨h1, h2⟩

end Sigma16
