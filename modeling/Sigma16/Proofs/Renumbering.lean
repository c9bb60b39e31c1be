/-
Lines at other places. A statement means what its label, its mnemonic and its operands say; where these
stand in the line, what else the line holds and which number it has appear in diagnostics, and the number
in the lines that bind and use a name. So two lines with the same words, laid out and encoded after
contexts that differ in line numbers only, again leave contexts that differ in line numbers only.
-/
import Sigma16.Proofs.Code

namespace Sigma16

open Outcome

/-! ## Tables with other line numbers -/

def Binding.renumbered (f : Int → Int) (b : Binding) : Binding := { b with line := f b.line, uses := b.uses.map f }

/-- The table of a module whose line `n` has become line `f n`. -/
def SymbolTable.renumbered (f : Int → Int) (t : SymbolTable) : SymbolTable := ⟨t.bindings.map (·.renumbered f)⟩

def Context.renumbered (f : Int → Int) (c : Context) : Context := { c with symbols := c.symbols.renumbered f }

/-- A cause with the line that it quotes renumbered. -/
def Cause.renumbered (f : Int → Int) : Cause → Cause
  | .redeclaredSymbol name line => .redeclaredSymbol name (f line)
  | cause => cause

@[simp] theorem Cause.renumbered_kind (f : Int → Int) (c : Cause) : (c.renumbered f).kind = c.kind := by
  cases c <;> rfl

@[simp] theorem Context.renumbered_symbols (f : Int → Int) (c : Context) :
    (c.renumbered f).symbols = c.symbols.renumbered f := rfl

@[simp] theorem Context.renumbered_counter (f : Int → Int) (c : Context) : (c.renumbered f).counter = c.counter := rfl

namespace SymbolTable

variable (f : Int → Int)

theorem renumbered_lookup (t : SymbolTable) (name : Text) :
    (t.renumbered f).lookup name = (t.lookup name).map (·.renumbered f) := by
  unfold lookup renumbered
  rw [List.find?_map]
  rfl

theorem renumbered_useAll (t : SymbolTable) (line : Int) (names : List Text) :
    (t.renumbered f).useAll (f line) names = (t.useAll line names).renumbered f := by
  have h : ((t.renumbered f).useAll (f line) names).bindings = ((t.useAll line names).renumbered f).bindings := by
    unfold renumbered
    rw [useAll_bindings, useAll_bindings, List.map_map, List.map_map]
    apply List.map_congr_left
    intro b _
    simp [Binding.renumbered]
  exact congrArg mk h

theorem renumbered_extend (t : SymbolTable) (line : Int) {o o' : Outcome (Option Binding)}
    (hresult : o'.result = o.result.map (·.renumbered f)) (huses : o'.effects.uses = o.effects.uses) :
    (t.renumbered f).extend (f line) o' = (t.extend line o).renumbered f := by
  unfold extend
  rw [huses, renumbered_useAll, hresult]
  unfold renumbered
  rw [List.map_append]
  cases o.result <;> rfl

end SymbolTable

/-! ## Logs that differ in places -/

/-- The causes of diagnostics, without those that are about single characters. -/
def causes (errors : List Diagnostic) : List Cause := (errors.filter (·.kind != .lexical)).map (·.cause)

theorem causes_append (xs ys : List Diagnostic) : causes (xs ++ ys) = causes xs ++ causes ys := by
  unfold causes
  rw [List.filter_append, List.map_append]

/-- Diagnostics of the same causes, possibly at other places. -/
def SameCauses (f : Int → Int) (xs ys : List Diagnostic) : Prop :=
  ys.map (·.cause) = xs.map fun e => e.cause.renumbered f

theorem SameCauses.causes {f : Int → Int} {xs ys : List Diagnostic} (h : SameCauses f xs ys) :
    causes ys = (causes xs).map (·.renumbered f) := by
  -- whether a diagnostic counts depends on its cause alone, and not on the line that the cause quotes
  have hfilter : ∀ es : List Diagnostic, Sigma16.causes es = (es.map (·.cause)).filter (·.kind != .lexical) := by
    intro es
    rw [List.filter_map]
    rfl
  have hkind : (fun c : Cause => c.kind != .lexical) ∘ Cause.renumbered f = fun c => c.kind != .lexical := by
    funext c
    simp
  rw [hfilter, hfilter, show ys.map (·.cause) = (xs.map (·.cause)).map (·.renumbered f) by rw [h, List.map_map]; rfl,
    List.filter_map, hkind]

/-- Logs that differ only in the places of diagnostics and in the lines that these quote. -/
structure Effects.Alike (f : Int → Int) (e e' : Effects) : Prop where
  errors : SameCauses f e.errors e'.errors
  uses : e'.uses = e.uses
  relocations : e'.relocations = e.relocations
  imports : e'.imports = e.imports
  exports : e'.exports = e.exports

theorem Effects.Alike.append {f : Int → Int} {e₁ e₁' e₂ e₂' : Effects} (h₁ : e₁.Alike f e₁') (h₂ : e₂.Alike f e₂') :
    (e₁ ++ e₂).Alike f (e₁' ++ e₂') := by
  refine ⟨?_, ?_, ?_, ?_, ?_⟩
  · simp only [SameCauses, append_errors, List.map_append]
    rw [h₁.errors, h₂.errors]
  · rw [append_uses, append_uses, h₁.uses, h₂.uses]
  · rw [append_relocations, append_relocations, h₁.relocations, h₂.relocations]
  · rw [append_imports, append_imports, h₁.imports, h₂.imports]
  · rw [append_exports, append_exports, h₁.exports, h₂.exports]

namespace Outcome

variable {α β : Type} {f : Int → Int}

/-- Outcomes with the same result, and logs that differ in places only. -/
structure Alike (f : Int → Int) (x y : Outcome α) : Prop where
  result : y.result = x.result
  effects : x.effects.Alike f y.effects

/-- An outcome without diagnostics says nothing about places. -/
theorem Alike.of_clean {x : Outcome α} (h : x.effects.errors = []) : x.Alike f x :=
  ⟨rfl, by simp [SameCauses, h], rfl, rfl, rfl, rfl⟩

theorem Alike.pure (a : α) : Alike f (Pure.pure a : Outcome α) (Pure.pure a) := .of_clean rfl

theorem Alike.report {e e' : Diagnostic} (h : e'.cause = e.cause.renumbered f) (a : α) :
    Alike f (report e a) (report e' a) :=
  ⟨rfl, by simp [SameCauses, h], rfl, rfl, rfl, rfl⟩

theorem Alike.bind {x y : Outcome α} {k k' : α → Outcome β} (h : x.Alike f y)
    (hk : (k x.result).Alike f (k' x.result)) : (x >>= k).Alike f (y >>= k') := by
  rw [← h.result] at hk
  refine ⟨?_, ?_⟩
  · rw [bind_result, bind_result, hk.result, h.result]
  · rw [bind_effects, bind_effects, ← h.result]
    exact h.effects.append hk.effects

end Outcome

/-! ## Operands -/

section Operands

variable (f : Int → Int) (symbols : SymbolTable) (s s' : Statement)

theorem evaluateTerm_alike (text : Text) :
    (evaluateTerm symbols s text).Alike f (evaluateTerm (symbols.renumbered f) s' text) := by
  unfold evaluateTerm
  cases Term.ofText text with
  | name name =>
    simp only [SymbolTable.renumbered_lookup]
    cases symbols.lookup name with
    | none => exact .report rfl _
    | some b => exact .of_clean rfl
  | decimal digits =>
    simp only
    cases (Literal.decimal digits).toOption.bind Word.ofInt? with
    | none => exact .report rfl _
    | some word => exact .pure _
  | hex digits =>
    simp only
    cases (Literal.hex digits).toOption with
    | none => exact .report rfl _
    | some word => exact .pure _

theorem evaluate_alike (text : Text) : (evaluate symbols s text).Alike f (evaluate (symbols.renumbered f) s' text) := by
  unfold evaluate
  cases Expression.ofText? text with
  | none => exact .report rfl _
  | some expression =>
    cases expression with
    | term t => exact evaluateTerm_alike f symbols s s' t
    | sum left right =>
      refine .bind (evaluateTerm_alike f symbols s s' left) (.bind (evaluateTerm_alike f symbols s s' right) ?_)
      cases (evaluateTerm symbols s left).result.add (evaluateTerm symbols s right).result with
      | ok value => exact .pure _
      | error fault => exact .report rfl _

theorem register_alike (text : Text) : (register s text).Alike f (register s' text) := by
  unfold register
  cases register? text with
  | none => exact .report rfl _
  | some n => exact .pure _

theorem controlRegister_alike (text : Text) : (controlRegister s text).Alike f (controlRegister s' text) := by
  unfold controlRegister
  cases controlRegister? text with
  | none => exact .report rfl _
  | some n => exact .pure _

theorem indexed_alike (text : Text) : (indexed s text).Alike f (indexed s' text) := by
  unfold indexed
  cases indexed? text with
  | none => exact .report rfl _
  | some x => exact .pure _

theorem link_alike (address : Word) (text : Text) (value : Value) (field : Text) :
    (link symbols s address text value field).Alike f (link (symbols.renumbered f) s' address text value field) := by
  unfold link
  split
  · rw [SymbolTable.renumbered_lookup]
    cases symbols.lookup text with
    | none => exact .report rfl _
    | some b =>
      show Outcome.Alike f (if b.isImported then _ else _) (if b.isImported then _ else _)
      split
      · exact .of_clean rfl
      · exact .report rfl _
  · split
    · exact .of_clean rfl
    · exact .pure _

theorem constant_alike (address : Word) (field text : Text) (limit : Word) :
    (constant symbols s address field text limit).Alike f
      (constant (symbols.renumbered f) s' address field text limit) := by
  unfold constant
  refine .bind (evaluate_alike f symbols s s' text) ?_
  split
  · exact .bind (link_alike f symbols s s' ..) (.pure _)
  · split
    · exact .report rfl _
    · split
      · exact .report rfl _
      · exact .pure _

theorem wholeWord_alike (address : Word) (field text : Text) :
    (wholeWord symbols s address field text).Alike f (wholeWord (symbols.renumbered f) s' address field text) := by
  unfold wholeWord
  exact .bind (evaluate_alike f symbols s s' text) (.bind (link_alike f symbols s s' ..) (.pure _))

end Operands

/-! ## Statements with the same words -/

/-- The parts of a line that have a meaning. -/
def Line.words (l : Line) : Text × Text × Text := (l.label, l.mnemonic, l.operands)

/-- Statements that differ only in the number of the line, in what surrounds its words and in the places of
diagnostics. -/
structure Statement.Alike (f : Int → Int) (s s' : Statement) : Prop where
  line : s'.line = f s.line
  label : s'.parts.label = s.parts.label
  operands : s'.parts.operands = s.parts.operands
  operation : s'.operation = s.operation
  size : s'.size = s.size
  address : s'.address = s.address
  orgAddress : s'.orgAddress = s.orgAddress
  errors : causes s'.errors = (causes s.errors).map (·.renumbered f)

namespace Statement.Alike

variable {f : Int → Int} {s s' : Statement}

theorem note (h : s.Alike f s') {es es' : List Diagnostic} (he : SameCauses f es es') :
    (s.note es).Alike f (s'.note es') := by
  refine ⟨h.line, h.label, h.operands, h.operation, h.size, h.address, h.orgAddress, ?_⟩
  rw [note_errors, note_errors, causes_append, causes_append, h.errors, he.causes, List.map_append]

theorem hasLabel (h : s.Alike f s') : s'.hasLabel = s.hasLabel := by
  unfold Statement.hasLabel
  rw [h.label]

theorem texts (h : s.Alike f s') : Statement.operands s' = Statement.operands s := by
  unfold Statement.operands
  rw [h.operands]

end Statement.Alike

/-! ## Code -/

section Code

variable {f : Int → Int} (symbols : SymbolTable) {s s' : Statement}

theorem fieldValue_alike (h : s'.address = s.address) (field : Field) (text : Text) :
    (fieldValue symbols s field text).Alike f (fieldValue (symbols.renumbered f) s' field text) := by
  unfold fieldValue
  rw [h]
  simp only
  split
  · exact wholeWord_alike f symbols s s' ..
  · exact constant_alike f symbols s s' ..

theorem placeOperand_alike (h : s'.address = s.address) (slot : Slot) (text : Text) :
    (placeOperand symbols s slot text).Alike f (placeOperand (symbols.renumbered f) s' slot text) := by
  cases slot with
  | register field => exact .bind (register_alike f s s' text) (.pure _)
  | control field => exact .bind (controlRegister_alike f s s' text) (.pure _)
  | value field => exact .bind (fieldValue_alike symbols h field text) (.pure _)
  | indexed index field =>
    exact .bind (indexed_alike f s s' text) (.bind (fieldValue_alike symbols h field _) (.pure _))

/-- Operands fill their fields with the same values in any statement at the same address. -/
theorem placeOperands_alike (h : s'.address = s.address) : ∀ (slots : List Slot) (texts : List Text),
    (placeOperands symbols s slots texts).Alike f (placeOperands (symbols.renumbered f) s' slots texts)
  | [], _ => .pure _
  | _ :: _, [] => .pure _
  | slot :: slots, text :: texts =>
    .bind (placeOperand_alike symbols h slot text) (.bind (placeOperands_alike h slots texts) (.pure _))

theorem exportName_alike (name : Text) :
    (exportName symbols s name).Alike f (exportName (symbols.renumbered f) s' name) := by
  unfold exportName
  split
  · rw [SymbolTable.renumbered_lookup]
    cases symbols.lookup name with
    | none => exact .report rfl _
    | some b => exact .of_clean rfl
  · exact .report rfl _

theorem exportNames_alike : ∀ names : List Text,
    (exportNames symbols s names).Alike f (exportNames (symbols.renumbered f) s' names)
  | [] => .pure _
  | name :: names => .bind (exportName_alike symbols name) (exportNames_alike names)

theorem operandCountError_alike (h : s.Alike f s') (required : Nat) :
    (operandCountError s' required).cause = (operandCountError s required).cause.renumbered f := by
  unfold operandCountError
  rw [h.texts]
  rfl

/-- The code of a statement depends on its words, not on where they stand. -/
theorem encode_alike (h : s.Alike f s') : (encode symbols s).Alike f (encode (symbols.renumbered f) s') := by
  unfold encode
  rw [h.operation]
  cases s.operation.encoding? with
  | none => exact .report rfl _
  | some encoding =>
    cases encoding with
    | nothing | origin => exact .pure _
    | words shape =>
      simp only [encodeWords, h.texts, h.operation]
      split
      · exact .bind (placeOperands_alike symbols h.address ..) (.pure _)
      · rw [show zeroWords s' = zeroWords s by unfold zeroWords; rw [h.size]]
        exact .report (operandCountError_alike h _) _
    | exports =>
      simp only [h.texts]
      split
      · exact .report (operandCountError_alike h _) _
      · exact .bind (exportNames_alike symbols _) (.pure _)

theorem newOrigin?_alike (h : s.Alike f s') (counter : Value) : newOrigin? counter s' = newOrigin? counter s := by
  unfold newOrigin?
  rw [h.operation, h.orgAddress]

end Code

/-! ## One line -/

section Line

variable {f : Int → Int} {c : Context} {s s' : Statement}

theorem aliasTarget_renumbered (symbols : SymbolTable) (value : Value) (text : Text) :
    aliasTarget (symbols.renumbered f) value text = aliasTarget symbols value text := by
  unfold aliasTarget
  rw [SymbolTable.renumbered_lookup]
  split
  · cases symbols.lookup text <;> rfl
  · rfl

theorem newBinding_alike (h : s.Alike f s') :
    (newBinding (c.renumbered f) s').result = (newBinding c s).result.map (·.renumbered f) ∧
    (newBinding c s).effects.Alike f (newBinding (c.renumbered f) s').effects := by
  unfold newBinding
  rw [h.operation, h.texts, h.operands, h.label, h.line]
  split
  · have hvalue := evaluate_alike f c.symbols s s' s.parts.operands
    refine ⟨?_, ?_⟩
    · simp only [bind_result, pure_result, Context.renumbered_symbols, hvalue.result, aliasTarget_renumbered]
      rfl
    · simp only [bind_effects, pure_effects, Effects.append_empty, Context.renumbered_symbols]
      exact hvalue.effects
  · split
    · split
      · exact ⟨rfl, (Alike.report rfl ()).effects⟩
      · exact ⟨rfl, (Alike.pure ()).effects⟩
    · exact ⟨rfl, (Alike.report rfl ()).effects⟩
  · exact ⟨rfl, (Alike.pure ()).effects⟩

/-- A label is bound on the line that it stands on, and else as before. -/
theorem bindLabel_alike (h : s.Alike f s') :
    (bindLabel (c.renumbered f) s').1 = (bindLabel c s).1.renumbered f ∧
    SameCauses f (bindLabel c s).2 (bindLabel (c.renumbered f) s').2 := by
  rw [bindLabel_eq, bindLabel_eq, h.hasLabel, h.operation, h.label, h.line]
  split
  · split
    · exact ⟨rfl, rfl⟩
    · rw [Context.renumbered_symbols, SymbolTable.renumbered_lookup]
      cases c.symbols.lookup s.parts.label with
      | some b =>
        -- the report quotes the line of the binding that is there, which has been renumbered too
        exact ⟨rfl, rfl⟩
      | none =>
        obtain ⟨hresult, heffects⟩ := newBinding_alike (c := c) h
        refine ⟨?_, heffects.errors⟩
        simp only [Option.map_none, SymbolTable.renumbered_extend f _ _ hresult heffects.uses]
        rfl
  · split <;> exact ⟨rfl, rfl⟩

theorem orgTarget_alike (h : s.Alike f s') : (orgTarget c s).Alike f (orgTarget (c.renumbered f) s') := by
  unfold orgTarget
  rw [h.operands]
  refine .bind (evaluate_alike f c.symbols s s' _) ?_
  split
  · exact .report rfl _
  · exact .pure _

theorem blockTarget_alike (h : s.Alike f s') : (blockTarget c s).Alike f (blockTarget (c.renumbered f) s') := by
  unfold blockTarget
  rw [h.operands, Context.renumbered_counter]
  refine .bind (evaluate_alike f c.symbols s s' _) ?_
  split
  · exact .report rfl _
  · split
    · exact .pure _
    · exact .report rfl _

theorem jump_alike (h : s.Alike f s') {target target' : Outcome Value} (ht : target.Alike f target') :
    (jump (c.renumbered f) s' target').1 = (jump c s target).1.renumbered f ∧
    (jump c s target).2.Alike f (jump (c.renumbered f) s' target').2 := by
  have hnote := h.note ht.effects.errors
  unfold jump
  rw [ht.result, ht.effects.uses, h.line, Context.renumbered_symbols, SymbolTable.renumbered_useAll]
  exact ⟨rfl, hnote.line, hnote.label, hnote.operands, hnote.operation, hnote.size, hnote.address, rfl, hnote.errors⟩

theorem advance_alike (h : s.Alike f s') :
    (advance (c.renumbered f) s').1 = (advance c s).1.renumbered f ∧
    (advance c s).2.Alike f (advance (c.renumbered f) s').2 := by
  unfold advance
  rw [h.operation, h.size, Context.renumbered_counter]
  split
  · exact jump_alike h (orgTarget_alike h)
  · exact jump_alike h (blockTarget_alike h)
  · split
    · exact ⟨rfl, h⟩
    · exact ⟨rfl, h.note rfl⟩

/-- The reports on the characters of a line, which stand in its comment or anywhere else, do not count. -/
theorem characterErrors_causes (s : Statement) : causes s.characterErrors = [] := by
  have hlexical : ∀ e ∈ s.characterErrors, e.kind = .lexical := by
    unfold Statement.characterErrors
    split
    · simp
    · intro e he
      rcases List.mem_cons.1 he with rfl | he
      · rfl
      · obtain ⟨note, -, rfl⟩ := List.mem_map.1 he
        rfl
  unfold causes
  rw [List.map_eq_nil_iff, List.filter_eq_nil_iff]
  intro e he
  simp [hlexical e he]

theorem labelErrors_alike (h : s.Alike f s') : SameCauses f s.labelErrors s'.labelErrors := by
  unfold Statement.labelErrors
  rw [h.label, h.hasLabel]
  split <;> rfl

theorem withOperation_alike (h : s.Alike f s') (hm : s'.parts.mnemonic = s.parts.mnemonic) :
    s.withOperation.Alike f s'.withOperation := by
  unfold Statement.withOperation
  rw [hm]
  split
  · exact h
  · split
    · exact ⟨h.line, h.label, h.operands, rfl, rfl, h.address, h.orgAddress, h.errors⟩
    · exact h.note rfl

theorem checked_alike {line : Int} {address : Value} {source source' : Text} (hn : '\n'.toUInt8 ∉ source)
    (hn' : '\n'.toUInt8 ∉ source') (hw : (Line.split source').words = (Line.split source).words) :
    (Statement.checked line address source).Alike f (Statement.checked (f line) address source') := by
  simp only [Line.words, Prod.mk.injEq] at hw
  obtain ⟨hlabel, hmnemonic, hoperands⟩ := hw
  have hparts : Statement.Alike f { line, address, source, parts := Line.split source }
      { line := f line, address, source := source', parts := Line.split source' } :=
    ⟨rfl, hlabel, hoperands, rfl, rfl, rfl, rfl, rfl⟩
  have hread : (Statement.read line address source).Alike f (.read (f line) address source') := by
    unfold Statement.read
    rw [Line.ofText?_eq_some hn, Line.ofText?_eq_some hn']
    exact withOperation_alike (hparts.note (labelErrors_alike hparts)) hmnemonic
  refine ⟨hread.line, hread.label, hread.operands, hread.operation, hread.size, hread.address, hread.orgAddress, ?_⟩
  -- comments may hold other characters, but reports on them are no causes
  unfold Statement.checked
  rw [causes_append, causes_append, characterErrors_causes, characterErrors_causes, List.nil_append, List.nil_append]
  exact hread.errors

theorem layOutLine_alike (line : Int) {source source' : Text} (hn : '\n'.toUInt8 ∉ source)
    (hn' : '\n'.toUInt8 ∉ source') (hw : (Line.split source').words = (Line.split source).words) :
    (layOutLine (c.renumbered f) (f line) source').1 = (layOutLine c line source).1.renumbered f ∧
    (layOutLine c line source).2.Alike f (layOutLine (c.renumbered f) (f line) source').2 := by
  have hchecked : (Statement.checked line c.counter source).Alike f
      (.checked (f line) (c.renumbered f).counter source') := checked_alike hn hn' hw
  obtain ⟨hcontext, hcauses⟩ := bindLabel_alike (c := c) hchecked
  rw [layOutLine_eq, layOutLine_eq, hcontext]
  exact advance_alike (hchecked.note hcauses)

end Line

end Sigma16
