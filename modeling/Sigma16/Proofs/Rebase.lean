/-
A source laid out from another base. Everything that moves with the module is moved by the difference of
the bases and nothing else changes: not the form of a line, not the choice of a branch, not which
diagnostics are reported. Shown for values and tables, then for operands, for one line, and for a
whole source.
-/
import Sigma16.Proofs.Layout

namespace Sigma16

open Outcome

/-! ## Values and tables that move -/

/-- The value in a module whose base is moved by `b`. -/
def Value.moved (b : Word) (v : Value) : Value := { v with word := if v.isRelocatable then v.word + b else v.word }

def Binding.moved (b : Word) (x : Binding) : Binding := { x with value := x.value.moved b }

def SymbolTable.moved (b : Word) (t : SymbolTable) : SymbolTable := ⟨t.bindings.map (·.moved b)⟩

def Export.moved (b : Word) (x : Export) : Export := { x with value := x.value.moved b }

/-- A cause with the values that it quotes moved. -/
def Cause.moved (b : Word) : Cause → Cause
  | .movingBlock value => .movingBlock (value.moved b)
  | .movingField field value => .movingField field (value.moved b)
  | cause => cause

def Diagnostic.moved (b : Word) (e : Diagnostic) : Diagnostic := { e with cause := e.cause.moved b }

def Context.moved (b : Word) (c : Context) : Context :=
  { c with symbols := c.symbols.moved b, counter := c.counter.moved b }

/-- A statement before it is encoded, in a module whose base is moved. -/
def Statement.moved (b : Word) (s : Statement) : Statement :=
  { s with
    address := s.address.moved b
    orgAddress := s.orgAddress.map (·.moved b)
    errors := s.errors.map (·.moved b) }

@[simp] theorem Context.moved_symbols (b : Word) (c : Context) : (c.moved b).symbols = c.symbols.moved b := rfl

@[simp] theorem Context.moved_counter (b : Word) (c : Context) : (c.moved b).counter = c.counter.moved b := rfl

@[simp] theorem Statement.moved_operation (b : Word) (s : Statement) : (s.moved b).operation = s.operation := rfl

@[simp] theorem Statement.moved_parts (b : Word) (s : Statement) : (s.moved b).parts = s.parts := rfl

@[simp] theorem Statement.moved_operands (b : Word) (s : Statement) : (s.moved b).operands = s.operands := rfl

@[simp] theorem Statement.moved_line (b : Word) (s : Statement) : (s.moved b).line = s.line := rfl

@[simp] theorem Statement.moved_hasLabel (b : Word) (s : Statement) : (s.moved b).hasLabel = s.hasLabel := rfl

/-- By how much a statement moves with the module. -/
def Statement.displacement (b : Word) (s : Statement) : Word := if s.address.isRelocatable then b else 0

/-- A cause is reported of the same kind. -/
theorem Cause.moved_ctorIdx (b : Word) (c : Cause) : (c.moved b).ctorIdx = c.ctorIdx := by
  cases c <;> rfl

namespace Value

variable (b : Word)

@[simp] theorem moved_isExternal (v : Value) : (v.moved b).isExternal = v.isExternal := rfl

@[simp] theorem moved_isRelocatable (v : Value) : (v.moved b).isRelocatable = v.isRelocatable := rfl

theorem moved_of_fixed {v : Value} (h : v.isRelocatable = false) : v.moved b = v := by
  unfold moved
  rw [h]
  rfl

theorem moved_word (v : Value) : (v.moved b).word = if v.isRelocatable then v.word + b else v.word := rfl

/-- Sums exist at every base, and move if one of their terms does. -/
theorem add_moved (x y : Value) : (x.moved b).add (y.moved b) = (x.add y).map (moved b) := by
  rw [add_eq, add_eq, moved_isExternal, moved_isExternal, moved_isRelocatable, moved_isRelocatable]
  by_cases he : (x.isExternal || y.isExternal) = true
  · rw [if_pos he, if_pos he]
    rfl
  rw [if_neg he, if_neg he]
  by_cases hr : (x.isRelocatable && y.isRelocatable) = true
  · rw [if_pos hr, if_pos hr]
    rfl
  rw [if_neg hr, if_neg hr]
  -- at most one term moves, so the sum moves by `b` once or not at all
  have hword : (x.moved b).word + (y.moved b).word =
      if x.isRelocatable || y.isRelocatable then x.word + y.word + b else x.word + y.word := by
    rw [moved_word, moved_word]
    cases hx : x.isRelocatable <;> cases hy : y.isRelocatable
    · rfl
    · exact (UInt16.add_assoc ..).symm
    · show x.word + b + y.word = x.word + y.word + b
      rw [UInt16.add_assoc, UInt16.add_comm b, UInt16.add_assoc]
    · rw [hx, hy] at hr
      exact absurd rfl hr
  rw [hword]
  cases x.isRelocatable || y.isRelocatable <;> rfl

end Value

namespace SymbolTable

variable (b : Word)

theorem moved_lookup (t : SymbolTable) (name : Text) :
    (t.moved b).lookup name = (t.lookup name).map (·.moved b) := by
  unfold lookup moved
  rw [List.find?_map]
  rfl

theorem moved_useAll (t : SymbolTable) (line : Int) (names : List Text) :
    (t.moved b).useAll line names = (t.useAll line names).moved b := by
  have h : ((t.moved b).useAll line names).bindings = ((t.useAll line names).moved b).bindings := by
    unfold moved
    rw [useAll_bindings, useAll_bindings, List.map_map, List.map_map]
    rfl
  exact congrArg mk h

end SymbolTable

/-! ## Logs that move -/

/-- The log of a statement in a module whose base is moved by `b`, if the statement itself moves by `d`. -/
def Effects.moved (b d : Word) (e : Effects) : Effects where
  errors := e.errors.map (·.moved b)
  uses := e.uses
  relocations := e.relocations.map (· + d)
  imports := e.imports.map fun item => { item with address := item.address + d }
  exports := e.exports.map (·.moved b)

theorem Effects.moved_append (b d : Word) (x y : Effects) : (x ++ y).moved b d = x.moved b d ++ y.moved b d := by
  simp [moved, append_eq]

namespace Outcome

variable {α β : Type} {b d : Word}

/-- An outcome with its log moved, and its result as given by `f`. -/
def moved (b d : Word) (f : α → β) (x : Outcome α) : Outcome β := ⟨f x.result, x.effects.moved b d⟩

theorem bind_moved {γ δ : Type} {f : α → β} {g : γ → δ} {x : Outcome α} {k : α → Outcome γ} {k' : β → Outcome δ}
    (h : k' (f x.result) = (k x.result).moved b d g) : (x.moved b d f >>= k') = (x >>= k).moved b d g := by
  apply ext
  · show (k' (f x.result)).result = g (k x.result).result
    rw [h]
    rfl
  · show x.effects.moved b d ++ (k' (f x.result)).effects = _
    rw [h]
    exact (Effects.moved_append b d _ _).symm

end Outcome

/-! ## Operands -/

section Operands

variable (b d : Word)

theorem evaluateTerm_moved (symbols : SymbolTable) (s : Statement) (text : Text) :
    evaluateTerm (symbols.moved b) (s.moved b) text =
      (evaluateTerm symbols s text).moved b d (Value.moved b) := by
  unfold evaluateTerm
  cases Term.ofText text with
  | name name =>
    simp only [SymbolTable.moved_lookup]
    cases symbols.lookup name <;> rfl
  | decimal digits =>
    simp only
    cases (Literal.decimal digits).toOption.bind Word.ofInt? <;> rfl
  | hex digits =>
    simp only
    cases (Literal.hex digits).toOption <;> rfl

/-- The value of an operand moves as the names in it do, and nothing else depends on the base. -/
theorem evaluate_moved (symbols : SymbolTable) (s : Statement) (text : Text) :
    evaluate (symbols.moved b) (s.moved b) text = (evaluate symbols s text).moved b d (Value.moved b) := by
  unfold evaluate
  cases Expression.ofText? text with
  | none => rfl
  | some expression =>
    cases expression with
    | term t => exact evaluateTerm_moved b d symbols s t
    | sum left right =>
      simp only
      rw [evaluateTerm_moved b d symbols s left, evaluateTerm_moved b d symbols s right]
      apply bind_moved
      apply bind_moved
      rw [Value.add_moved]
      cases (evaluateTerm symbols s left).result.add (evaluateTerm symbols s right).result <;> rfl

theorem aliasTarget_moved (symbols : SymbolTable) (value : Value) (text : Text) :
    aliasTarget (symbols.moved b) (value.moved b) text = aliasTarget symbols value text := by
  unfold aliasTarget
  rw [Value.moved_isExternal, SymbolTable.moved_lookup]
  split
  · cases symbols.lookup text <;> rfl
  · rfl

end Operands

/-! ## One line -/

section Line

variable (b : Word)

theorem newBinding_moved (c : Context) (s : Statement) :
    newBinding (c.moved b) (s.moved b) = (newBinding c s).moved b 0 (Option.map (·.moved b)) := by
  unfold newBinding
  rw [Statement.moved_operation]
  cases s.operation.directive? with
  | none => rfl
  | some directive =>
    cases directive with
    | equ =>
      simp only [Statement.moved_parts]
      rw [Context.moved_symbols, evaluate_moved b 0]
      apply bind_moved
      rw [aliasTarget_moved]
      rfl
    | importName =>
      simp only [Statement.moved_operands]
      split
      · split <;> rfl
      · rfl
    | _ => rfl

theorem extend_moved (t : SymbolTable) (line : Int) (o : Outcome (Option Binding)) :
    (t.moved b).extend line (o.moved b 0 (Option.map (·.moved b))) = (t.extend line o).moved b := by
  unfold SymbolTable.extend
  rw [show (o.moved b 0 (Option.map (·.moved b))).effects.uses = o.effects.uses from rfl, SymbolTable.moved_useAll]
  unfold SymbolTable.moved
  rw [List.map_append]
  cases o with
  | mk result effects => cases result <;> rfl

theorem bindLabel_moved (c : Context) (s : Statement) : bindLabel (c.moved b) (s.moved b) =
    ((bindLabel c s).1.moved b, (bindLabel c s).2.map (·.moved b)) := by
  -- the form of the line and which names are bound decide the branch, and neither depends on the base
  rw [bindLabel_eq, bindLabel_eq, Statement.moved_hasLabel, Statement.moved_operation, Statement.moved_parts]
  by_cases hl : s.hasLabel = true
  · rw [if_pos hl, if_pos hl]
    by_cases hm : s.operation.directive? = some .moduleName
    · rw [if_pos hm, if_pos hm]
      rfl
    rw [if_neg hm, if_neg hm, newBinding_moved, Context.moved_symbols,
      SymbolTable.moved_lookup, Statement.moved_line, extend_moved]
    cases c.symbols.lookup s.parts.label <;> rfl
  · rw [if_neg hl, if_neg hl]
    cases s.operation.directive? with
    | none => rfl
    | some directive => cases directive <;> rfl

theorem orgTarget_moved (c : Context) (s : Statement) :
    orgTarget (c.moved b) (s.moved b) = (orgTarget c s).moved b 0 (Value.moved b) := by
  unfold orgTarget
  rw [Context.moved_symbols, Statement.moved_parts, evaluate_moved b 0]
  apply bind_moved
  rw [Value.moved_isExternal]
  cases (evaluate c.symbols s s.parts.operands).result.isExternal <;> rfl

theorem blockTarget_moved (c : Context) (s : Statement) :
    blockTarget (c.moved b) (s.moved b) = (blockTarget c s).moved b 0 (Value.moved b) := by
  unfold blockTarget
  rw [Context.moved_symbols, Statement.moved_parts, evaluate_moved b 0]
  apply bind_moved
  rw [Value.moved_isRelocatable, Context.moved_counter, Value.add_moved]
  cases (evaluate c.symbols s s.parts.operands).result.isRelocatable with
  | true => rfl
  | false => cases c.counter.add (evaluate c.symbols s s.parts.operands).result <;> rfl

theorem note_moved (s : Statement) (es : List Diagnostic) :
    (s.moved b).note (es.map (·.moved b)) = (s.note es).moved b := by
  simp only [Statement.note, Statement.moved, List.map_append]

theorem jump_moved (c : Context) (s : Statement) (target : Outcome Value) :
    jump (c.moved b) (s.moved b) (target.moved b 0 (Value.moved b)) =
      ((jump c s target).1.moved b, (jump c s target).2.moved b) := by
  unfold jump
  rw [Context.moved_symbols,
    show (target.moved b 0 (Value.moved b)).effects.uses = target.effects.uses from rfl, SymbolTable.moved_useAll,
    show (target.moved b 0 (Value.moved b)).effects.errors = target.effects.errors.map (·.moved b) from rfl,
    note_moved]
  rfl

/-- The location counter moved past the words of a statement. -/
def pastWords (c : Context) (s : Statement) : Context × Statement :=
  match c.counter.add (.const s.size) with
  | .ok next => ({ c with counter := next }, s)
  | .error fault => (c, s.note [⟨s.operationCursor, .arithmetic fault⟩])

theorem pastWords_moved (c : Context) (s : Statement) :
    pastWords (c.moved b) (s.moved b) = ((pastWords c s).1.moved b, (pastWords c s).2.moved b) := by
  unfold pastWords
  rw [show (c.moved b).counter.add (.const (s.moved b).size) = (c.counter.add (.const s.size)).map (Value.moved b)
    from Value.add_moved b c.counter (.const s.size)]
  cases c.counter.add (.const s.size) with
  | ok next => rfl
  | error fault => exact Prod.ext rfl (note_moved b s [⟨s.operationCursor, .arithmetic fault⟩])

theorem advance_moved (c : Context) (s : Statement) :
    advance (c.moved b) (s.moved b) = ((advance c s).1.moved b, (advance c s).2.moved b) := by
  unfold advance
  rw [Statement.moved_operation, orgTarget_moved, blockTarget_moved, jump_moved, jump_moved]
  cases s.operation.directive? with
  | none => exact pastWords_moved b c s
  | some directive =>
    cases directive with
    | org | block => rfl
    | _ => exact pastWords_moved b c s

theorem withOperation_moved (s : Statement) : (s.moved b).withOperation = s.withOperation.moved b := by
  unfold Statement.withOperation
  rw [Statement.moved_parts]
  by_cases hm : s.parts.mnemonic.isEmpty = true
  · rw [if_pos hm, if_pos hm]
  rw [if_neg hm, if_neg hm]
  cases Operation.lookup s.parts.mnemonic with
  | some op => rfl
  | none => exact note_moved b s [⟨s.operationCursor, .unknownOperation s.parts.mnemonic⟩]

theorem labelErrors_moved (s : Statement) : s.labelErrors.map (·.moved b) = s.labelErrors := by
  unfold Statement.labelErrors
  split <;> rfl

theorem characterErrors_moved (s : Statement) : s.characterErrors.map (·.moved b) = s.characterErrors := by
  unfold Statement.characterErrors
  split
  · rfl
  · rfl

theorem read_moved (line : Int) (address : Value) (source : Text) :
    Statement.read line (address.moved b) source = (Statement.read line address source).moved b := by
  unfold Statement.read
  cases Line.ofText? source with
  | none => rfl
  | some parts =>
    have hn := note_moved b { line, address, source, parts }
      (Statement.labelErrors { line, address, source, parts })
    rw [labelErrors_moved] at hn
    simp only
    rw [← withOperation_moved, ← hn]
    rfl

theorem checked_moved (line : Int) (address : Value) (source : Text) :
    Statement.checked line (address.moved b) source = (Statement.checked line address source).moved b := by
  unfold Statement.checked
  rw [read_moved]
  simp only [Statement.moved, List.map_append, characterErrors_moved]
  rfl

theorem layOutLine_moved (c : Context) (line : Int) (source : Text) : layOutLine (c.moved b) line source =
    ((layOutLine c line source).1.moved b, (layOutLine c line source).2.moved b) := by
  rw [layOutLine_eq, layOutLine_eq, Context.moved_counter, checked_moved,
    bindLabel_moved, note_moved, advance_moved]

end Line

/-! ## All lines -/

/-- A source laid out from a moved base: the same statements and names, moved. -/
theorem layOut_moved (b : Word) : ∀ (sources : List Text) (c : Context) (line : Int), layOut (c.moved b) line sources =
    ((layOut c line sources).1.moved b, (layOut c line sources).2.map (·.moved b))
  | [], _, _ => rfl
  | source :: sources, c, line => by
    unfold layOut
    simp only [layOutLine_moved, layOut_moved b sources, List.map_cons]

end Sigma16
