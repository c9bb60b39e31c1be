/-
What can be logged about the operands of a statement. Evaluating and encoding note the use of bound names only,
tell the linker nothing but what the bindings of the table say, and report mistakes of the operands only: what is
wrong with a line, with its label or with its mnemonic is reported where the line is read and its label bound. One
walk through evaluators and encoders shows this, entry by entry; what follows for the parts of a log is derived
from it.
-/
import Sigma16.Proofs.Code

namespace Sigma16

open Outcome

/-! ## Entries of a log -/

/-- A mistake that is found when the operands are evaluated or encoded. -/
def Cause.AboutOperands : Cause → Prop
  | .invalidCharacters _ | .characterNote _ | .invalidLabel _ | .missingLabel _ | .unknownOperation _
  | .redeclaredSymbol _ _ => False
  | _ => True

/-- The logs that can be made under the bindings of a table. -/
inductive Effects.Under (symbols : SymbolTable) : Effects → Prop where
  | nothing : Under symbols {}
  | append {x y : Effects} : Under symbols x → Under symbols y → Under symbols (x ++ y)
  | report {e : Diagnostic} : e.cause.AboutOperands → Under symbols { errors := [e] }
  | use {name : Text} {b : Binding} : symbols.lookup name = some b → Under symbols { uses := [name] }
  | relocate (address : Word) : Under symbols { relocations := [address] }
  | importField {name : Text} {b : Binding} (address : Word) (field : Text) : symbols.lookup name = some b →
      b.isImported = true → Under symbols { imports := [⟨b.moduleName, b.foreignName, address, field⟩] }
  | offer {name : Text} {b : Binding} : symbols.lookup name = some b → Under symbols { exports := [⟨name, b.value⟩] }

namespace Effects.Under

variable {symbols : SymbolTable} {e : Effects}

theorem errors (h : e.Under symbols) : ∀ d ∈ e.errors, d.cause.AboutOperands := by
  induction h with
  | nothing | use _ | relocate _ | importField _ _ _ _ | offer _ => exact List.forall_mem_nil _
  | append _ _ hx hy => exact List.forall_mem_append.2 ⟨hx, hy⟩
  | report hc => exact List.forall_mem_singleton.2 hc

/-- The linker is told the foreign symbol of a binding. -/
theorem imports (h : e.Under symbols) : ∀ item ∈ e.imports, ∃ name b, symbols.lookup name = some b ∧
    b.isImported = true ∧ item.moduleName = b.moduleName ∧ item.foreignName = b.foreignName := by
  induction h with
  | nothing | report _ | use _ | relocate _ | offer _ => exact List.forall_mem_nil _
  | append _ _ hx hy => exact List.forall_mem_append.2 ⟨hx, hy⟩
  | importField _ _ hb hi => exact List.forall_mem_singleton.2 ⟨_, _, hb, hi, rfl, rfl⟩

end Effects.Under

/-- An outcome whose log can be made under the bindings of a table. -/
def Outcome.Under {α : Type} (symbols : SymbolTable) (o : Outcome α) : Prop := o.effects.Under symbols

namespace Outcome.Under

variable {α β : Type} {symbols : SymbolTable}

theorem pure (a : α) : Under symbols (Pure.pure a : Outcome α) := Effects.Under.nothing

theorem bind {x : Outcome α} {f : α → Outcome β} (hx : x.Under symbols) (hf : (f x.result).Under symbols) :
    (x >>= f).Under symbols := Effects.Under.append hx hf

theorem report {e : Diagnostic} {a : α} (h : e.cause.AboutOperands) : (Outcome.report e a).Under symbols :=
  Effects.Under.report h

end Outcome.Under

/-! ## Operands -/

section Operands

variable (symbols : SymbolTable) (s : Statement)

theorem evaluateTerm_under (text : Text) : (evaluateTerm symbols s text).Under symbols := by
  unfold evaluateTerm
  split
  · split
    · rename_i b hb
      exact .bind (Effects.Under.use hb) (.pure _)
    · exact .report trivial
  · split
    · exact .pure _
    · exact .report trivial
  · split
    · exact .pure _
    · exact .report trivial

theorem evaluate_under (text : Text) : (evaluate symbols s text).Under symbols := by
  unfold evaluate
  split
  · exact evaluateTerm_under symbols s _
  · refine .bind (evaluateTerm_under symbols s _) (.bind (evaluateTerm_under symbols s _) ?_)
    split
    · exact .pure _
    · exact .report trivial
  · exact .report trivial

theorem register_under (text : Text) : (register s text).Under symbols := by
  unfold register
  split
  · exact .pure _
  · exact .report trivial

theorem controlRegister_under (text : Text) : (controlRegister s text).Under symbols := by
  unfold controlRegister
  split
  · exact .pure _
  · exact .report trivial

theorem indexed_under (text : Text) : (indexed s text).Under symbols := by
  unfold indexed
  split
  · exact .pure _
  · exact .report trivial

theorem link_under (address : Word) (text : Text) (value : Value) (field : Text) :
    (link symbols s address text value field).Under symbols := by
  unfold link
  split
  · split
    · rename_i b hb
      split
      · rename_i hi
        exact Effects.Under.importField address field hb hi
      · exact .report trivial
    · exact .report trivial
  · split
    · exact Effects.Under.relocate address
    · exact .pure _

theorem fieldValue_under (field : Field) (text : Text) : (fieldValue symbols s field text).Under symbols := by
  unfold fieldValue wholeWord constant
  dsimp only
  split
  · exact .bind (evaluate_under symbols s text) (.bind (link_under symbols s _ _ _ _) (.pure _))
  · refine .bind (evaluate_under symbols s text) ?_
    split
    · exact .bind (link_under symbols s _ _ _ _) (.pure _)
    · split
      · exact .report trivial
      · split
        · exact .report trivial
        · exact .pure _

theorem placeOperand_under (slot : Slot) (text : Text) : (placeOperand symbols s slot text).Under symbols := by
  cases slot with
  | register field => exact .bind (register_under symbols s text) (.pure _)
  | control field => exact .bind (controlRegister_under symbols s text) (.pure _)
  | value field => exact .bind (fieldValue_under symbols s field text) (.pure _)
  | indexed index field =>
    exact .bind (indexed_under symbols s text) (.bind (fieldValue_under symbols s field _) (.pure _))

theorem placeOperands_under : ∀ (slots : List Slot) (texts : List Text),
    (placeOperands symbols s slots texts).Under symbols
  | [], _ => .pure _
  | _ :: _, [] => .pure _
  | slot :: slots, text :: texts =>
    .bind (placeOperand_under symbols s slot text) (.bind (placeOperands_under slots texts) (.pure _))

theorem exportNames_under : ∀ names : List Text, (exportNames symbols s names).Under symbols
  | [] => .pure _
  | name :: names => by
    refine .bind ?_ (exportNames_under names)
    unfold exportName
    split
    · split
      · rename_i b hb
        exact .bind (Effects.Under.use hb) (Effects.Under.offer hb)
      · exact .report trivial
    · exact .report trivial

/-- All that encoding a statement logs. -/
theorem encode_under : (encode symbols s).Under symbols := by
  unfold encode
  split
  · exact .pure _
  · exact .pure _
  · unfold encodeWords
    split
    · exact .bind (placeOperands_under symbols s _ _) (.pure _)
    · exact .report trivial
  · split
    · exact .report trivial
    · exact .bind (exportNames_under symbols s _) (.pure _)
  · exact .report trivial

end Operands

/-! ## Layout -/

section Layout

variable (c : Context) (s : Statement)

theorem newBinding_under : (newBinding c s).Under c.symbols := by
  unfold newBinding
  split
  · exact .bind (evaluate_under c.symbols s _) (.pure _)
  · split
    · split
      · exact .report trivial
      · exact .pure _
    · exact .report trivial
  · exact .pure _

theorem orgTarget_under : (orgTarget c s).Under c.symbols := by
  unfold orgTarget
  refine .bind (evaluate_under c.symbols s _) ?_
  split
  · exact .report trivial
  · exact .pure _

theorem blockTarget_under : (blockTarget c s).Under c.symbols := by
  unfold blockTarget
  refine .bind (evaluate_under c.symbols s _) ?_
  split
  · exact .report trivial
  · split
    · exact .pure _
    · exact .report trivial

end Layout

end Sigma16
