/-
The value of an operand under a well-formed symbol table. It is a word of the module or a
placeholder, and a placeholder only where the operand is nothing but a name bound to one: a sum never
is. So the linker can be told the foreign symbol of every placeholder, and evaluating an operand
never blames the assembler.
-/
import Sigma16.Operand
import Sigma16.Proofs.Binding
import Sigma16.Proofs.Effects

namespace Sigma16

open Outcome

/-! ## The form of an expression -/

theorem Term.ofText_name {t name : Text} (h : Term.ofText t = .name name) : name = t ∧ Text.isName t = true := by
  unfold Term.ofText at h
  split at h
  · rename_i hn
    cases h
    exact ⟨rfl, hn⟩
  · split at h <;> cases h

theorem Expression.ofText?_term {t u : Text} (h : Expression.ofText? t = some (.term u)) : u = t := by
  unfold Expression.ofText? at h
  split at h
  · cases h
    rfl
  · split at h
    · split at h <;> cases h
    · cases h

/-! ## Values of expressions -/

theorem evaluateTerm_sound (symbols : SymbolTable) (s : Statement) (text : Text) :
    (evaluateTerm symbols s text).Sound := by
  unfold evaluateTerm
  split
  · split
    · exact Sound.bind (Effects.Sound.uses _) (Sound.pure _)
    · exact Sound.report rfl _
  · split
    · exact Sound.pure _
    · exact Sound.report rfl _
  · split
    · exact Sound.pure _
    · exact Sound.report rfl _

theorem evaluateTerm_proper {symbols : SymbolTable} (h : symbols.WF) (s : Statement) (text : Text) :
    (evaluateTerm symbols s text).result.Proper := by
  unfold evaluateTerm
  split
  · split
    · rename_i binding hb
      exact (h.lookup hb).proper
    · exact (Value.const_isLocal 0).proper
  · split <;> exact (Value.const_isLocal _).proper
  · split <;> exact (Value.const_isLocal _).proper

/-- A term is a placeholder only if it is a name bound to one. -/
theorem evaluateTerm_external {symbols : SymbolTable} {s : Statement} {text : Text}
    (h : (evaluateTerm symbols s text).result.isExternal = true) :
    ∃ b, symbols.lookup text = some b ∧ b.value = (evaluateTerm symbols s text).result := by
  unfold evaluateTerm at h ⊢
  split at h
  · rename_i name hn
    obtain ⟨rfl, -⟩ := Term.ofText_name hn
    split at h
    · rename_i b hb
      exact ⟨b, hb, rfl⟩
    · cases h
  · split at h <;> cases h
  · split at h <;> cases h

theorem evaluate_sound (symbols : SymbolTable) (s : Statement) (text : Text) :
    (evaluate symbols s text).Sound := by
  unfold evaluate
  split
  · exact evaluateTerm_sound ..
  · refine Sound.bind (evaluateTerm_sound ..) (Sound.bind (evaluateTerm_sound ..) ?_)
    split
    · exact Sound.pure _
    · rename_i fault hf
      refine Sound.report ?_ _
      have := Value.add_ne_negative hf
      simp [Diagnostic.kind, Cause.kind, this]
  · exact Sound.report rfl _

theorem evaluate_proper {symbols : SymbolTable} (h : symbols.WF) (s : Statement) (text : Text) :
    (evaluate symbols s text).result.Proper := by
  unfold evaluate
  split
  · exact evaluateTerm_proper h ..
  · simp only [bind_result]
    split
    · rename_i value hv
      exact (Value.add_isLocal hv).proper
    · exact (Value.const_isLocal 0).proper
  · exact (Value.const_isLocal 0).proper

/-- An operand is a placeholder only if all of it is a name bound to one. -/
theorem evaluate_external {symbols : SymbolTable} {s : Statement} {text : Text}
    (h : (evaluate symbols s text).result.isExternal = true) :
    ∃ b, symbols.lookup text = some b ∧ b.value = (evaluate symbols s text).result := by
  unfold evaluate at h ⊢
  split at h
  · rename_i t ht
    obtain rfl := Expression.ofText?_term ht
    exact evaluateTerm_external h
  · simp only [bind_result] at h
    split at h
    · rename_i value hv
      -- a sum is a word of this module
      rw [pure_result, (Value.add_isLocal hv).not_external] at h
      cases h
    · cases h
  · cases h

/-- The foreign symbol behind an operand that is a placeholder. -/
theorem evaluate_imported {symbols : SymbolTable} (hw : symbols.WF) {s : Statement} {text : Text}
    (h : (evaluate symbols s text).result.isExternal = true) :
    ∃ b, symbols.lookup text = some b ∧ b.WF ∧ b.isImported = true := by
  obtain ⟨b, hb, hv⟩ := evaluate_external h
  have wf := hw.lookup hb
  refine ⟨b, hb, wf, ?_⟩
  rw [wf.imported, hv]
  exact h

/-! ## Registers -/

theorem register_sound (s : Statement) (text : Text) : (register s text).Sound := by
  unfold register
  split
  · exact Sound.pure _
  · exact Sound.report rfl _

theorem controlRegister_sound (s : Statement) (text : Text) : (controlRegister s text).Sound := by
  unfold controlRegister
  split
  · exact Sound.pure _
  · exact Sound.report rfl _

theorem indexed_sound (s : Statement) (text : Text) : (indexed s text).Sound := by
  unfold indexed
  split
  · exact Sound.pure _
  · exact Sound.report rfl _

/-! ## Fields -/

/-- The linker is told a named symbol for every placeholder. -/
theorem link_sound {symbols : SymbolTable} (hw : symbols.WF) (s : Statement) (address : Word) (text : Text)
    (field : Field) : (link symbols s address text (evaluate symbols s text).result field.name).Sound := by
  unfold link
  split
  · rename_i he
    obtain ⟨b, hb, wf, hi⟩ := evaluate_imported hw he
    obtain ⟨hm, hf⟩ := wf.foreign hi
    rw [hb]
    simp only [hi, if_true]
    exact Effects.Sound.imported ⟨hm, hf, field, rfl⟩
  · split
    · exact Effects.Sound.relocations _
    · exact Sound.pure _

theorem constant_sound {symbols : SymbolTable} (hw : symbols.WF) (s : Statement) (address : Word) (field : Field)
    (text : Text) (limit : Word) : (constant symbols s address field.name text limit).Sound := by
  unfold constant
  refine Sound.bind (evaluate_sound ..) ?_
  split
  · exact Sound.bind (link_sound hw ..) (Sound.pure _)
  · split
    · exact Sound.report rfl _
    · split
      · exact Sound.report rfl _
      · exact Sound.pure _

theorem wholeWord_sound {symbols : SymbolTable} (hw : symbols.WF) (s : Statement) (address : Word) (field : Field)
    (text : Text) : (wholeWord symbols s address field.name text).Sound :=
  Sound.bind (evaluate_sound ..) (Sound.bind (link_sound hw ..) (Sound.pure _))

end Sigma16
