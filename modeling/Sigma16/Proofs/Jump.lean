/-
Where an `org` or a `block` leads. Its operand counts for a value also where something is wrong with it, and if the
value is of the right kind the location counter follows it: a report on the operand does not keep the counter where it
is. It stays where the operand has a value of the wrong kind. Shown for one statement in a well-formed context, and for
the lines of a source in the contexts that a run reaches.
-/
import Sigma16.Proofs.Persistence

namespace Sigma16

open Outcome

/-! ## One statement -/

/-- Where an operand of value `v` takes the location counter. An `org` goes to any address of the module, and a `block`
goes any fixed number of words further. -/
def Statement.destination? (s : Statement) (counter v : Value) : Option Value :=
  match s.operation.directive? with
  | some .org => if v.isExternal then none else some v
  | some .block => if v.isExternal || v.isRelocatable then none else some { counter with word := counter.word + v.word }
  | _ => none

theorem evaluate_clean {symbols : SymbolTable} {s : Statement} {text : Text} :
    (evaluate symbols s text).effects.errors = [] ↔ (symbols.value? text).isSome = true := by
  rw [SymbolTable.value?_eq symbols s]
  split <;> simp [*]

/-- A placeholder is what a bound name stands for, so nothing is wrong with an expression that denotes one. -/
theorem SymbolTable.value?_of_external {symbols : SymbolTable} {text : Text}
    (h : (symbols.denote text).isExternal = true) : (symbols.value? text).isSome = true := by
  unfold denote at h
  unfold value?
  split at h
  · rename_i term hterm
    cases hv : symbols.termValue? term with
    | none =>
      rw [hv] at h
      cases h
    | some v => rfl
  · rename_i left right hsum
    cases hv : ((symbols.termValue? left).getD (.const 0)).add ((symbols.termValue? right).getD (.const 0)) with
    | error fault =>
      rw [hv] at h
      cases h
    | ok v =>
      rw [hv] at h
      have hlocal : v.isExternal = false := (Value.add_isLocal hv).not_external
      exact absurd h (by simp [Except.toOption, hlocal])
  · cases h

theorem denote_proper {symbols : SymbolTable} (h : symbols.WF) (s : Statement) (text : Text) :
    (symbols.denote text).Proper :=
  SymbolTable.evaluate_result symbols s text ▸ evaluate_proper h s text

theorem Value.IsLocal.eq_const {v : Value} (h : v.IsLocal) (hr : ¬ v.isRelocatable = true) : v = .const v.word := by
  rcases h with h | h
  · exact h
  · exact absurd (by rw [h]; rfl) hr

theorem orgTarget_spec {c : Context} {s : Statement} (hd : s.operation.directive? = some .org) :
    (orgTarget c s).result = (s.destination? c.counter (c.symbols.denote s.parts.operands)).getD c.counter ∧
    ((orgTarget c s).effects.errors = [] ↔ (c.symbols.value? s.parts.operands).isSome = true ∧
      (s.destination? c.counter (c.symbols.denote s.parts.operands)).isSome = true) := by
  unfold orgTarget Statement.destination?
  simp only [hd, bind_result, bind_effects, Effects.append_errors, List.append_eq_nil_iff, evaluate_clean,
    SymbolTable.evaluate_result]
  by_cases he : (c.symbols.denote s.parts.operands).isExternal = true
  · simp [he, report]
  · simp [he]

theorem blockTarget_spec {c : Context} (hc : c.WF) {s : Statement} (hd : s.operation.directive? = some .block) :
    (blockTarget c s).result = (s.destination? c.counter (c.symbols.denote s.parts.operands)).getD c.counter ∧
    ((blockTarget c s).effects.errors = [] ↔ (c.symbols.value? s.parts.operands).isSome = true ∧
      (s.destination? c.counter (c.symbols.denote s.parts.operands)).isSome = true) := by
  have hproper := denote_proper hc.symbols s s.parts.operands
  unfold blockTarget Statement.destination?
  simp only [hd, bind_result, bind_effects, Effects.append_errors, List.append_eq_nil_iff, evaluate_clean,
    SymbolTable.evaluate_result]
  by_cases hr : (c.symbols.denote s.parts.operands).isRelocatable = true
  · simp [hr, report]
  · by_cases he : (c.symbols.denote s.parts.operands).isExternal = true
    · simp [hr, he, Value.add_eq, report]
    · have hconst := (hproper.local_of_not_external (eq_false_of_ne_true he)).eq_const hr
      have hsum : c.counter.add (c.symbols.denote s.parts.operands) =
          .ok { c.counter with word := c.counter.word + (c.symbols.denote s.parts.operands).word } := by
        rw [hconst, Value.add_const hc.counter, ← hc.counter.origin]
        rfl
      simp [hr, he, hsum]

theorem Operation.isJump_iff {op : Operation} :
    op.isJump = true ↔ op.directive? = some .org ∨ op.directive? = some .block := by
  simp [isJump]

/-- An `org` or a `block` follows the value that its operand counts for, and reports nothing exactly if the operand has
a value and the value is of the right kind. -/
theorem advance_jump {c : Context} (hc : c.WF) {s : Statement} (hj : s.operation.isJump = true) :
    ∃ target : Outcome Value, advance c s = jump c s target ∧
      target.result = (s.destination? c.counter (c.symbols.denote s.parts.operands)).getD c.counter ∧
      (target.effects.errors = [] ↔ (c.symbols.value? s.parts.operands).isSome = true ∧
        (s.destination? c.counter (c.symbols.denote s.parts.operands)).isSome = true) := by
  rcases Operation.isJump_iff.1 hj with hd | hd
  · exact ⟨orgTarget c s, by rw [advance, hd], orgTarget_spec hd⟩
  · exact ⟨blockTarget c s, by rw [advance, hd], blockTarget_spec hc hd⟩

/-- The values for which the counter does not move, although something is wrong with the operand. -/
theorem Statement.destination?_getD_eq {s : Statement} (hj : s.operation.isJump = true) {counter v : Value}
    (hv : v.isExternal = false) : (s.destination? counter v).getD counter = counter ↔
      (s.operation.directive? = some .org ∧ v = counter) ∨
      (s.operation.directive? = some .block ∧ (v.isRelocatable = true ∨ v.word = 0)) := by
  unfold destination?
  rcases Operation.isJump_iff.1 hj with hd | hd
  · simp [hd, hv]
  · simp only [hd, hv]
    by_cases hr : v.isRelocatable = true
    · simp [hr]
    · simp only [eq_false_of_ne_true hr, Bool.or_self, Bool.false_eq_true, if_false, Option.getD_some, false_and,
        true_and, false_or, reduceCtorEq, Option.some.injEq]
      constructor
      · intro h
        simpa using congrArg Value.word h
      · intro h
        rw [h, UInt16.add_zero]

/-! ## The lines of a source -/

/-- The context and the statement of a line when the label is bound and the location counter has not moved yet. -/
def beforeAdvance (name source : Text) (i : Nat) : Option (Context × Statement) :=
  (Text.sourceLines source)[i]?.map fun text =>
    let c := contextAfter name source i
    let s := Statement.checked (1 + i) c.counter text
    ((bindLabel c s).1, s.note (bindLabel c s).2)

theorem beforeAdvance_spec {name source : Text} {i : Nat} {c : Context} {s : Statement}
    (h : beforeAdvance name source i = some (c, s)) :
    c.WF ∧ s.address = c.counter ∧ contextAfter name source (i + 1) = (advance c s).1 ∧
    (Assembly.ofSource (.initial name) source).statements[i]? = some (advance c s).2 := by
  obtain ⟨text, htext, heq⟩ := Option.map_eq_some_iff.1 h
  obtain ⟨rfl, rfl⟩ := Prod.mk.inj heq
  refine ⟨bindLabel_wf (contextAfter_wf name source i) _, ?_, contextAfter_succ htext, ?_⟩
  · rw [bindLabel_counter, Statement.note_address]
    exact (Statement.checked_placed _ _ text).address
  · rw [ofSource_getElem?, htext]
    rfl

/-- An `org` or a `block` on which something is reported. It always leads to the counter after it. The counter stays
where the operand has a value, which is then of the wrong kind. Where the operand has none, the counter follows what the
operand counts for all the same: to the address of an `org`, and over the words of a `block`. -/
theorem advance_rejected (name source : Text) (i : Nat) (c : Context) (s : Statement)
    (hreached : beforeAdvance name source i = some (c, s)) (hjump : s.operation.isJump = true)
    (herrors : (advance c s).2.errors ≠ s.errors) :
    let v := c.symbols.denote s.parts.operands
    let after := (contextAfter name source (i + 1)).counter
    after = (advance c s).1.counter ∧ s.address = c.counter ∧ (advance c s).2.orgAddress = some after ∧
    after = (s.destination? c.counter v).getD c.counter ∧
    (after = c.counter ↔ (c.symbols.value? s.parts.operands).isSome = true ∨
      (s.operation.directive? = some .org ∧ v = c.counter) ∨
      (s.operation.directive? = some .block ∧ (v.isRelocatable = true ∨ v.word = 0))) := by
  intro v after
  obtain ⟨hwf, haddress, hnext, -⟩ := beforeAdvance_spec hreached
  obtain ⟨target, hadvance, hresult, hclean⟩ := advance_jump hwf hjump
  have hafter : after = target.result := by
    show (contextAfter name source (i + 1)).counter = target.result
    rw [hnext, hadvance]
    rfl
  have hreported : target.effects.errors ≠ [] := by
    intro h
    rw [hadvance] at herrors
    exact herrors (by simp [jump, h])
  refine ⟨congrArg Context.counter hnext, haddress, by rw [hadvance, hafter]; rfl, hafter.trans hresult, ?_⟩
  rw [hafter, hresult]
  by_cases hvalue : (c.symbols.value? s.parts.operands).isSome = true
  · -- the value is of the wrong kind
    have hkind : s.destination? c.counter v = none := by
      rw [← Option.not_isSome_iff_eq_none]
      exact fun h => hreported (hclean.2 ⟨hvalue, h⟩)
    rw [hkind]
    exact iff_of_true rfl (.inl hvalue)
  · have hlocal : v.isExternal = false := eq_false_of_ne_true fun h => hvalue (SymbolTable.value?_of_external h)
    rw [Statement.destination?_getD_eq hjump hlocal, or_iff_right hvalue]

/-- A block of three words and of as many as an unbound name says is a block of three words. -/
theorem advance_rejected_block : ∃ (c : Context) (s : Statement),
    beforeAdvance [] " data 1\n block 3+nowhere" 1 = some (c, s) ∧ s.operation.isJump = true ∧
    (advance c s).2.errors ≠ s.errors ∧ c.counter = .relocatable 1 ∧
    (contextAfter [] " data 1\n block 3+nowhere" 2).counter = .relocatable 4 := by
  have hrun : (beforeAdvance [] " data 1\n block 3+nowhere" 1).map (fun x => (x.2.operation.isJump,
      decide ((advance x.1 x.2).2.errors = x.2.errors), x.1.counter,
      (x.2.destination? x.1.counter (x.1.symbols.denote x.2.parts.operands)).getD x.1.counter)) =
      some (true, false, .relocatable 1, .relocatable 4) := by
    decide +kernel
  obtain ⟨⟨c, s⟩, hreached, h⟩ := Option.map_eq_some_iff.1 hrun
  obtain ⟨hjump, herrors, hcounter, hdestination⟩ := by simpa only [Prod.mk.injEq, decide_eq_false_iff_not] using h
  obtain ⟨-, -, -, hafter, -⟩ := advance_rejected [] _ 1 c s hreached hjump herrors
  exact ⟨c, s, hreached, hjump, herrors, hcounter, hafter.trans hdestination⟩

/-- An `org` to a name that is not bound places what follows over what stands before. -/
theorem advance_org_unbound : ∃ (c : Context) (s : Statement),
    beforeAdvance [] " data 1\n org nowhere" 1 = some (c, s) ∧ s.operation.directive? = some .org ∧
    (advance c s).2.errors ≠ s.errors ∧ (advance c s).1.counter ≠ c.counter ∧
    (advance c s).2.orgAddress ≠ some s.address := by
  have hrun : (beforeAdvance [] " data 1\n org nowhere" 1).map (fun x => (x.2.operation.directive?,
      decide ((advance x.1 x.2).2.errors = x.2.errors), decide ((advance x.1 x.2).1.counter = x.1.counter),
      decide ((advance x.1 x.2).2.orgAddress = some x.2.address))) = some (some .org, false, false, false) := by
    decide +kernel
  obtain ⟨⟨c, s⟩, hreached, h⟩ := Option.map_eq_some_iff.1 hrun
  obtain ⟨hdirective, herrors, hcounter, horg⟩ := by simpa only [Prod.mk.injEq, decide_eq_false_iff_not] using h
  exact ⟨c, s, hreached, hdirective, herrors, hcounter, horg⟩

end Sigma16
