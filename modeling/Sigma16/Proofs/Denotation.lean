/-
What an expression denotes. The bindings of a symbol table give it a value or none, without a statement
around it and without a log. Evaluating it in a statement agrees: the result is that value and nothing is
reported, or something is reported and there is no value. What is wrong counts as zero.
-/
import Sigma16.Proofs.Evaluation

namespace Sigma16

open Outcome

namespace SymbolTable

def termValue? (t : SymbolTable) (text : Text) : Option Value :=
  match Term.ofText text with
  | .name name => (t.lookup name).map (·.value)
  | .decimal digits => ((Literal.decimal digits).toOption.bind Word.ofInt?).map .const
  | .hex digits => (Literal.hex digits).toOption.map .const

/-- The value that an expression has under the bindings of a table. -/
def value? (t : SymbolTable) (text : Text) : Option Value :=
  match Expression.ofText? text with
  | some (.term term) => t.termValue? term
  | some (.sum left right) =>
    (t.termValue? left).bind fun x => (t.termValue? right).bind fun y => (x.add y).toOption
  | none => none

theorem termValue?_eq (t : SymbolTable) (s : Statement) (text : Text) : t.termValue? text =
    if (evaluateTerm t s text).effects.errors = [] then some (evaluateTerm t s text).result else none := by
  unfold termValue? evaluateTerm
  cases Term.ofText text with
  | name name =>
    simp only
    cases t.lookup name <;> rfl
  | decimal digits =>
    simp only
    cases (Literal.decimal digits).toOption.bind Word.ofInt? <;> rfl
  | hex digits =>
    simp only
    cases (Literal.hex digits).toOption <;> rfl

/-- An expression has a value exactly where evaluating it reports nothing, and then the result is the
value. -/
theorem value?_eq (t : SymbolTable) (s : Statement) (text : Text) : t.value? text =
    if (evaluate t s text).effects.errors = [] then some (evaluate t s text).result else none := by
  unfold value? evaluate
  cases Expression.ofText? text with
  | none => rfl
  | some expression =>
    cases expression with
    | term term => exact termValue?_eq t s term
    | sum left right =>
      simp only [termValue?_eq t s, bind_effects, bind_result, Effects.append_errors, List.append_eq_nil_iff]
      -- the log of a sum is clean only if the logs of both terms are, and the sum exists
      by_cases hx : (evaluateTerm t s left).effects.errors = []
      · by_cases hy : (evaluateTerm t s right).effects.errors = []
        · simp only [hx, hy, if_true, true_and, Option.bind_some]
          cases (evaluateTerm t s left).result.add (evaluateTerm t s right).result <;> rfl
        · simp [hy]
      · simp [hx]

theorem value?_of_errors {t : SymbolTable} {s : Statement} {text : Text}
    (h : (evaluate t s text).effects.errors = []) : t.value? text = some (evaluate t s text).result := by
  rw [value?_eq t s, if_pos h]

theorem evaluate_of_value? {t : SymbolTable} {text : Text} {v : Value} (h : t.value? text = some v) (s : Statement) :
    (evaluate t s text).result = v ∧ (evaluate t s text).effects.errors = [] := by
  rw [value?_eq t s] at h
  split at h
  · rename_i he
    exact ⟨Option.some.inj h, he⟩
  · cases h

/-- The value that an expression counts for, right or wrong: a wrong term counts as zero, and so do a sum that
does not exist and a text that is no expression. -/
def denote (t : SymbolTable) (text : Text) : Value :=
  match Expression.ofText? text with
  | some (.term term) => (t.termValue? term).getD (.const 0)
  | some (.sum left right) =>
    (((t.termValue? left).getD (.const 0)).add ((t.termValue? right).getD (.const 0))).toOption.getD (.const 0)
  | none => .const 0

theorem evaluateTerm_result (t : SymbolTable) (s : Statement) (text : Text) :
    (evaluateTerm t s text).result = (t.termValue? text).getD (.const 0) := by
  unfold termValue? evaluateTerm
  cases Term.ofText text with
  | name name =>
    simp only
    cases t.lookup name <;> rfl
  | decimal digits =>
    simp only
    cases (Literal.decimal digits).toOption.bind Word.ofInt? <;> rfl
  | hex digits =>
    simp only
    cases (Literal.hex digits).toOption <;> rfl

theorem evaluate_result (t : SymbolTable) (s : Statement) (text : Text) :
    (evaluate t s text).result = t.denote text := by
  unfold denote evaluate
  cases Expression.ofText? text with
  | none => rfl
  | some expression =>
    cases expression with
    | term term => exact evaluateTerm_result t s term
    | sum left right =>
      simp only [bind_result, evaluateTerm_result]
      cases ((t.termValue? left).getD (.const 0)).add ((t.termValue? right).getD (.const 0)) <;> rfl

end SymbolTable

/-! ## Numerals -/

/-- The word of a decimal, which it denotes under any bindings. -/
def numeral? (text : Text) : Option Word :=
  match Term.ofText text with
  | .decimal digits => (Literal.decimal digits).toOption.bind Word.ofInt?
  | _ => none

theorem evaluate_numeral {text : Text} {w : Word} (h : numeral? text = some w) (symbols : SymbolTable) (s : Statement) :
    evaluate symbols s text = pure (.const w) := by
  unfold numeral? at h
  split at h
  · rename_i digits ht
    have hterm : Text.isTerm text = true := by
      unfold Term.ofText at ht
      split at ht
      · cases ht
      · split at ht
        · simp [Text.isTerm, *]
        · cases ht
    unfold evaluate Expression.ofText?
    rw [if_pos hterm]
    simp only [evaluateTerm, ht, h]
  · cases h

/-- A numeral that fits its field is the value of the field. -/
theorem constant_numeral {text : Text} {w limit : Word} (h : numeral? text = some w) (hw : w ≤ limit)
    (symbols : SymbolTable) (s : Statement) (address : Word) (field : Text) :
    constant symbols s address field text limit = pure w := by
  unfold constant
  rw [evaluate_numeral h, pure_bind_eq]
  exact if_neg (UInt16.not_lt.2 hw)

end Sigma16
