/-
Where names are used. The log of a name holds the lines that use it, first those whose operands are evaluated when the
source is laid out and then those of the code, each in the order of the lines. A line stands there as often as the name
is a term of an expression that is evaluated, or is exported: an `org` and a `block` are evaluated in layout only, and
an `equ` only if it binds its label. What is evaluated follows from the statements alone.
-/
import Sigma16.Proofs.Definition

namespace Sigma16

open Outcome

/-! ## Terms -/

/-- The terms of an expression, from left to right. -/
def Expression.terms : Expression → List Text
  | .term t => [t]
  | .sum left right => [left, right]

/-- The terms of a text; none if it is no expression. -/
def Text.terms (t : Text) : List Text := (Expression.ofText? t).elim [] Expression.terms

namespace SymbolTable

/-- The texts that are bound names. -/
def boundNames (symbols : SymbolTable) (texts : List Text) : List Text :=
  texts.filter fun t => Text.isName t && symbols.contains t

variable (symbols : SymbolTable)

@[simp] theorem boundNames_nil : symbols.boundNames [] = [] := rfl

@[simp] theorem boundNames_append (xs ys : List Text) :
    symbols.boundNames (xs ++ ys) = symbols.boundNames xs ++ symbols.boundNames ys := List.filter_append xs ys

theorem boundNames_singleton (t : Text) :
    symbols.boundNames [t] = if Text.isName t && symbols.contains t then [t] else [] := by
  unfold boundNames
  rw [List.filter_cons, List.filter_nil]

theorem count_boundNames {n : Text} (hn : Text.isName n = true) (texts : List Text) :
    (symbols.boundNames texts).count n = if symbols.contains n then texts.count n else 0 := by
  unfold boundNames
  split
  · rename_i hbound
    exact List.count_filter (by rw [hn, hbound]; rfl)
  · rename_i hfree
    rw [List.count_eq_zero]
    intro hmem
    have hboth := (List.mem_filter.1 hmem).2
    simp only [hn, Bool.true_and] at hboth
    exact hfree hboth

end SymbolTable

/-! ## What is used -/

section Uses

variable (symbols : SymbolTable) (s : Statement)

theorem evaluateTerm_uses (t : Text) : (evaluateTerm symbols s t).effects.uses = symbols.boundNames [t] := by
  rw [SymbolTable.boundNames_singleton]
  unfold evaluateTerm Term.ofText SymbolTable.contains
  by_cases hname : Text.isName t = true
  · rw [if_pos hname, hname]
    simp only [Bool.true_and]
    cases symbols.lookup t <;> rfl
  · rw [if_neg hname, eq_false_of_ne_true hname]
    by_cases hdecimal : Text.isDecimal t = true
    · rw [if_pos hdecimal]
      simp only
      cases (Literal.decimal t).toOption.bind Word.ofInt? <;> rfl
    · rw [if_neg hdecimal]
      simp only
      cases (Literal.hex t).toOption <;> rfl

/-- Evaluation uses the terms that are bound names. -/
theorem evaluate_uses (text : Text) : (evaluate symbols s text).effects.uses = symbols.boundNames text.terms := by
  unfold evaluate Text.terms
  cases Expression.ofText? text with
  | none => rfl
  | some e =>
    cases e with
    | term t => exact evaluateTerm_uses symbols s t
    | sum left right =>
      have hterms : (some (Expression.sum left right)).elim [] Expression.terms = [left] ++ [right] := rfl
      rw [hterms, SymbolTable.boundNames_append, ← evaluateTerm_uses symbols s, ← evaluateTerm_uses symbols s]
      simp only [bind_effects, Effects.append_uses]
      split <;> simp

theorem link_uses (address : Word) (text : Text) (value : Value) (field : Text) :
    (link symbols s address text value field).effects.uses = [] := by
  unfold link link.undefinedExternal
  split
  · split
    · split <;> rfl
    · rfl
  · split <;> rfl

theorem fieldValue_uses (field : Field) (text : Text) :
    (fieldValue symbols s field text).effects.uses = symbols.boundNames text.terms := by
  unfold fieldValue
  simp only
  split
  · simp [wholeWord, evaluate_uses, link_uses]
  · unfold constant
    rw [bind_effects, Effects.append_uses, evaluate_uses]
    split
    · simp [link_uses]
    · split
      · simp
      · split <;> simp

end Uses

/-- The expression in an operand. -/
def Slot.expression? : Slot → Text → Option Text
  | .value _, text => some text
  | .indexed _ _, text => (indexed? text).map (·.1)
  | .register _, _ | .control _, _ => none

namespace Statement

/-- The texts that the code of a statement takes for names where they are bound: the terms of its expressions, if it
has as many operands as it should have, or the names that it exports. -/
def codeTerms (s : Statement) : List Text :=
  match s.operation.encoding? with
  | some (.words shape) =>
    if s.operands.length = shape.slots.length then
      (shape.slots.zip s.operands).flatMap fun (slot, text) => (slot.expression? text).elim [] Text.terms
    else []
  | some .exports => s.operands
  | _ => []

end Statement

section Code

variable (symbols : SymbolTable) (s : Statement)

theorem register_uses (text : Text) : (register s text).effects.uses = [] := by
  unfold register
  split <;> rfl

theorem controlRegister_uses (text : Text) : (controlRegister s text).effects.uses = [] := by
  unfold controlRegister
  split <;> rfl

theorem indexed_uses (text : Text) : (indexed s text).effects.uses = [] := by
  unfold indexed
  split <;> rfl

/-- The zero that stands for a wrong operand uses no name. -/
theorem boundNames_displacement (text : Text) : symbols.boundNames (indexed s text).result.1.terms =
    symbols.boundNames (((indexed? text).map (·.1)).elim [] Text.terms) := by
  unfold indexed
  cases indexed? text <;> rfl

theorem placeOperand_uses (slot : Slot) (text : Text) : (placeOperand symbols s slot text).effects.uses =
    symbols.boundNames ((slot.expression? text).elim [] Text.terms) := by
  cases slot with
  | register field => simp [placeOperand, Slot.expression?, register_uses]
  | control field => simp [placeOperand, Slot.expression?, controlRegister_uses]
  | value field => simp [placeOperand, Slot.expression?, fieldValue_uses]
  | indexed index field =>
    rw [Slot.expression?, ← boundNames_displacement symbols s]
    simp [placeOperand, indexed_uses, fieldValue_uses]

theorem placeOperands_uses : ∀ (slots : List Slot) (texts : List Text),
    (placeOperands symbols s slots texts).effects.uses =
      symbols.boundNames ((slots.zip texts).flatMap fun (slot, text) => (slot.expression? text).elim [] Text.terms)
  | [], _ => by simp [placeOperands]
  | _ :: _, [] => by simp [placeOperands]
  | slot :: slots, text :: texts => by
    simp [placeOperands, placeOperand_uses, placeOperands_uses slots texts]

theorem exportNames_uses : ∀ names : List Text, (exportNames symbols s names).effects.uses = symbols.boundNames names
  | [] => rfl
  | name :: names => by
    have hname : (exportName symbols s name).effects.uses = symbols.boundNames [name] := by
      rw [SymbolTable.boundNames_singleton]
      unfold exportName SymbolTable.contains
      by_cases hvalid : Text.isName name = true
      · rw [if_pos hvalid, hvalid]
        simp only [Bool.true_and]
        cases symbols.lookup name <;> rfl
      · rw [if_neg hvalid, eq_false_of_ne_true hvalid]
        rfl
    rw [exportNames, bind_effects, Effects.append_uses, hname, exportNames_uses names, ← SymbolTable.boundNames_append,
      List.singleton_append]

theorem encode_uses : (encode symbols s).effects.uses = symbols.boundNames s.codeTerms := by
  unfold encode Statement.codeTerms
  cases s.operation.encoding? with
  | none => rfl
  | some encoding =>
    cases encoding with
    | nothing => rfl
    | origin => rfl
    | words shape =>
      simp only [encodeWords]
      split
      · simp [placeOperands_uses]
      · rfl
    | exports =>
      simp only
      split
      · rename_i hempty
        rw [List.isEmpty_iff.1 hempty]
        rfl
      · simp [exportNames_uses]

end Code

/-! ## What layout evaluates -/

namespace Statement

instance (s : Statement) (name : Text) : Decidable (s.Defines name) :=
  decidable_of_iff (s.parts.label = name ∧ Text.isName name = true ∧ s.operation.directive? ≠ some .moduleName ∧
      (s.operation.directive? = some .importName → ∃ moduleName ∈ s.operands, ∃ foreignName ∈ s.operands,
        s.operands = [moduleName, foreignName] ∧ Text.isName moduleName = true ∧ Text.isName foreignName = true)) <| by
    constructor
    · rintro ⟨hlabel, hvalid, hmodule, hnames⟩
      refine ⟨hlabel, hvalid, hmodule, fun hd => ?_⟩
      obtain ⟨moduleName, -, foreignName, -, hboth⟩ := hnames hd
      exact ⟨moduleName, foreignName, hboth⟩
    · rintro ⟨hlabel, hvalid, hmodule, hnames⟩
      refine ⟨hlabel, hvalid, hmodule, fun hd => ?_⟩
      obtain ⟨moduleName, foreignName, ho, hboth⟩ := hnames hd
      exact ⟨moduleName, by simp [ho], foreignName, by simp [ho], ho, hboth⟩

/-- Does one of the statements define the name? -/
def DefinedBy (statements : List Statement) (name : Text) : Prop := ∃ s ∈ statements, s.Defines name

instance (statements : List Statement) (name : Text) : Decidable (DefinedBy statements name) :=
  inferInstanceAs (Decidable (∃ s ∈ statements, s.Defines name))

theorem definedBy_take {statements : List Statement} {k : Nat} {name : Text} :
    DefinedBy (statements.take k) name ↔ ∃ j < k, ∃ s, statements[j]? = some s ∧ s.Defines name := by
  constructor
  · rintro ⟨s, hs, hd⟩
    obtain ⟨j, hj⟩ := List.mem_iff_getElem?.1 hs
    rw [List.getElem?_take] at hj
    split at hj
    · exact ⟨j, ‹_›, s, hj, hd⟩
    · cases hj
  · rintro ⟨j, hj, s, hs, hd⟩
    exact ⟨s, List.mem_iff_getElem?.2 ⟨j, by rw [List.getElem?_take, if_pos hj, hs]⟩, hd⟩

/-- How often layout uses a name at a statement that follows others. The operand of an `equ` is evaluated if the
statement gives its label a meaning, and before it does; an `org` and a `block` see their own label. -/
def usesInLayout (s : Statement) (earlier : List Statement) (name : Text) : Nat :=
  match s.operation.directive? with
  | some .equ =>
    if s.hasLabel ∧ ¬ DefinedBy earlier s.parts.label ∧ DefinedBy earlier name then
      s.parts.operands.terms.count name
    else 0
  | some .org | some .block =>
    if DefinedBy (earlier ++ [s]) name then s.parts.operands.terms.count name else 0
  | _ => 0

/-- A name that layout uses at a statement is defined by it or by one before it. -/
theorem definedBy_of_usesInLayout {s : Statement} {earlier : List Statement} {n : Text}
    (h : s.usesInLayout earlier n ≠ 0) : DefinedBy (earlier ++ [s]) n := by
  unfold usesInLayout at h
  split at h
  · split at h
    · rename_i hcond
      obtain ⟨t, ht, hd⟩ := hcond.2.2
      exact ⟨t, List.mem_append_left _ ht, hd⟩
    · exact absurd rfl h
  · split at h
    · assumption
    · exact absurd rfl h
  · split at h
    · assumption
    · exact absurd rfl h
  · exact absurd rfl h

/-- The lines at which layout uses a name, each as often as it does. -/
def layoutUses (statements : List Statement) (name : Text) : List Int :=
  statements.zipIdx.flatMap fun (s, i) => List.replicate (s.usesInLayout (statements.take i) name) s.line

/-- The lines at which code uses a name, each as often as it does. -/
def codeUses (statements : List Statement) (name : Text) : List Int :=
  statements.flatMap fun s => List.replicate (s.codeTerms.count name) s.line

theorem layoutUses_concat (ss : List Statement) (s : Statement) (name : Text) :
    layoutUses (ss ++ [s]) name = layoutUses ss name ++ List.replicate (s.usesInLayout ss name) s.line := by
  unfold layoutUses
  rw [List.zipIdx_append, List.flatMap_append]
  congr 1
  · rw [List.flatMap_def, List.flatMap_def]
    congr 1
    apply List.map_congr_left
    rintro ⟨t, i⟩ hmem
    have hi : i < ss.length := (List.getElem?_eq_some_iff.1 (List.mem_zipIdx_iff_getElem?.1 hmem)).1
    simp only [List.take_append_of_le_length (Nat.le_of_lt hi)]
  · simp

end Statement

/-! ## One line -/

namespace SymbolTable

theorem contains_eq_binding? (t : SymbolTable) (name : Text) : t.contains name = (t.binding? name).isSome :=
  Option.isSome_map.symm

/-- The lines that use a name; none if it is not bound. -/
def linesOf (t : SymbolTable) (name : Text) : List Int := (t.lookup name).elim [] Binding.uses

theorem linesOf_useAll (t : SymbolTable) (line : Int) (names : List Text) (n : Text) :
    (t.useAll line names).linesOf n =
      t.linesOf n ++ List.replicate (if t.contains n then names.count n else 0) line := by
  unfold linesOf contains
  rw [lookup_useAll]
  cases hb : t.lookup n with
  | none => rfl
  | some b =>
    show b.uses ++ List.replicate (names.count b.name) line = _
    rw [lookup_name hb]
    rfl

theorem linesOf_useAll_boundNames (t : SymbolTable) (line : Int) {n : Text} (hn : Text.isName n = true)
    (texts : List Text) : (t.useAll line (t.boundNames texts)).linesOf n =
      t.linesOf n ++ List.replicate (if t.contains n then texts.count n else 0) line := by
  rw [linesOf_useAll, t.count_boundNames hn]
  split <;> rfl

/-- A new binding has no uses yet. -/
theorem linesOf_extend (t : SymbolTable) (line : Int) {o : Outcome (Option Binding)}
    (h : ∀ b, o.result = some b → b.uses = []) (n : Text) :
    (t.extend line o).linesOf n = (t.useAll line o.effects.uses).linesOf n := by
  unfold linesOf
  rw [lookup_extend]
  cases (t.useAll line o.effects.uses).lookup n with
  | some b => rfl
  | none =>
    cases hr : o.result with
    | none => rfl
    | some b =>
      rw [Option.none_or, Option.toList_some, List.find?_singleton]
      split
      · exact h b hr
      · rfl

end SymbolTable

section Line

variable {n : Text} (hn : Text.isName n = true) (c : Context) (s : Statement)

theorem newBinding_uses : (newBinding c s).effects.uses =
    c.symbols.boundNames (if s.operation.directive? = some .equ then s.parts.operands.terms else []) := by
  unfold newBinding
  split
  · rename_i hd
    rw [if_pos hd]
    simp [evaluate_uses]
  · rename_i hd
    rw [if_neg (by rw [hd]; decide)]
    split
    · split <;> rfl
    · rfl
  · rename_i hequ _
    rw [if_neg hequ]
    rfl

include hn

/-- A label is bound without any use but those of an `equ` that binds it. -/
theorem bindLabel_linesOf : (bindLabel c s).1.symbols.linesOf n = c.symbols.linesOf n ++
    List.replicate (if s.operation.directive? = some .equ ∧ s.hasLabel ∧ ¬ c.symbols.contains s.parts.label ∧
      c.symbols.contains n then s.parts.operands.terms.count n else 0) s.line := by
  rw [bindLabel_eq]
  by_cases hl : s.hasLabel = true
  · rw [if_pos hl]
    by_cases hm : s.operation.directive? = some .moduleName
    · simp [hm]
    rw [if_neg hm]
    cases hb : c.symbols.lookup s.parts.label with
    | some b => simp [SymbolTable.contains, hb]
    | none =>
      have hnew (b : Binding) (h : (newBinding c s).result = some b) : b.uses = [] := (newBinding_cases h).uses
      have hfree : c.symbols.contains s.parts.label = false := SymbolTable.contains_eq_false.2 hb
      simp only
      rw [SymbolTable.linesOf_extend _ _ hnew, newBinding_uses, SymbolTable.linesOf_useAll_boundNames _ _ hn]
      by_cases hequ : s.operation.directive? = some .equ <;> simp [hequ, hl, hfree]
  · rw [if_neg hl, if_neg fun h => hl h.2.1, List.replicate_zero, List.append_nil]
    split <;> rfl

/-- The location counter is moved without any use but those of an `org` or a `block`. -/
theorem advance_linesOf : (advance c s).1.symbols.linesOf n = c.symbols.linesOf n ++ List.replicate
    (if s.operation.isJump ∧ c.symbols.contains n then s.parts.operands.terms.count n else 0) s.line := by
  have horg : (orgTarget c s).effects.uses = c.symbols.boundNames s.parts.operands.terms := by
    unfold orgTarget
    rw [bind_effects, Effects.append_uses, evaluate_uses]
    split <;> simp
  have hblock : (blockTarget c s).effects.uses = c.symbols.boundNames s.parts.operands.terms := by
    unfold blockTarget
    rw [bind_effects, Effects.append_uses, evaluate_uses]
    split
    · simp
    · split <;> simp
  unfold advance Operation.isJump
  split
  · rename_i hd
    simp only [jump, horg, SymbolTable.linesOf_useAll_boundNames _ _ hn, hd, beq_self_eq_true, Bool.true_or, true_and]
  · rename_i hd
    simp only [jump, hblock, SymbolTable.linesOf_useAll_boundNames _ _ hn, hd, beq_self_eq_true, Bool.or_true, true_and]
  · rename_i hnotOrg hnotBlock
    have hstays : ¬ (s.operation.directive? == some .org || s.operation.directive? == some .block) = true := by
      rw [Bool.or_eq_true, beq_iff_eq, beq_iff_eq]
      exact fun h => h.elim hnotOrg hnotBlock
    rw [if_neg fun h => hstays h.1, List.replicate_zero, List.append_nil]
    split <;> rfl

omit hn in
theorem advance_contains (name : Text) : (advance c s).1.symbols.contains name = c.symbols.contains name := by
  rw [SymbolTable.contains_eq_binding?, advance_binding?, SymbolTable.contains_eq_binding?]

/-- What a line adds to the log of a name, said of its statement and of those before it. -/
theorem layOutLine_linesOf {line : Int} {source : Text} (hs : s.SameLine (.checked line c.counter source))
    {earlier : List Statement} (hbefore : ∀ name, c.symbols.contains name = true ↔ Statement.DefinedBy earlier name)
    (hafter : ∀ name, (layOutLine c line source).1.symbols.contains name = true ↔
      Statement.DefinedBy (earlier ++ [s]) name) :
    (layOutLine c line source).1.symbols.linesOf n =
      c.symbols.linesOf n ++ List.replicate (s.usesInLayout earlier n) s.line := by
  rw [layOutLine_eq] at hafter ⊢
  obtain ⟨hline, -, hparts, hoperation⟩ := hs
  generalize Statement.checked line c.counter source = r at hafter hline hparts hoperation
  have hlabel : s.hasLabel = r.hasLabel := congrArg (fun parts : Line => Text.isName parts.label) hparts
  -- an `org` or a `block` is evaluated after its label is bound, under the names that are bound after the line
  have hbound (name : Text) : (bindLabel c r).1.symbols.contains name = true ↔
      Statement.DefinedBy (earlier ++ [s]) name := by rw [← hafter, advance_contains]
  rw [advance_linesOf hn, bindLabel_linesOf hn, List.append_assoc, hline]
  simp only [Statement.note_operation, Statement.note_parts, Statement.note_line, List.replicate_append_replicate,
    hbefore, hbound]
  congr 2
  unfold Statement.usesInLayout Operation.isJump
  rw [hoperation, hparts, hlabel]
  cases hd : r.operation.directive? with
  | none => simp
  | some directive => cases directive <;> simp

end Line

/-! ## All lines -/

section Run

variable {name source : Text}

/-- After the first `k` lines the bound names are those that they define. -/
theorem contextAfter_contains {k : Nat} (hk : k ≤ (Text.sourceLines source).length) (label : Text) :
    (contextAfter name source k).symbols.contains label = true ↔
      Statement.DefinedBy ((assemble name source).statements.take k) label := by
  have hfree : (contextAfter name source k).symbols.lookup label = none ↔
      ¬ Statement.DefinedBy ((assemble name source).statements.take k) label := by
    rw [contextAfter_lookup_eq_none hk, Statement.definedBy_take]
    constructor
    · rintro h ⟨j, hj, s, hs, hd⟩
      exact h j hj s hs hd
    · intro h j hj s hs hd
      exact h ⟨j, hj, s, hs, hd⟩
  rw [← Bool.not_eq_false, SymbolTable.contains_eq_false, hfree, Decidable.not_not]

/-- The log of a name after the first `k` lines, by induction on `k`: each line adds what its statement uses. -/
theorem contextAfter_linesOf {n : Text} (hn : Text.isName n = true) {k : Nat}
    (hk : k ≤ (Text.sourceLines source).length) : (contextAfter name source k).symbols.linesOf n =
      Statement.layoutUses ((assemble name source).statements.take k) n := by
  induction k with
  | zero => rfl
  | succ k ih =>
    obtain ⟨s, hs⟩ := exists_statement name hk
    obtain ⟨text, htext, hsame⟩ := assemble_sameLine hs
    have htake : (assemble name source).statements.take (k + 1) = (assemble name source).statements.take k ++ [s] := by
      rw [List.take_add_one, hs, Option.toList_some]
    rw [htake, Statement.layoutUses_concat, ← ih (Nat.le_of_succ_le hk), contextAfter_succ htext]
    refine layOutLine_linesOf hn _ s hsame (contextAfter_contains (Nat.le_of_succ_le hk)) fun label => ?_
    rw [← htake, ← contextAfter_succ htext]
    exact contextAfter_contains hk label

/-- What code adds to the log of a bound name. -/
theorem linesOf_foldl {symbols : SymbolTable} {n : Text} (hn : Text.isName n = true)
    (hbound : symbols.contains n = true) : ∀ (ss : List Statement) (t : SymbolTable), t.contains n = true →
    (ss.foldl (fun t s => t.useAll s.line (encode symbols s).effects.uses) t).linesOf n =
      t.linesOf n ++ Statement.codeUses ss n
  | [], t, _ => (List.append_nil _).symm
  | s :: ss, t, ht => by
    have hcount : (encode symbols s).effects.uses.count n = s.codeTerms.count n := by
      rw [encode_uses, symbols.count_boundNames hn, if_pos hbound]
    have hstays : (t.useAll s.line (encode symbols s).effects.uses).contains n = true := by
      unfold SymbolTable.contains at ht ⊢
      rwa [SymbolTable.lookup_useAll, Option.isSome_map]
    rw [List.foldl_cons, linesOf_foldl hn hbound ss _ hstays, SymbolTable.linesOf_useAll, if_pos ht, hcount,
      List.append_assoc]
    rfl

theorem assemble_line {i : Nat} {s : Statement} (h : (assemble name source).statements[i]? = some s) :
    s.line = 1 + i := by
  obtain ⟨text, -, hsame⟩ := assemble_sameLine h
  exact hsame.line.trans (Statement.checked_placed _ _ _).line

/-- The statements stand in the order of their lines. -/
theorem assemble_lines_increasing (name source : Text) :
    (assemble name source).statements.Pairwise fun s t => s.line < t.line := by
  rw [List.pairwise_iff_getElem]
  intro i j hi hj hij
  rw [assemble_line (List.getElem?_eq_getElem hi), assemble_line (List.getElem?_eq_getElem hj)]
  omega

theorem assemble_length (name source : Text) :
    (assemble name source).statements.length = (Text.sourceLines source).length := by
  unfold assemble
  rw [Assembly.generate_statements, List.length_map, ofSource_length]

/-- Layout evaluates operands before any code is made, so its uses come first. -/
theorem assemble_linesOf {n : Text} (hn : Text.isName n = true)
    (hbound : (assemble name source).symbols.contains n = true) : (assemble name source).symbols.linesOf n =
      Statement.layoutUses (assemble name source).statements n ++
        Statement.codeUses (assemble name source).statements n := by
  have hcontext := contextAfter_all name source (Nat.le_refl _)
  have hlaidOut : (Assembly.ofSource (.initial name) source).symbols.contains n = true := by
    rw [← hcontext, SymbolTable.contains_eq_binding?, ← assemble_binding?, ← SymbolTable.contains_eq_binding?]
    exact hbound
  have hlayout : (Assembly.ofSource (.initial name) source).symbols.linesOf n =
      Statement.layoutUses (assemble name source).statements n := by
    rw [← hcontext, contextAfter_linesOf hn (Nat.le_refl _), ← assemble_length name source, List.take_length]
  have hcode : Statement.codeUses (assemble name source).statements n =
      Statement.codeUses (Assembly.ofSource (.initial name) source).statements n := by
    unfold Statement.codeUses assemble
    rw [Assembly.generate_statements, List.flatMap_map]
    rfl
  have hsymbols : (assemble name source).symbols = _ := Assembly.generate_symbols _
  rw [hsymbols, linesOf_foldl hn hlaidOut _ _ hlaidOut, hlayout, hcode]

end Run

/-- Lines that are repeated in their order do not decrease. -/
theorem pairwise_replicate_lines {α : Type} {f : α → Nat} {g : α → Int} {xs : List α}
    (h : xs.Pairwise fun x y => g x < g y) : (xs.flatMap fun x => List.replicate (f x) (g x)).Pairwise (· ≤ ·) := by
  rw [List.pairwise_flatMap]
  refine ⟨fun x _ => List.pairwise_replicate.2 (.inr (Int.le_refl _)), h.imp fun hxy m hm k hk => ?_⟩
  rw [List.eq_of_mem_replicate hm, List.eq_of_mem_replicate hk]
  exact Int.le_of_lt hxy

/-- No statement uses a name in layout before the line that binds it. -/
theorem assemble_layoutUses_le {name source n : Text} {b : Binding}
    (hb : (assemble name source).symbols.lookup n = some b) :
    ∀ line ∈ Statement.layoutUses (assemble name source).statements n, b.line ≤ line := by
  intro line hline
  obtain ⟨⟨s, i⟩, hs, hline⟩ := List.mem_flatMap.1 hline
  obtain ⟨hused, rfl⟩ := List.mem_replicate.1 hline
  have hs := List.mem_zipIdx_iff_getElem?.1 hs
  have htake : (assemble name source).statements.take (i + 1) = (assemble name source).statements.take i ++ [s] := by
    rw [List.take_add_one, hs, Option.toList_some]
  have hdefined := Statement.definedBy_of_usesInLayout hused
  rw [← htake, Statement.definedBy_take] at hdefined
  obtain ⟨j, hj, t, ht, hd⟩ := hdefined
  obtain ⟨first, r, hr, hnew⟩ := Assembly.assemble_boundAt hb
  -- the name is bound by the first statement that defines it, which is no later than this one
  have hfirst : first ≤ j := Nat.le_of_not_lt fun hlt => hr.first j hlt t ht hd
  have hbline : b.line = r.line := hnew.line
  rw [hbline, assemble_line hr.statement, assemble_line hs]
  omega

/-- Every use is recorded exactly once. The log of a bound name has first the lines at which layout uses it, as often as
the name is a term of an operand that layout evaluates while the name is bound, and then the lines at which code uses
it, as often as it is a term of an expression or a name that is exported; nothing else is in it. Both parts are in the
order of the lines, and layout uses no name before the line that binds it. -/
theorem assemble_uses_recorded_once (name source n : Text) (b : Binding)
    (hb : (assemble name source).symbols.lookup n = some b) :
    let statements := (assemble name source).statements
    b.uses = Statement.layoutUses statements n ++ Statement.codeUses statements n ∧
    (Statement.layoutUses statements n).Pairwise (· ≤ ·) ∧ (Statement.codeUses statements n).Pairwise (· ≤ ·) ∧
    ∀ line ∈ Statement.layoutUses statements n, b.line ≤ line := by
  have hn : Text.isName n = true := by
    rw [← SymbolTable.lookup_name hb]
    exact ((Assembly.assemble_symbols_wf name source).lookup hb).name
  have hlines := assemble_linesOf hn (SymbolTable.contains_eq_true.2 ⟨b, hb⟩)
  unfold SymbolTable.linesOf at hlines
  rw [hb] at hlines
  have hincreasing := assemble_lines_increasing name source
  refine ⟨hlines, pairwise_replicate_lines ?_, pairwise_replicate_lines hincreasing, assemble_layoutUses_le hb⟩
  rwa [← List.zipIdx_map_fst 0 (assemble name source).statements, List.pairwise_map] at hincreasing

/-- A name that is mentioned before it is bound, used twice in one operand, in an `equ` that binds nothing, and by a
`block` with the name as its label. -/
theorem assemble_uses_recorded_once_twice : ∃ b, (assemble []
      "z equ x\nx equ 2\ny equ x+x\ny equ x\nx block x\n data x+x\n load R1,x[R0]\n export x,x").symbols.lookup "x" =
        some b ∧ b.line = 2 ∧ b.uses = [3, 3, 5] ++ [6, 6, 7, 8, 8] := by
  have hline : ((assemble []
      "z equ x\nx equ 2\ny equ x+x\ny equ x\nx block x\n data x+x\n load R1,x[R0]\n export x,x").symbols.lookup "x").map
        (·.line) = some 2 := by decide +kernel
  obtain ⟨b, hb, hline⟩ := Option.map_eq_some_iff.1 hline
  obtain ⟨huses, -⟩ := assemble_uses_recorded_once [] _ "x" b hb
  refine ⟨b, hb, hline, huses.trans ?_⟩
  decide +kernel

end Sigma16
