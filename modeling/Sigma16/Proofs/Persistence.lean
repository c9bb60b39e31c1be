/-
A name that is bound stays bound. No step of a run, neither the layout of a line nor the encoding of a
statement, changes the value, the foreign symbol or the line of a binding that is there already; all it
adds are new names and further uses. So an operand that has a value while its line is laid out has the
same value under the table at the end of the run, and the label, the origin or the block that took the
value took the final one.
-/
import Sigma16.Proofs.Code
import Sigma16.Proofs.Denotation

namespace Sigma16

open Outcome

/-! ## Tables that grow -/

namespace SymbolTable

/-- `t'` has all bindings of `t`; only further uses may have been noted. -/
def Extends (t t' : SymbolTable) : Prop :=
  ∀ (name : Text) (b : Binding), t.lookup name = some b →
    ∃ uses, t'.lookup name = some { b with uses := b.uses ++ uses }

theorem Extends.refl (t : SymbolTable) : t.Extends t := by
  intro name b hb
  exact ⟨[], by rw [hb, List.append_nil]⟩

theorem Extends.trans {t₁ t₂ t₃ : SymbolTable} (h : t₁.Extends t₂) (h' : t₂.Extends t₃) : t₁.Extends t₃ := by
  intro name b hb
  obtain ⟨uses, h₂⟩ := h name b hb
  obtain ⟨uses', h₃⟩ := h' name _ h₂
  exact ⟨uses ++ uses', by rw [h₃, List.append_assoc]⟩

theorem extends_useAll (t : SymbolTable) (line : Int) (names : List Text) : t.Extends (t.useAll line names) := by
  intro name b hb
  exact ⟨_, by rw [lookup_useAll, hb]; rfl⟩

theorem lookup_extend (t : SymbolTable) (line : Int) (o : Outcome (Option Binding)) (name : Text) :
    (t.extend line o).lookup name =
      ((t.useAll line o.effects.uses).lookup name).or (o.result.toList.find? (·.name == name)) :=
  List.find?_append

theorem extends_extend (t : SymbolTable) (line : Int) (o : Outcome (Option Binding)) : t.Extends (t.extend line o) := by
  intro name b hb
  obtain ⟨uses, hu⟩ := extends_useAll t line o.effects.uses name b hb
  exact ⟨uses, by rw [lookup_extend, hu, Option.some_or]⟩

/-- A new binding is found under its name. -/
theorem lookup_extend_self {t : SymbolTable} {line : Int} {o : Outcome (Option Binding)} {b : Binding}
    (hb : o.result = some b) (hfree : t.lookup b.name = none) : (t.extend line o).lookup b.name = some b := by
  rw [lookup_extend, lookup_useAll, hfree, hb]
  simp

theorem Extends.termValue? {t t' : SymbolTable} (h : t.Extends t') {text : Text} {v : Value}
    (hv : t.termValue? text = some v) : t'.termValue? text = some v := by
  unfold SymbolTable.termValue? at hv ⊢
  cases ht : Term.ofText text with
  | name name =>
    rw [ht] at hv
    obtain ⟨b, hb, rfl⟩ := Option.map_eq_some_iff.1 hv
    obtain ⟨uses, hb'⟩ := h name b hb
    simp only [hb', Option.map_some]
  | decimal digits => rw [ht] at hv; exact hv
  | hex digits => rw [ht] at hv; exact hv

/-- An expression keeps its value when the table grows. -/
theorem Extends.value? {t t' : SymbolTable} (h : t.Extends t') {text : Text} {v : Value}
    (hv : t.value? text = some v) : t'.value? text = some v := by
  unfold SymbolTable.value? at hv ⊢
  cases he : Expression.ofText? text with
  | none => rw [he] at hv; cases hv
  | some expression =>
    rw [he] at hv
    cases expression with
    | term term => exact h.termValue? hv
    | sum left right =>
      obtain ⟨x, hx, hv⟩ := Option.bind_eq_some_iff.1 hv
      obtain ⟨y, hy, hv⟩ := Option.bind_eq_some_iff.1 hv
      simp only [h.termValue? hx, h.termValue? hy, Option.bind_some, hv]

end SymbolTable

/-! ## One line -/

theorem bindLabel_extends (c : Context) (s : Statement) : c.symbols.Extends (bindLabel c s).1.symbols := by
  rw [bindLabel_eq]
  split
  · split
    · exact .refl _
    · split
      · exact .refl _
      · exact SymbolTable.extends_extend _ _ _
  · split <;> exact .refl _

theorem advance_extends (c : Context) (s : Statement) : c.symbols.Extends (advance c s).1.symbols := by
  unfold advance
  split
  · exact SymbolTable.extends_useAll _ _ _
  · exact SymbolTable.extends_useAll _ _ _
  · split <;> exact .refl _

theorem layOutLine_extends (c : Context) (line : Int) (source : Text) :
    c.symbols.Extends (layOutLine c line source).1.symbols := by
  rw [layOutLine_eq]
  exact (bindLabel_extends c _).trans (advance_extends _ _)

/-- Moving past a statement says where it leads and what is wrong with it, and nothing else of it. -/
theorem advance_statement (c : Context) (s : Statement) :
    ∃ orgAddress errors, (advance c s).2 = { s with orgAddress, errors } := by
  unfold advance
  split
  · exact ⟨_, _, rfl⟩
  · exact ⟨_, _, rfl⟩
  · split <;> exact ⟨_, _, rfl⟩

theorem layOutLine_read (c : Context) (line : Int) (source : Text) :
    (layOutLine c line source).2.line = (Statement.checked line c.counter source).line ∧
    (layOutLine c line source).2.parts = (Statement.checked line c.counter source).parts ∧
    (layOutLine c line source).2.operation = (Statement.checked line c.counter source).operation := by
  rw [layOutLine_eq]
  generalize Statement.checked line c.counter source = s
  obtain ⟨orgAddress, errors, h⟩ := advance_statement (bindLabel c s).1 (s.note (bindLabel c s).2)
  rw [h]
  exact ⟨rfl, rfl, rfl⟩

theorem layOutLine_parts (c : Context) (line : Int) {source : Text} (hn : '\n'.toUInt8 ∉ source) :
    (layOutLine c line source).2.parts = Line.split source := by
  rw [(layOutLine_read c line source).2.1]
  exact Statement.read_parts line c.counter hn

/-- How the operand of an `equ`, an `org` or a `block` is evaluated when its line is laid out, where `c` is
the context before the line. An `equ` is evaluated only if it binds its label, and an `org` or a `block`
sees its own label. -/
def operandInLayout? (c : Context) (s : Statement) : Option (Outcome Value) :=
  match s.operation.directive? with
  | some .equ =>
    if s.hasLabel && !c.symbols.contains s.parts.label then some (evaluate c.symbols s s.parts.operands) else none
  | some .org | some .block => some (evaluate (bindLabel c s).1.symbols s s.parts.operands)
  | _ => none

/-- What layout and encoding learn about a statement later has no part in the evaluation. -/
theorem operandInLayout?_congr {s t : Statement} (hl : t.line = s.line) (hp : t.parts = s.parts)
    (ho : t.operation = s.operation) (c : Context) : operandInLayout? c t = operandInLayout? c s := by
  cases s
  cases t
  cases hl
  cases hp
  cases ho
  rfl

/-- What a statement does with the value of its operand: an `equ` binds it to its label, an `org` leads to
it, and a `block` leads as far beyond the address of the statement. -/
def Statement.Takes (s : Statement) (symbols : SymbolTable) (v : Value) : Prop :=
  match s.operation.directive? with
  | some .equ => ∃ b, symbols.lookup s.parts.label = some b ∧ b.value = v ∧ b.line = s.line
  | some .org => v.isExternal = false → s.orgAddress = some v
  | some .block => v.isRelocatable = false → ∀ next, s.address.add v = .ok next → s.orgAddress = some next
  | _ => False

theorem Statement.Takes.mono {s : Statement} {t t' : SymbolTable} {v : Value} (h : s.Takes t v) (he : t.Extends t') :
    s.Takes t' v := by
  unfold Takes at h ⊢
  split at h
  · obtain ⟨b, hb, hv, hl⟩ := h
    obtain ⟨uses, hb'⟩ := he _ b hb
    exact ⟨_, hb', hv, hl⟩
  · exact h
  · exact h
  · cases h

/-- The label of an `equ`, if it is free, is bound to the value of the operand. -/
theorem bindLabel_equ {c : Context} {s : Statement} (hd : s.operation.directive? = some .equ)
    (hl : s.hasLabel = true) (hfree : c.symbols.lookup s.parts.label = none) :
    ∃ b, (bindLabel c s).1.symbols.lookup s.parts.label = some b ∧
      b.value = (evaluate c.symbols s s.parts.operands).result ∧ b.line = s.line := by
  obtain ⟨b, hb, hv, hline⟩ : ∃ b, (newBinding c s).result = some b ∧
      b.value = (evaluate c.symbols s s.parts.operands).result ∧ b.line = s.line := by
    unfold newBinding
    rw [hd]
    exact ⟨_, rfl, rfl, rfl⟩
  have hname := newBinding_name hb
  refine ⟨b, ?_, hv, hline⟩
  rw [bindLabel_eq, if_pos hl, if_neg (by rw [hd]; decide), hfree, ← hname]
  exact SymbolTable.lookup_extend_self hb (hname ▸ hfree)

theorem orgTarget_result {c : Context} {s : Statement}
    (h : (evaluate c.symbols s s.parts.operands).result.isExternal = false) :
    (orgTarget c s).result = (evaluate c.symbols s s.parts.operands).result := by
  unfold orgTarget
  rw [bind_result, if_neg (by rw [h]; decide)]
  rfl

theorem blockTarget_result {c : Context} {s : Statement} {next : Value}
    (h : (evaluate c.symbols s s.parts.operands).result.isRelocatable = false)
    (hn : c.counter.add (evaluate c.symbols s s.parts.operands).result = .ok next) :
    (blockTarget c s).result = next := by
  unfold blockTarget
  rw [bind_result, if_neg (by rw [h]; decide), hn]
  rfl

/-- The evaluation in `operandInLayout?` is made under a table that the table after the line extends, and
its value is the one that the line takes. -/
theorem layOutLine_takes (c : Context) (line : Int) (source : Text) {o : Outcome Value}
    (h : operandInLayout? c (.checked line c.counter source) = some o) :
    (∃ t, t.Extends (layOutLine c line source).1.symbols ∧
      o = evaluate t (.checked line c.counter source) (Statement.checked line c.counter source).parts.operands) ∧
    (layOutLine c line source).2.Takes (layOutLine c line source).1.symbols o.result := by
  have haddress := (Statement.checked_placed line c.counter source).address
  have hbefore := layOutLine_extends c line source
  rw [layOutLine_eq] at hbefore ⊢
  generalize Statement.checked line c.counter source = s at h haddress hbefore
  have hafter := advance_extends (bindLabel c s).1 (s.note (bindLabel c s).2)
  have hcounter := bindLabel_counter c s
  obtain ⟨orgAddress, errors, hs⟩ := advance_statement (bindLabel c s).1 (s.note (bindLabel c s).2)
  unfold operandInLayout? at h
  split at h
  · rename_i hequ
    split at h
    · rename_i hcond
      cases h
      simp only [Bool.and_eq_true, Bool.not_eq_true', SymbolTable.contains, Option.isSome_eq_false_iff,
        Option.isNone_iff_eq_none] at hcond
      obtain ⟨b, hb, hv, hline⟩ := bindLabel_equ hequ hcond.1 hcond.2
      refine ⟨⟨c.symbols, hbefore, rfl⟩, Statement.Takes.mono ?_ hafter⟩
      rw [hs]
      simp only [Statement.Takes, Statement.note_operation, hequ]
      exact ⟨b, hb, hv, hline⟩
    · cases h
  · rename_i horg
    cases h
    refine ⟨⟨_, hafter, rfl⟩, ?_⟩
    have ht : (advance (bindLabel c s).1 (s.note (bindLabel c s).2)).2.orgAddress =
        some (orgTarget (bindLabel c s).1 (s.note (bindLabel c s).2)).result := by
      simp only [advance, Statement.note_operation, horg, jump]
    rw [hs] at ht ⊢
    simp only [Statement.Takes, Statement.note_operation, horg]
    intro he
    rw [show orgAddress = _ from ht]
    exact congrArg some (orgTarget_result he)
  · rename_i hblock
    cases h
    refine ⟨⟨_, hafter, rfl⟩, ?_⟩
    have ht : (advance (bindLabel c s).1 (s.note (bindLabel c s).2)).2.orgAddress =
        some (blockTarget (bindLabel c s).1 (s.note (bindLabel c s).2)).result := by
      simp only [advance, Statement.note_operation, hblock, jump]
    rw [hs] at ht ⊢
    simp only [Statement.Takes, Statement.note_operation, hblock, Statement.note_address, haddress]
    intro hr next hn
    rw [show orgAddress = _ from ht]
    rw [← hcounter] at hn
    exact congrArg some (blockTarget_result hr hn)
  · cases h

/-- An operand that a line evaluated without an error has the same value under every table into which the
table after the line grows. -/
theorem layOutLine_value {c : Context} {line : Int} {source : Text} {final : SymbolTable} {o : Outcome Value}
    (hfinal : (layOutLine c line source).1.symbols.Extends final)
    (ho : operandInLayout? c (layOutLine c line source).2 = some o) (herrors : o.effects.errors = []) :
    final.value? (layOutLine c line source).2.parts.operands = some o.result ∧
    (layOutLine c line source).2.Takes final o.result := by
  obtain ⟨hline, hparts, hoperation⟩ := layOutLine_read c line source
  have hread : operandInLayout? c (.checked line c.counter source) = some o := by
    rw [← ho]
    exact operandInLayout?_congr hline.symm hparts.symm hoperation.symm c
  obtain ⟨⟨t, ht, rfl⟩, htakes⟩ := layOutLine_takes c line source hread
  rw [hparts]
  exact ⟨(ht.trans hfinal).value? (SymbolTable.value?_of_errors herrors), htakes.mono hfinal⟩

/-! ## A run, step by step -/

theorem layOut_append : ∀ (xs ys : List Text) (c : Context) (line : Int), layOut c line (xs ++ ys) =
    ((layOut (layOut c line xs).1 (line + xs.length) ys).1,
      (layOut c line xs).2 ++ (layOut (layOut c line xs).1 (line + xs.length) ys).2)
  | [], ys, c, line => by simp [layOut]
  | x :: xs, ys, c, line => by
    have hline : line + 1 + xs.length = line + (x :: xs).length := by
      rw [List.length_cons]
      omega
    simp only [List.cons_append, layOut, layOut_append xs ys, hline]

theorem layOut_length : ∀ (xs : List Text) (c : Context) (line : Int), (layOut c line xs).2.length = xs.length
  | [], _, _ => rfl
  | _ :: xs, _, _ => congrArg (· + 1) (layOut_length xs _ _)

/-- A line is laid out in the context that the lines before it leave. -/
theorem layOut_getElem? : ∀ (xs : List Text) (c : Context) (line : Int) (i : Nat), (layOut c line xs).2[i]? =
    xs[i]?.map fun source => (layOutLine (layOut c line (xs.take i)).1 (line + i) source).2
  | [], c, line, i => by simp [layOut]
  | x :: xs, c, line, 0 => by simp [layOut]
  | x :: xs, c, line, i + 1 => by
    have hline : line + 1 + i = line + (i + 1 : Nat) := by omega
    simp only [layOut, List.getElem?_cons_succ, List.take_succ_cons, layOut_getElem? xs _ _ i, hline]

/-- The context after the first `n` lines. -/
def contextAfter (name source : Text) (n : Nat) : Context :=
  (layOut (.initial name) 1 ((Text.sourceLines source).take n)).1

theorem contextAfter_wf (name source : Text) (n : Nat) : (contextAfter name source n).WF := by
  refine (layOut_run (I := Context.WF) (P := fun _ => True) (fun c line source _ hc => ?_) _ _ 1 ?_
    (Context.initial_wf name)).1
  · exact ⟨(layOutLine_spec hc line source).wf, trivial⟩
  · exact fun line hl => Text.sourceLines_notMem source line (List.mem_of_mem_take hl)

/-- The symbol table after `n` steps of a run. A step lays out a line and, once all lines are laid out,
encodes a statement. -/
def tableAfter (name source : Text) (n : Nat) : SymbolTable :=
  let a := Assembly.ofSource (.initial name) source
  (a.statements.take (n - a.statements.length)).foldl
    (fun symbols s => symbols.useAll s.line (encode a.symbols s).effects.uses) (contextAfter name source n).symbols

theorem ofSource_length (name source : Text) :
    (Assembly.ofSource (.initial name) source).statements.length = (Text.sourceLines source).length :=
  layOut_length _ _ _

theorem ofSource_getElem? (name source : Text) (i : Nat) :
    (Assembly.ofSource (.initial name) source).statements[i]? = (Text.sourceLines source)[i]?.map fun text =>
      (layOutLine (contextAfter name source i) (1 + i) text).2 :=
  layOut_getElem? (Text.sourceLines source) (.initial name) 1 i

theorem contextAfter_succ {name source : Text} {n : Nat} {text : Text} (h : (Text.sourceLines source)[n]? = some text) :
    contextAfter name source (n + 1) = (layOutLine (contextAfter name source n) (1 + n) text).1 := by
  have hn : n < (Text.sourceLines source).length := (List.getElem?_eq_some_iff.1 h).1
  have hlength : ((Text.sourceLines source).take n).length = n := by
    rw [List.length_take]
    omega
  unfold contextAfter
  rw [List.take_add_one, h, layOut_append, hlength]
  rfl

theorem contextAfter_all (name source : Text) {n : Nat} (h : (Text.sourceLines source).length ≤ n) :
    contextAfter name source n = (Assembly.ofSource (.initial name) source).toContext := by
  unfold contextAfter
  rw [List.take_of_length_le h]
  rfl

theorem tableAfter_layout (name source : Text) {n : Nat} (h : n ≤ (Text.sourceLines source).length) :
    tableAfter name source n = (contextAfter name source n).symbols := by
  have hn : n - (Assembly.ofSource (.initial name) source).statements.length = 0 := by
    rw [ofSource_length]
    omega
  simp only [tableAfter, hn, List.take_zero, List.foldl_nil]

theorem tableAfter_extends_succ (name source : Text) (n : Nat) :
    (tableAfter name source n).Extends (tableAfter name source (n + 1)) := by
  by_cases hn : n < (Text.sourceLines source).length
  · -- a line is laid out
    rw [tableAfter_layout name source (by omega), tableAfter_layout name source (by omega),
      contextAfter_succ (List.getElem?_eq_getElem hn)]
    exact layOutLine_extends _ _ _
  · -- a statement is encoded, or none is left
    have hlength := ofSource_length name source
    have hsucc : n + 1 - (Assembly.ofSource (.initial name) source).statements.length =
        n - (Assembly.ofSource (.initial name) source).statements.length + 1 := by omega
    unfold tableAfter
    rw [contextAfter_all name source (by omega), contextAfter_all name source (by omega)]
    simp only [hsucc, List.take_add_one, List.foldl_append]
    cases (Assembly.ofSource (.initial name) source).statements[n -
        (Assembly.ofSource (.initial name) source).statements.length]? with
    | none => exact .refl _
    | some s => exact SymbolTable.extends_useAll _ _ _

theorem tableAfter_extends (name source : Text) {m n : Nat} (h : m ≤ n) :
    (tableAfter name source m).Extends (tableAfter name source n) := by
  induction h with
  | refl => exact .refl _
  | step _ ih => exact ih.trans (tableAfter_extends_succ name source _)

/-- After all lines and all statements the table is that of the assembled module. -/
theorem tableAfter_end (name source : Text) {n : Nat} (h : 2 * (Text.sourceLines source).length ≤ n) :
    tableAfter name source n = (assemble name source).symbols := by
  have hlength := ofSource_length name source
  unfold tableAfter assemble
  rw [Assembly.generate_symbols, contextAfter_all name source (by omega)]
  simp only
  rw [List.take_of_length_le (by omega)]

/-- The statement of a line in an assembled module: the line is laid out in the context that the lines before it
leave, and encoded when all lines are laid out. -/
theorem assemble_statements (name source : Text) (i : Nat) : (assemble name source).statements[i]? =
    (Text.sourceLines source)[i]?.map fun text =>
      (Assembly.ofSource (.initial name) source).code (layOutLine (contextAfter name source i) (1 + i) text).2 := by
  unfold assemble
  rw [Assembly.generate_statements, List.getElem?_map, ofSource_getElem?, Option.map_map]
  rfl

/-- The statement of a line in an assembled module is the one that was laid out, with its code. -/
theorem assemble_getElem? {name source : Text} {i : Nat} {s : Statement}
    (h : (assemble name source).statements[i]? = some s) :
    ∃ text, (Text.sourceLines source)[i]? = some text ∧
      ∃ u code errors, (layOutLine (contextAfter name source i) (1 + i) text).2 = u ∧ s = { u with code, errors } := by
  rw [assemble_statements] at h
  obtain ⟨text, htext, rfl⟩ := Option.map_eq_some_iff.1 h
  exact ⟨text, htext, _, _, _, rfl, rfl⟩

/-- Values in layout are final. Every binding that the table has after some step of a run it has after all
later ones, to the end of the run, with further uses at most; and where a line has evaluated the operand
of an `equ`, an `org` or a `block` without an error, the operand has the same value under the table at the
end of the run, and it is the value that the statement took. -/
theorem assemble_layout_values_final (name source : Text) :
    let final := (assemble name source).symbols
    (∀ m n, m ≤ n → (tableAfter name source m).Extends (tableAfter name source n)) ∧
    (∀ n ≤ (Text.sourceLines source).length, tableAfter name source n = (contextAfter name source n).symbols) ∧
    (∀ n ≥ 2 * (Text.sourceLines source).length, tableAfter name source n = final) ∧
    ∀ (i : Nat) (s : Statement), (assemble name source).statements[i]? = some s →
      ∀ o, operandInLayout? (contextAfter name source i) s = some o → o.effects.errors = [] →
        (evaluate final s s.parts.operands).result = o.result ∧
        (evaluate final s s.parts.operands).effects.errors = [] ∧ s.Takes final o.result := by
  intro final
  refine ⟨fun m n h => tableAfter_extends name source h, fun n h => tableAfter_layout name source h,
    fun n h => tableAfter_end name source h, fun i s hs o ho herrors => ?_⟩
  obtain ⟨text, htext, u, code, errors, hu, rfl⟩ := assemble_getElem? hs
  have hi : i < (Text.sourceLines source).length := (List.getElem?_eq_some_iff.1 htext).1
  -- the table after the line grows into the final one
  have hfinal : (layOutLine (contextAfter name source i) (1 + i) text).1.symbols.Extends final := by
    have hend : tableAfter name source (2 * (Text.sourceLines source).length) = final :=
      tableAfter_end name source (Nat.le_refl _)
    rw [← contextAfter_succ htext, ← tableAfter_layout name source (by omega), ← hend]
    exact tableAfter_extends name source (by omega)
  have hlaid : operandInLayout? (contextAfter name source i) u = some o := by
    rw [← ho]
    exact operandInLayout?_congr rfl rfl rfl _
  obtain ⟨hvalue, htakes⟩ := layOutLine_value hfinal (hu ▸ hlaid) herrors
  rw [hu] at hvalue htakes
  obtain ⟨hresult, hclean⟩ := SymbolTable.evaluate_of_value? hvalue { u with code, errors }
  exact ⟨hresult, hclean, htakes⟩

def aliasedBlock : Text := "a equ 3\nb equ a+1\n block b\na equ 9"

set_option maxRecDepth 4000 in
/-- A block whose size is an alias of a sum, in a module that tries to bind a name of the sum again later. -/
theorem assemble_layout_values_final_block : ∃ s : Statement,
    (assemble [] aliasedBlock).statements[2]? = some s ∧
    operandInLayout? (contextAfter [] aliasedBlock 2) s = some ⟨.const 4, { uses := [Text.ofString "b"] }⟩ ∧
    (evaluate (assemble [] aliasedBlock).symbols s s.parts.operands).result = .const 4 ∧
    s.orgAddress = some (.relocatable 4) := by
  obtain ⟨-, -, -, hvalues⟩ := assemble_layout_values_final [] aliasedBlock
  have hrun : (assemble [] aliasedBlock).statements[2]?.map (fun s =>
      (s.operation.directive?, s.address, operandInLayout? (contextAfter [] aliasedBlock 2) s)) =
        some (some .block, .relocatable 0, some ⟨.const 4, { uses := [Text.ofString "b"] }⟩) := by decide +kernel
  obtain ⟨s, hs, h⟩ := Option.map_eq_some_iff.1 hrun
  simp only [Prod.mk.injEq] at h
  obtain ⟨hd, ha, ho⟩ := h
  obtain ⟨hresult, -, htakes⟩ := hvalues 2 s hs _ ho rfl
  simp only [Statement.Takes, hd, ha] at htakes
  exact ⟨s, hs, ho, hresult, htakes rfl (.relocatable 4) rfl⟩

end Sigma16
