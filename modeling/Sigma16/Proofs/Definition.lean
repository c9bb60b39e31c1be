/-
Definitions of names. A line defines its label if the label is a name and the line is neither a `module` statement,
whose label names the module, nor an import without two names. The first line that defines a name binds it, and what
it binds it to depends on the bindings of the lines before it. A later line with the same label, unless it is a
`module` statement, changes nothing and is reported once, with the line that binds the name.
-/
import Sigma16.Proofs.Log
import Sigma16.Proofs.Persistence

namespace Sigma16

open Outcome

/-! ## Statements that define a name -/

namespace Statement

/-- Does the statement give a name a meaning, unless the name has one already? -/
structure Defines (s : Statement) (name : Text) : Prop where
  label : s.parts.label = name
  valid : Text.isName name = true
  notModule : s.operation.directive? ≠ some .moduleName
  twoNames : s.operation.directive? = some .importName → ∃ moduleName foreignName,
    s.operands = [moduleName, foreignName] ∧ Text.isName moduleName = true ∧ Text.isName foreignName = true

/-- What the statement binds its label to, under the bindings of the lines before it. -/
def definedValue (s : Statement) (symbols : SymbolTable) : Value :=
  match s.operation.directive? with
  | some .importName => .external
  | some .equ => symbols.denote s.parts.operands
  | _ => s.address

/-- Statements of the same line at the same address, whatever has been learnt about them since. -/
structure SameLine (s t : Statement) : Prop where
  line : s.line = t.line
  address : s.address = t.address
  parts : s.parts = t.parts
  operation : s.operation = t.operation

theorem SameLine.defines {s t : Statement} (h : s.SameLine t) {name : Text} : s.Defines name ↔ t.Defines name := by
  have hoperands : s.operands = t.operands := congrArg (fun parts : Line => Text.splitOperands parts.operands) h.parts
  constructor
  · rintro ⟨hlabel, hvalid, hmodule, hnames⟩
    rw [h.parts] at hlabel
    rw [h.operation] at hmodule hnames
    rw [hoperands] at hnames
    exact ⟨hlabel, hvalid, hmodule, hnames⟩
  · rintro ⟨hlabel, hvalid, hmodule, hnames⟩
    rw [← h.parts] at hlabel
    rw [← h.operation] at hmodule hnames
    rw [← hoperands] at hnames
    exact ⟨hlabel, hvalid, hmodule, hnames⟩

theorem SameLine.newBinding {s t : Statement} (h : s.SameLine t) (c : Context) : newBinding c s = newBinding c t := by
  obtain ⟨hline, -, hparts, hoperation⟩ := h
  cases s
  cases t
  cases hline
  cases hparts
  cases hoperation
  rfl

end Statement

/-! ## New bindings -/

/-- The bindings that a statement can give its label, by what it is. -/
inductive NewBinding (c : Context) (s : Statement) : Binding → Prop where
  | equ {moduleName foreignName : Text} : s.operation.directive? = some .equ →
      aliasTarget c.symbols (c.symbols.denote s.parts.operands) s.parts.operands = (moduleName, foreignName) →
      NewBinding c s ⟨s.parts.label, moduleName, foreignName, c.symbols.denote s.parts.operands, s.line, []⟩
  | imported {moduleName foreignName : Text} : s.operation.directive? = some .importName →
      s.operands = [moduleName, foreignName] → Text.isName moduleName = true → Text.isName foreignName = true →
      NewBinding c s ⟨s.parts.label, moduleName, foreignName, .external, s.line, []⟩
  | address : s.operation.directive? ≠ some .equ → s.operation.directive? ≠ some .importName →
      NewBinding c s ⟨s.parts.label, [], [], c.counter, s.line, []⟩

theorem newBinding_cases {c : Context} {s : Statement} {b : Binding} (h : (newBinding c s).result = some b) :
    NewBinding c s b := by
  unfold newBinding at h
  split at h
  · rename_i hd
    cases h
    rw [SymbolTable.evaluate_result]
    exact .equ hd rfl
  · rename_i hd
    split at h
    · rename_i moduleName foreignName ho
      split at h
      · cases h
      · rename_i hnames
        cases h
        simp only [List.find?_eq_none, List.forall_mem_cons, Bool.not_eq_true', Bool.not_eq_false] at hnames
        exact .imported hd ho hnames.1 hnames.2.1
    · cases h
  · rename_i hequ himport
    cases h
    exact .address hequ himport

/-- Whatever is wrong with its operand, a statement other than an import binds its label. -/
theorem newBinding_isSome (c : Context) {s : Statement} (h : s.operation.directive? = some .importName →
    ∃ moduleName foreignName, s.operands = [moduleName, foreignName] ∧ Text.isName moduleName = true ∧
      Text.isName foreignName = true) : ∃ b, (newBinding c s).result = some b := by
  unfold newBinding
  split
  · exact ⟨_, rfl⟩
  · rename_i hd
    obtain ⟨moduleName, foreignName, ho, hm, hf⟩ := h hd
    simp [ho, hm, hf]
  · exact ⟨_, rfl⟩

namespace NewBinding

variable {c : Context} {s : Statement} {b : Binding}

theorem name (h : NewBinding c s b) : b.name = s.parts.label := by cases h <;> rfl

theorem line (h : NewBinding c s b) : b.line = s.line := by cases h <;> rfl

theorem uses (h : NewBinding c s b) : b.uses = [] := by cases h <;> rfl

theorem value (h : NewBinding c s b) (ha : s.address = c.counter) : b.value = s.definedValue c.symbols := by
  unfold Statement.definedValue
  cases h with
  | equ hd _ => rw [hd]
  | imported hd _ _ _ => rw [hd]
  | address hequ himport =>
    split
    · exact absurd ‹_› himport
    · exact absurd ‹_› hequ
    · exact ha.symm

theorem defines (h : NewBinding c s b) (hl : s.hasLabel = true) (hm : s.operation.directive? ≠ some .moduleName) :
    s.Defines b.name := by
  refine ⟨h.name.symm, h.name ▸ hl, hm, fun hd => ?_⟩
  cases h with
  | equ hequ _ => rw [hequ] at hd; cases hd
  | imported _ ho hmodule hforeign => exact ⟨_, _, ho, hmodule, hforeign⟩
  | address _ himport => exact absurd hd himport

end NewBinding

/-! ## Bindings without their uses -/

/-- A binding as it was made, without the lines that use it. -/
def Binding.bare (b : Binding) : Binding := { b with uses := [] }

namespace SymbolTable

/-- The binding of a name as it was made. -/
def binding? (t : SymbolTable) (name : Text) : Option Binding := (t.lookup name).map Binding.bare

theorem binding?_eq_none {t : SymbolTable} {name : Text} : t.binding? name = none ↔ t.lookup name = none :=
  Option.map_eq_none_iff

theorem binding?_of_lookup {t : SymbolTable} {name : Text} {b : Binding} (h : t.lookup name = some b) :
    t.binding? name = some b.bare := by
  unfold binding?
  rw [h]
  rfl

theorem binding?_useAll (t : SymbolTable) (line : Int) (names : List Text) (name : Text) :
    (t.useAll line names).binding? name = t.binding? name := by
  unfold binding?
  rw [lookup_useAll, Option.map_map]
  rfl

theorem Extends.binding? {t t' : SymbolTable} (h : t.Extends t') {name : Text} {b : Binding}
    (hb : t.binding? name = some b) : t'.binding? name = some b := by
  obtain ⟨made, hmade, rfl⟩ := Option.map_eq_some_iff.1 hb
  obtain ⟨uses, hlater⟩ := h name made hmade
  unfold SymbolTable.binding?
  rw [hlater]
  rfl

end SymbolTable

/-! ## One line -/

/-- A name that is free before a statement is bound by it exactly if the statement defines it. -/
theorem bindLabel_free {c : Context} {s : Statement} {name : Text} (hfree : c.symbols.lookup name = none)
    {b : Binding} : (bindLabel c s).1.symbols.lookup name = some b ↔
      s.Defines name ∧ (newBinding c s).result = some b := by
  -- where the table stays as it is, the statement must not define the name
  have hidle (hn : ¬ s.Defines name) : c.symbols.lookup name = some b ↔
      s.Defines name ∧ (newBinding c s).result = some b := by simp [hfree, hn]
  rw [bindLabel_eq]
  by_cases hl : s.hasLabel = true
  · rw [if_pos hl]
    by_cases hm : s.operation.directive? = some .moduleName
    · rw [if_pos hm]
      exact hidle fun hd => hd.notModule hm
    · rw [if_neg hm]
      cases hb : c.symbols.lookup s.parts.label with
      | some bound =>
        refine hidle fun hd => ?_
        rw [hd.label, hfree] at hb
        cases hb
      | none =>
        show (c.symbols.extend s.line (newBinding c s)).lookup name = some b ↔ _
        rw [SymbolTable.lookup_extend, SymbolTable.lookup_useAll, hfree]
        cases hr : (newBinding c s).result with
        | none => simp
        | some new =>
          have hnew := newBinding_cases hr
          simp only [Option.map_none, Option.none_or, Option.toList_some, List.find?_cons, List.find?_nil,
            Option.some.injEq]
          constructor
          · intro h
            split at h
            · rename_i hname
              cases h
              exact ⟨beq_iff_eq.1 hname ▸ hnew.defines hl hm, rfl⟩
            · cases h
          · rintro ⟨hd, rfl⟩
            rw [hnew.name, hd.label, beq_self_eq_true]
  · rw [if_neg hl]
    have hn : ¬ s.Defines name := by
      rintro ⟨rfl, hvalid, -, -⟩
      exact hl hvalid
    split <;> exact hidle hn

theorem advance_binding? (c : Context) (s : Statement) (name : Text) :
    (advance c s).1.symbols.binding? name = c.symbols.binding? name := by
  unfold advance
  split
  · exact SymbolTable.binding?_useAll _ _ _ _
  · exact SymbolTable.binding?_useAll _ _ _ _
  · split <;> rfl

theorem layOutLine_free {c : Context} {name : Text} (hfree : c.symbols.lookup name = none) (line : Int) (source : Text)
    {b : Binding} : (layOutLine c line source).1.symbols.binding? name = some b ↔
      (Statement.checked line c.counter source).Defines name ∧
      (newBinding c (.checked line c.counter source)).result = some b := by
  rw [layOutLine_eq, advance_binding?]
  generalize Statement.checked line c.counter source = s
  have hbare (new : Binding) (h : (newBinding c s).result = some new) : new.bare = new := by
    unfold Binding.bare
    rw [← (newBinding_cases h).uses]
  unfold SymbolTable.binding?
  rw [Option.map_eq_some_iff]
  constructor
  · rintro ⟨new, hnew, rfl⟩
    obtain ⟨hd, hr⟩ := (bindLabel_free hfree).1 hnew
    exact ⟨hd, (hbare new hr).symm ▸ hr⟩
  · rintro ⟨hd, hr⟩
    exact ⟨b, (bindLabel_free hfree).2 ⟨hd, hr⟩, hbare b hr⟩

/-! ## All lines -/

namespace Assembly

/-- The `i`-th statement is the one that binds a name: the first that defines it. -/
structure BoundAt (a : Assembly) (name : Text) (i : Nat) (s : Statement) : Prop where
  statement : a.statements[i]? = some s
  defines : s.Defines name
  first : ∀ j < i, ∀ t, a.statements[j]? = some t → ¬ t.Defines name

end Assembly

section Run

variable {name source : Text}

/-- The statement of a line is the line that was read, at the place where the location counter stood. -/
theorem assemble_sameLine {i : Nat} {s : Statement} (h : (assemble name source).statements[i]? = some s) :
    ∃ text, (Text.sourceLines source)[i]? = some text ∧
      s.SameLine (.checked (1 + i) (contextAfter name source i).counter text) := by
  obtain ⟨text, htext, u, code, errors, rfl, rfl⟩ := assemble_getElem? h
  obtain ⟨hline, hparts, hoperation⟩ := layOutLine_read (contextAfter name source i) (1 + i) text
  have hspec := layOutLine_spec (contextAfter_wf name source i) (1 + i) text
  refine ⟨text, htext, hline, ?_, hparts, hoperation⟩
  exact hspec.placed.address.trans (Statement.checked_placed _ _ _).address.symm

/-- How the table grows by the next line, said of the statement of that line. -/
theorem contextAfter_free {n : Nat} {s : Statement} (hs : (assemble name source).statements[n]? = some s) {label : Text}
    (hfree : (contextAfter name source n).symbols.lookup label = none) {b : Binding} :
    (contextAfter name source (n + 1)).symbols.binding? label = some b ↔
      s.Defines label ∧ (newBinding (contextAfter name source n) s).result = some b := by
  obtain ⟨text, htext, hline⟩ := assemble_sameLine hs
  rw [contextAfter_succ htext, layOutLine_free hfree, hline.defines, hline.newBinding]

theorem contextAfter_extends {m n : Nat} (hmn : m ≤ n) (hn : n ≤ (Text.sourceLines source).length) :
    (contextAfter name source m).symbols.Extends (contextAfter name source n).symbols := by
  rw [← tableAfter_layout name source (Nat.le_trans hmn hn), ← tableAfter_layout name source hn]
  exact tableAfter_extends name source hmn

theorem exists_statement (name : Text) {source : Text} {i : Nat} (h : i < (Text.sourceLines source).length) :
    ∃ s, (assemble name source).statements[i]? = some s := by
  rw [assemble_statements, List.getElem?_eq_getElem h]
  exact ⟨_, rfl⟩

/-- After the first `n` lines a name is free exactly if none of them defines it. -/
theorem contextAfter_lookup_eq_none {n : Nat} (hn : n ≤ (Text.sourceLines source).length) {label : Text} :
    (contextAfter name source n).symbols.lookup label = none ↔
      ∀ j < n, ∀ t, (assemble name source).statements[j]? = some t → ¬ t.Defines label := by
  induction n with
  | zero =>
    constructor
    · intro _ j hj
      omega
    · intro _
      rfl
  | succ n ih =>
    obtain ⟨s, hs⟩ := exists_statement name hn
    have ih := ih (by omega)
    rw [← SymbolTable.binding?_eq_none]
    constructor
    · intro hnone j hj t ht
      -- what is free after the line was free before it
      have hfree : (contextAfter name source n).symbols.lookup label = none := by
        rw [← SymbolTable.binding?_eq_none, Option.eq_none_iff_forall_ne_some]
        intro b hb
        rw [(contextAfter_extends (Nat.le_succ n) hn).binding? hb] at hnone
        cases hnone
      by_cases hjn : j < n
      · exact ih.1 hfree j hjn t ht
      · obtain rfl : j = n := by omega
        rw [hs] at ht
        cases ht
        intro hd
        obtain ⟨b, hb⟩ := newBinding_isSome (contextAfter name source j) hd.twoNames
        rw [(contextAfter_free hs hfree).2 ⟨hd, hb⟩] at hnone
        cases hnone
    · intro hnot
      have hfree := ih.2 fun j hj => hnot j (by omega)
      rw [Option.eq_none_iff_forall_ne_some]
      intro b hb
      exact hnot n (Nat.lt_succ_self n) s hs ((contextAfter_free hs hfree).1 hb).1

/-- What a name is bound to after the first `n` lines is what the first of them that defines it made. -/
theorem contextAfter_boundAt {n : Nat} (hn : n ≤ (Text.sourceLines source).length) {label : Text} {b : Binding}
    (h : (contextAfter name source n).symbols.binding? label = some b) :
    ∃ i < n, ∃ s, (assemble name source).BoundAt label i s ∧
      (newBinding (contextAfter name source i) s).result = some b := by
  induction n generalizing b with
  | zero => cases h
  | succ n ih =>
    obtain ⟨s, hs⟩ := exists_statement name hn
    cases hbefore : (contextAfter name source n).symbols.binding? label with
    | some bound =>
      obtain ⟨i, hi, t, ht, hb⟩ := ih (by omega) hbefore
      have hsame := (contextAfter_extends (Nat.le_succ n) hn).binding? hbefore
      rw [h] at hsame
      cases hsame
      exact ⟨i, by omega, t, ht, hb⟩
    | none =>
      have hfree := SymbolTable.binding?_eq_none.1 hbefore
      obtain ⟨hd, hb⟩ := (contextAfter_free hs hfree).1 h
      exact ⟨n, Nat.lt_succ_self n, s, ⟨hs, hd, (contextAfter_lookup_eq_none (by omega)).1 hfree⟩, hb⟩

/-- Code adds uses to the bindings of a module and changes nothing else about them. -/
theorem assemble_binding? (label : Text) : (assemble name source).symbols.binding? label =
    (contextAfter name source (Text.sourceLines source).length).symbols.binding? label := by
  rw [contextAfter_all name source (Nat.le_refl _)]
  unfold assemble
  rw [Assembly.generate_symbols]
  refine List.foldlRecOn (motive := fun t : SymbolTable => t.binding? label = _) _ _ rfl fun t ht s _ => ?_
  rw [SymbolTable.binding?_useAll, ht]

end Run

/-! ## Redefinitions -/

/-- A report of a name that is bound already. -/
def Cause.isRedefinition : Cause → Bool
  | .redeclaredSymbol _ _ => true
  | _ => false

def redefinitions (errors : List Diagnostic) : List Diagnostic := errors.filter (·.cause.isRedefinition)

theorem redefinitions_append (xs ys : List Diagnostic) :
    redefinitions (xs ++ ys) = redefinitions xs ++ redefinitions ys := List.filter_append ..

theorem redefinitions_eq_nil {errors : List Diagnostic} (h : ∀ e ∈ errors, e.cause.isRedefinition = false) :
    redefinitions errors = [] := List.filter_eq_nil_iff.2 fun e he => by simp [h e he]

theorem Cause.AboutOperands.isRedefinition {cause : Cause} (h : cause.AboutOperands) :
    cause.isRedefinition = false := by
  cases cause <;> first | rfl | cases h

theorem Effects.Under.redefinitions {symbols : SymbolTable} {e : Effects} (h : e.Under symbols) :
    redefinitions e.errors = [] := redefinitions_eq_nil fun d hd => (h.errors d hd).isRedefinition

theorem Statement.checked_redefinitions (line : Int) (address : Value) (source : Text) :
    redefinitions (Statement.checked line address source).errors = [] := by
  have hcharacters : redefinitions (Statement.read line address source).characterErrors = [] := by
    refine redefinitions_eq_nil fun e he => ?_
    unfold Statement.characterErrors at he
    split at he
    · cases he
    · rcases List.mem_cons.1 he with rfl | he
      · rfl
      · obtain ⟨note, -, rfl⟩ := List.mem_map.1 he
        rfl
  have hlabel (s : Statement) : redefinitions s.labelErrors = [] := by
    unfold Statement.labelErrors
    split <;> rfl
  have hoperation (s : Statement) : redefinitions s.withOperation.errors = redefinitions s.errors := by
    unfold Statement.withOperation
    split
    · rfl
    · split
      · rfl
      · exact (redefinitions_append _ _).trans (List.append_nil _)
  have hread : redefinitions (Statement.read line address source).errors = [] := by
    unfold Statement.read
    split
    · rw [hoperation, Statement.note_errors, redefinitions_append, hlabel]
      rfl
    · rfl
  show redefinitions (_ ++ _) = []
  rw [redefinitions_append, hcharacters, hread]
  rfl

/-- The binding that stands in the way of a statement's label. -/
def Statement.boundBefore? (s : Statement) (symbols : SymbolTable) : Option Binding :=
  if s.hasLabel = true ∧ s.operation.directive? ≠ some .moduleName then symbols.lookup s.parts.label else none

theorem Statement.boundBefore?_eq_some {s : Statement} {symbols : SymbolTable} {b : Binding} :
    s.boundBefore? symbols = some b ↔ s.hasLabel = true ∧ s.operation.directive? ≠ some .moduleName ∧
      symbols.lookup s.parts.label = some b := by
  unfold boundBefore?
  simp [and_assoc]

/-- The report of a label that is bound already. -/
def Statement.redefinition (s : Statement) (b : Binding) : Diagnostic :=
  ⟨s.labelCursor, .redeclaredSymbol s.parts.label b.line⟩

/-- What a statement reports about its label depends on its line alone. -/
theorem Statement.SameLine.redefinitions {s t : Statement} (h : s.SameLine t) (symbols : SymbolTable) :
    (s.boundBefore? symbols).toList.map s.redefinition = (t.boundBefore? symbols).toList.map t.redefinition := by
  obtain ⟨hline, -, hparts, hoperation⟩ := h
  cases s
  cases t
  cases hline
  cases hparts
  cases hoperation
  rfl

theorem bindLabel_redefinitions (c : Context) (s : Statement) :
    redefinitions (bindLabel c s).2 = (s.boundBefore? c.symbols).toList.map s.redefinition := by
  unfold Statement.boundBefore?
  rw [bindLabel_eq]
  by_cases hl : s.hasLabel = true
  · rw [if_pos hl]
    by_cases hm : s.operation.directive? = some .moduleName
    · rw [if_pos hm, if_neg fun h => h.2 hm]
      rfl
    · rw [if_neg hm, if_pos ⟨hl, hm⟩]
      cases c.symbols.lookup s.parts.label with
      | some b => rfl
      | none => exact (newBinding_under c s).redefinitions
  · rw [if_neg hl, if_neg fun h => hl h.1]
    split <;> rfl

theorem advance_redefinitions (c : Context) (s : Statement) :
    redefinitions (advance c s).2.errors = redefinitions s.errors := by
  unfold advance
  split
  · exact (redefinitions_append _ _).trans (by rw [(orgTarget_under c s).redefinitions, List.append_nil])
  · exact (redefinitions_append _ _).trans (by rw [(blockTarget_under c s).redefinitions, List.append_nil])
  · split
    · rfl
    · exact (redefinitions_append _ _).trans (List.append_nil _)

namespace Assembly

variable {name source : Text}

/-- The redefinitions that a statement reports: one if its label is bound by the lines before it, and else none. -/
theorem assemble_redefinitions {i : Nat} {s : Statement} (h : (assemble name source).statements[i]? = some s) :
    redefinitions s.errors = (s.boundBefore? (contextAfter name source i).symbols).toList.map s.redefinition := by
  obtain ⟨text, htext, hsame⟩ := assemble_sameLine h
  rw [assemble_statements, htext] at h
  cases h
  rw [hsame.redefinitions, ← bindLabel_redefinitions]
  show redefinitions (_ ++ _) = _
  rw [redefinitions_append, (encode_under _ _).redefinitions, List.append_nil, layOutLine_eq, advance_redefinitions,
    Statement.note_errors, redefinitions_append, Statement.checked_redefinitions, List.nil_append]

/-- The binding of a name in an assembled module is the one that the first statement to define the name made, with
the lines that use it. -/
theorem assemble_boundAt {label : Text} {b : Binding} (h : (assemble name source).symbols.lookup label = some b) :
    ∃ i s, (assemble name source).BoundAt label i s ∧ NewBinding (contextAfter name source i) s b.bare := by
  have hb := SymbolTable.binding?_of_lookup h
  rw [assemble_binding?] at hb
  obtain ⟨i, -, s, hs, hnew⟩ := contextAfter_boundAt (Nat.le_refl _) hb
  exact ⟨i, s, hs, newBinding_cases hnew⟩

theorem assemble_lookup_eq_none {label : Text} : (assemble name source).symbols.lookup label = none ↔
    ∀ s ∈ (assemble name source).statements, ¬ s.Defines label := by
  rw [← SymbolTable.binding?_eq_none, assemble_binding?, SymbolTable.binding?_eq_none,
    contextAfter_lookup_eq_none (Nat.le_refl _)]
  constructor
  · intro h s hs
    obtain ⟨j, hj⟩ := List.getElem?_of_mem hs
    obtain ⟨text, htext, -⟩ := assemble_sameLine hj
    exact h j (List.getElem?_eq_some_iff.1 htext).1 s hj
  · intro h j _ t ht
    exact h t (List.mem_of_getElem? ht)

/-- A name that is bound by the lines before a statement is bound in the module, by one of these lines. -/
theorem lookup_contextAfter {i : Nat} (hi : i ≤ (Text.sourceLines source).length) {label : Text} {b : Binding}
    (h : (contextAfter name source i).symbols.lookup label = some b) :
    (∃ j < i, ∃ t, (assemble name source).BoundAt label j t) ∧
    ∃ final, (assemble name source).symbols.lookup label = some final ∧ final.bare = b.bare := by
  have hb := SymbolTable.binding?_of_lookup h
  constructor
  · obtain ⟨j, hj, t, ht, -⟩ := contextAfter_boundAt hi hb
    exact ⟨j, hj, t, ht⟩
  · have hfinal := (contextAfter_extends hi (Nat.le_refl _)).binding? hb
    rw [← assemble_binding?] at hfinal
    exact Option.map_eq_some_iff.1 hfinal

/-- The first definition wins, and exactly the redefinitions are reported. A name is bound in a module exactly if
some statement defines it. Then its line is that of the first such statement, and its value is the placeholder for
an import, what the operand counts for under the bindings of the lines before for an `equ`, and else the address of
the statement. A statement reports a redefinition exactly if it has a label, is no `module` statement and an earlier
one binds the label; it reports one only, which quotes the line that binds the label. -/
theorem assemble_first_definition_wins (name source n : Text) :
    let a := assemble name source
    ((∃ b, a.symbols.lookup n = some b) ↔ ∃ s ∈ a.statements, s.Defines n) ∧
    (∀ b, a.symbols.lookup n = some b → ∃ i s, a.BoundAt n i s ∧ s.line = 1 + i ∧ b.line = s.line ∧
      b.value = s.definedValue (contextAfter name source i).symbols) ∧
    ∀ (i : Nat) (s : Statement), a.statements[i]? = some s →
      ((∃ e ∈ s.errors, e.cause.isRedefinition = true) ↔ s.hasLabel = true ∧
        s.operation.directive? ≠ some .moduleName ∧ ∃ j < i, ∃ t, a.BoundAt s.parts.label j t) ∧
      ((∃ e ∈ s.errors, e.cause.isRedefinition = true) → ∃ b, a.symbols.lookup s.parts.label = some b ∧
        redefinitions s.errors = [⟨s.labelCursor, .redeclaredSymbol s.parts.label b.line⟩]) := by
  refine ⟨?_, fun b hb => ?_, fun i s hs => ?_⟩
  · rw [← Option.isSome_iff_exists, ← Option.ne_none_iff_isSome, ne_eq, assemble_lookup_eq_none]
    simp
  · obtain ⟨i, s, hs, hnew⟩ := assemble_boundAt hb
    obtain ⟨text, htext, hsame⟩ := assemble_sameLine hs.statement
    have hplaced := Statement.checked_placed (1 + i) (contextAfter name source i).counter text
    exact ⟨i, s, hs, hsame.line.trans hplaced.line, hnew.line, hnew.value (hsame.address.trans hplaced.address)⟩
  · obtain ⟨text, htext, -⟩ := assemble_sameLine hs
    have hi : i ≤ (Text.sourceLines source).length := Nat.le_of_lt (List.getElem?_eq_some_iff.1 htext).1
    have hreports := assemble_redefinitions hs
    have hany : (∃ e ∈ s.errors, e.cause.isRedefinition = true) ↔
        ∃ b, s.boundBefore? (contextAfter name source i).symbols = some b := by
      constructor
      · rintro ⟨e, he, hr⟩
        have hmem : e ∈ redefinitions s.errors := List.mem_filter.2 ⟨he, hr⟩
        rw [hreports] at hmem
        obtain ⟨b, hb, -⟩ := List.mem_map.1 hmem
        exact ⟨b, Option.mem_toList.1 hb⟩
      · rintro ⟨b, hb⟩
        have hmem : s.redefinition b ∈ redefinitions s.errors := by
          rw [hreports, hb]
          exact List.mem_cons_self
        exact ⟨_, List.mem_filter.1 hmem⟩
    rw [hany]
    refine ⟨⟨?_, ?_⟩, ?_⟩
    · rintro ⟨b, hb⟩
      obtain ⟨hl, hm, hlookup⟩ := Statement.boundBefore?_eq_some.1 hb
      exact ⟨hl, hm, (lookup_contextAfter hi hlookup).1⟩
    · rintro ⟨hl, hm, j, hj, t, ht⟩
      have hbound : (contextAfter name source i).symbols.lookup s.parts.label ≠ none := fun hnone =>
        (contextAfter_lookup_eq_none hi).1 hnone j hj t ht.statement ht.defines
      obtain ⟨b, hb⟩ := Option.ne_none_iff_exists'.1 hbound
      exact ⟨b, Statement.boundBefore?_eq_some.2 ⟨hl, hm, hb⟩⟩
    · rintro ⟨b, hb⟩
      obtain ⟨-, -, hlookup⟩ := Statement.boundBefore?_eq_some.1 hb
      obtain ⟨final, hfinal, hbare⟩ := (lookup_contextAfter hi hlookup).2
      have hline : final.bare.line = b.bare.line := by rw [hbare]
      refine ⟨final, hfinal, ?_⟩
      rw [hreports, hb, show final.line = b.line from hline]
      rfl

def manyLabels : Text := "x import m\nx module\nx equ y+1\nx data 2\nx import m,f"

set_option maxRecDepth 4000 in
/-- An import without a foreign name and a `module` statement leave their label free, and an `equ` whose operand is
wrong binds it, so that the `data` and the import after it are redefinitions. -/
theorem assemble_first_definition_wins_equ : ∃ b s t,
    (assemble [] manyLabels).symbols.lookup "x" = some b ∧
    (assemble [] manyLabels).BoundAt "x" 2 s ∧ b.line = 3 ∧ b.value = .const 1 ∧
    b.value = s.definedValue (contextAfter [] manyLabels 2).symbols ∧
    (assemble [] manyLabels).statements[4]? = some t ∧
    redefinitions t.errors = [⟨⟨5, 1, 1⟩, .redeclaredSymbol "x" 3⟩] := by
  obtain ⟨-, hvalue, hreports⟩ := assemble_first_definition_wins [] manyLabels "x"
  have hbound : ((assemble [] manyLabels).symbols.lookup "x").map (fun b => (b.line, b.value)) =
      some (3, .const 1) := by decide +kernel
  have hlast : (assemble [] manyLabels).statements[4]?.map (fun s =>
      (s.labelCursor, s.parts.label, s.errors.any (·.cause.isRedefinition))) =
        some (⟨5, 1, 1⟩, Text.ofString "x", true) := by decide +kernel
  obtain ⟨b, hb, hb'⟩ := Option.map_eq_some_iff.1 hbound
  obtain ⟨t, ht, ht'⟩ := Option.map_eq_some_iff.1 hlast
  simp only [Prod.mk.injEq] at hb' ht'
  obtain ⟨i, s, hs, hline, hbline, hvalue⟩ := hvalue b hb
  obtain rfl : i = 2 := by omega
  obtain ⟨final, hfinal, hone⟩ := (hreports 4 t ht).2 (List.any_eq_true.1 ht'.2.2)
  rw [ht'.2.1, hb] at hfinal
  cases hfinal
  rw [ht'.1, ht'.2.1, hb'.1] at hone
  exact ⟨b, s, t, hb, hs, hb'.1, hb'.2, hvalue, ht, hone⟩

end Assembly

end Sigma16
