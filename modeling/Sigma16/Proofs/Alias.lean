/-
Imports and their aliases. A name that stands for a word of another module is the label of an import, or of an `equ`
whose operand is such a name; the operand is bound by an earlier line, so following operands from line to line ends,
and it ends at the import that names the foreign symbol. Whatever the linker is told comes from such a name.
-/
import Sigma16.Proofs.Definition
import Sigma16.Proofs.Object

namespace Sigma16

/-- An operand that counts as a placeholder is a name bound to one. -/
theorem SymbolTable.denote_external {t : SymbolTable} {text : Text} (h : (t.denote text).isExternal = true) :
    ∃ b, t.lookup text = some b ∧ b.value = t.denote text := by
  -- the value does not depend on the statement around the operand
  have hresult := evaluate_result t (.read 0 (.const 0) []) text
  rw [← hresult] at h ⊢
  exact evaluate_external h

/-- A bound name counts for the value of its binding. -/
theorem SymbolTable.denote_name {t : SymbolTable} {name : Text} {b : Binding} (hname : Text.isName name = true)
    (hb : t.lookup name = some b) : t.denote name = b.value := by
  have hterm : Term.ofText name = .name name := if_pos hname
  have hform : Expression.ofText? name = some (.term name) := if_pos (by simp [Text.isTerm, hname])
  unfold denote termValue?
  simp only [hform, hterm, hb]
  rfl

namespace Assembly

/-- Following the operands of `equ` statements from the `i`-th statement, each to the statement that binds the
operand, leads to an import of a foreign symbol. -/
inductive LeadsTo (a : Assembly) (moduleName foreignName : Text) : Nat → Prop where
  | imported {i : Nat} {s : Statement} : a.statements[i]? = some s → s.operation.directive? = some .importName →
      s.operands = [moduleName, foreignName] → LeadsTo a moduleName foreignName i
  | equ {i j : Nat} {s t : Statement} : a.statements[i]? = some s → s.operation.directive? = some .equ →
      a.BoundAt s.parts.operands j t → j < i → LeadsTo a moduleName foreignName j → LeadsTo a moduleName foreignName i

theorem LeadsTo.exists_import {a : Assembly} {moduleName foreignName : Text} {i : Nat}
    (h : a.LeadsTo moduleName foreignName i) : ∃ s ∈ a.statements, s.operation.directive? = some .importName ∧
      s.operands = [moduleName, foreignName] := by
  induction h with
  | imported hs hd ho => exact ⟨_, List.mem_of_getElem? hs, hd, ho⟩
  | equ _ _ _ _ _ ih => exact ih

theorem BoundAt.unique {a : Assembly} {label : Text} {i j : Nat} {s t : Statement} (hs : a.BoundAt label i s)
    (ht : a.BoundAt label j t) : i = j := by
  have hij : ¬ i < j := fun h => ht.first i h s hs.statement hs.defines
  have hji : ¬ j < i := fun h => hs.first j h t ht.statement ht.defines
  omega

variable {name source : Text}

/-- A statement that binds its label to a placeholder leads to the import of the foreign symbol in the binding. -/
theorem newBinding_leadsTo {i : Nat} : ∀ {label : Text} {s : Statement} {b : Binding},
    (assemble name source).BoundAt label i s → NewBinding (contextAfter name source i) s b →
      b.value.isExternal = true → (assemble name source).LeadsTo b.moduleName b.foreignName i := by
  induction i using Nat.strongRecOn with
  | ind i ih =>
    intro label s b hs hnew hexternal
    cases hnew with
    | imported hd ho _ _ => exact .imported hs.statement hd ho
    | address _ _ =>
      -- the location counter never leaves the module
      rw [(contextAfter_wf name source i).counter.not_external] at hexternal
      cases hexternal
    | equ hd htarget =>
      obtain ⟨target, hlookup, hvalue⟩ := SymbolTable.denote_external hexternal
      obtain ⟨text, htext, -⟩ := assemble_sameLine hs.statement
      have hi : i ≤ (Text.sourceLines source).length := Nat.le_of_lt (List.getElem?_eq_some_iff.1 htext).1
      rw [aliasTarget, if_pos hexternal, hlookup] at htarget
      cases htarget
      obtain ⟨j, hj, t, ht, hmade⟩ := contextAfter_boundAt hi (SymbolTable.binding?_of_lookup hlookup)
      have htarget : target.bare.value.isExternal = true := by
        rw [show target.bare.value = _ from hvalue]
        exact hexternal
      have hroot := ih j hj ht (newBinding_cases hmade) htarget
      exact .equ hs.statement hd ht hj hroot

/-- Conversely, a statement that leads to an import binds its label to the placeholder for the foreign symbol. -/
theorem LeadsTo.newBinding {moduleName foreignName : Text} {i : Nat}
    (h : (assemble name source).LeadsTo moduleName foreignName i) : ∀ {s : Statement} {b : Binding},
    (assemble name source).statements[i]? = some s → NewBinding (contextAfter name source i) s b →
      b.value = .external ∧ b.moduleName = moduleName ∧ b.foreignName = foreignName := by
  induction h with
  | imported hs hd ho =>
    intro s b hs' hnew
    rw [hs] at hs'
    cases hs'
    cases hnew with
    | equ hequ _ => rw [hd] at hequ; cases hequ
    | address _ hnot => exact absurd hd hnot
    | imported _ ho' _ _ =>
      rw [ho] at ho'
      cases ho'
      exact ⟨rfl, rfl, rfl⟩
  | @equ i j s t hs hd ht hj _ ih =>
    intro s' b hs' hnew
    rw [hs] at hs'
    cases hs'
    obtain ⟨text, htext, -⟩ := assemble_sameLine hs
    have hi : i ≤ (Text.sourceLines source).length := Nat.le_of_lt (List.getElem?_eq_some_iff.1 htext).1
    -- the operand is bound by the lines before, as the statement that binds it made it
    have hbound : (contextAfter name source i).symbols.lookup s.parts.operands ≠ none := fun hnone =>
      (contextAfter_lookup_eq_none hi).1 hnone j hj t ht.statement ht.defines
    obtain ⟨target, htarget⟩ := Option.ne_none_iff_exists'.1 hbound
    obtain ⟨j', -, t', ht', hmade⟩ := contextAfter_boundAt hi (SymbolTable.binding?_of_lookup htarget)
    obtain rfl := ht'.unique ht
    obtain ⟨hvalue, hmodule, hforeign⟩ := ih ht'.statement (newBinding_cases hmade)
    have hdenote : (contextAfter name source i).symbols.denote s.parts.operands = .external :=
      (SymbolTable.denote_name ht.defines.valid htarget).trans hvalue
    cases hnew with
    | imported himport _ _ _ => rw [hd] at himport; cases himport
    | address hnot _ => exact absurd hd hnot
    | equ _ hroot =>
      have hexternal : Value.external.isExternal = true := rfl
      rw [hdenote, aliasTarget, if_pos hexternal, htarget] at hroot
      cases hroot
      exact ⟨hdenote, hmodule, hforeign⟩

/-- A name that is bound to a placeholder is bound by a statement that leads to the import of its foreign symbol. -/
theorem contextAfter_leadsTo {n : Nat} (hn : n ≤ (Text.sourceLines source).length) {label : Text} {b : Binding}
    (h : (contextAfter name source n).symbols.lookup label = some b) (hexternal : b.value.isExternal = true) :
    ∃ i s, (assemble name source).BoundAt label i s ∧ b.line = s.line ∧
      (assemble name source).LeadsTo b.moduleName b.foreignName i := by
  obtain ⟨i, -, s, hs, hmade⟩ := contextAfter_boundAt hn (SymbolTable.binding?_of_lookup h)
  have hnew : NewBinding (contextAfter name source i) s b.bare := newBinding_cases hmade
  have hroot := newBinding_leadsTo hs hnew hexternal
  exact ⟨i, s, hs, hnew.line, hroot⟩

/-- The import records of a module are for fields that its statements leave to the linker. -/
theorem exists_encode_of_record {item : Import} (h : Record.imported item ∈ (assemble name source).records) :
    ∃ s, item ∈ (encode (ofSource (.initial name) source).symbols s).effects.imports := by
  rcases mem_generate_records rfl rfl rfl h with h | ⟨_, _, h⟩ | ⟨_, h⟩ | ⟨_, h⟩ | ⟨_, _, _, _, h⟩ | ⟨s, -, _, hitem, h⟩
  all_goals cases h
  exact ⟨s, hitem⟩

/-- The linker is told only of symbols that a statement imports. -/
theorem exists_import_of_record {item : Import} (h : Record.imported item ∈ (assemble name source).records) :
    ∃ s ∈ (assemble name source).statements, s.operation.directive? = some .importName ∧
      s.operands = [item.moduleName, item.foreignName] := by
  obtain ⟨s, hitem⟩ := exists_encode_of_record h
  obtain ⟨label, b, hb, himported, hmodule, hforeign⟩ := (encode_under _ s).imports item hitem
  rw [← contextAfter_all name source (Nat.le_refl _)] at hb
  have hexternal : b.value.isExternal = true := by
    rw [← ((contextAfter_wf name source _).symbols.lookup hb).imported]
    exact himported
  obtain ⟨i, t, -, -, hroot⟩ := contextAfter_leadsTo (Nat.le_refl _) hb hexternal
  rw [hmodule, hforeign]
  exact hroot.exists_import

/-- Imports resolve to their root. A name of a module is bound to a placeholder exactly if its binding names another
module; then, from the statement that binds the name, following the operands of `equ` statements to strictly earlier
statements leads to an import whose operands are the two names of the foreign symbol in the binding. So every field
that another module fills is filled by a symbol that a statement of the source imports. -/
theorem assemble_imports_rooted (name source : Text) :
    let a := assemble name source
    (∀ (n : Text) (b : Binding), a.symbols.lookup n = some b →
      (b.value.isExternal = true ↔ b.moduleName ≠ []) ∧
      (b.value.isExternal = true → ∃ i s, a.BoundAt n i s ∧ b.line = s.line ∧
        a.LeadsTo b.moduleName b.foreignName i)) ∧
    ∀ item, Record.imported item ∈ a.records → ∃ s ∈ a.statements, s.operation.directive? = some .importName ∧
      s.operands = [item.moduleName, item.foreignName] := by
  refine ⟨fun n b hb => ⟨?_, fun hexternal => ?_⟩, fun item hitem => exists_import_of_record hitem⟩
  · rw [← ((assemble_symbols_wf name source).lookup hb).imported]
    simp [Binding.isImported]
  · obtain ⟨i, s, hs, hnew⟩ := assemble_boundAt hb
    have hroot := newBinding_leadsTo hs hnew hexternal
    exact ⟨i, s, hs, hnew.line, hroot⟩

def aliasOfAlias : Text := "x import m,f\ny equ x\nz equ y\ny equ 5\n data z"

set_option maxRecDepth 4000 in
/-- An alias of an alias of an import, in a module that tries to bind the first alias to a number later. -/
theorem assemble_imports_rooted_twice : ∃ b i s item,
    (assemble [] aliasOfAlias).symbols.lookup "z" = some b ∧
    (assemble [] aliasOfAlias).BoundAt "z" i s ∧ s.line = 3 ∧ (assemble [] aliasOfAlias).LeadsTo "m" "f" i ∧
    Record.imported item ∈ (assemble [] aliasOfAlias).records ∧
    ∃ t ∈ (assemble [] aliasOfAlias).statements,
      t.operation.directive? = some .importName ∧ t.operands = [item.moduleName, item.foreignName] := by
  obtain ⟨hnames, himports⟩ := assemble_imports_rooted [] aliasOfAlias
  have hbound : ((assemble [] aliasOfAlias).symbols.lookup "z").map (fun b =>
      (b.line, b.moduleName, b.foreignName, b.value)) = some (3, Text.ofString "m", Text.ofString "f", .external) := by
    decide +kernel
  have hitem : Record.imported ⟨Text.ofString "m", Text.ofString "f", 0, Text.ofString "data"⟩ ∈
      (assemble [] aliasOfAlias).records := by decide +kernel
  obtain ⟨b, hb, hb'⟩ := Option.map_eq_some_iff.1 hbound
  simp only [Prod.mk.injEq] at hb'
  obtain ⟨hline, hmodule, hforeign, hvalue⟩ := hb'
  obtain ⟨i, s, hs, hsline, hroot⟩ := (hnames "z" b hb).2 (by rw [hvalue]; rfl)
  rw [hmodule, hforeign] at hroot
  exact ⟨b, i, s, _, hb, hs, hsline.symm.trans hline, hroot, hitem, himports _ hitem⟩

end Assembly

end Sigma16
