/-
One line in the place of another. The outputs of a module depend on its statements through what these
contribute: words, notes for the linker, uses of names and the number of diagnostics. So a line that leaves
the context as another one does, and contributes the same, can take its place in any source.
-/
import Sigma16.Metadata
import Sigma16.Proofs.Line
import Sigma16.Proofs.Persistence

namespace Sigma16

/-! ## What a statement contributes -/

/-- What the outputs of a module take from a statement. -/
structure Contribution where
  line : Int
  address : Word
  origin : Option Word
  words : List Word
  uses : List Text
  relocations : List Word
  imports : List Import
  exports : List Export
  /-- The number of diagnostics, whatever their places and causes. -/
  errorCount : Nat
  deriving DecidableEq

/-- The contribution of a statement under the bindings of a module. -/
def Context.contribution (c : Context) (s : Statement) : Contribution :=
  let o := encode c.symbols s
  { line := s.line
    address := s.address.word
    origin := newOrigin? c.counter s
    words := o.result
    uses := o.effects.uses
    relocations := o.effects.relocations
    imports := o.effects.imports
    exports := o.effects.exports
    errorCount := s.errors.length + o.effects.errors.length }

namespace Assembly

/-- Modules that are the same to a user, except for the wording and the places of diagnostics. -/
structure SameOutput (a b : Assembly) : Prop where
  objectText : b.objectText = a.objectText
  memory : b.memory = a.memory
  relocations : b.relocations = a.relocations
  addressMap : b.addressMap = a.addressMap
  symbols : b.symbols = a.symbols
  errorCount : b.errorCount = a.errorCount

def contributions (a : Assembly) : List Contribution := a.statements.map a.toContext.contribution

section Contributions

variable (a : Assembly)

theorem relocations_contributions :
    a.generate.relocations = a.relocations ++ a.contributions.flatMap (·.relocations) := by
  rw [generate_relocations, contributions, List.flatMap_map]
  rfl

theorem exports_contributions : a.generate.exports = a.exports ++ a.contributions.flatMap (·.exports) := by
  rw [generate_exports, contributions, List.flatMap_map]
  rfl

theorem imports_contributions : a.generate.imports = a.imports ++ a.contributions.flatMap (·.imports) := by
  rw [generate_imports, contributions, List.flatMap_map]
  rfl

theorem symbols_contributions : a.generate.symbols =
    a.contributions.foldl (fun symbols x => symbols.useAll x.line x.uses) a.symbols := by
  rw [generate_symbols, contributions, List.foldl_map]
  rfl

theorem image_contributions : a.generate.image =
    a.contributions.foldl (fun image x => image.storeAll x.address x.line x.words) a.image := by
  rw [generate_image, contributions, List.foldl_map]
  rfl

theorem code_contributions (pending : List Word) :
    Record.ofCode pending (a.statements.map fun s => (newOrigin? a.counter s, (encode a.symbols s).result)) =
      Record.ofCode pending (a.contributions.map fun x => (x.origin, x.words)) := by
  rw [contributions, List.map_map]
  rfl

theorem errorCount_contributions :
    a.generate.errorCount = (a.contributions.map (·.errorCount)).foldr (· + ·) 0 := by
  unfold errorCount errors
  rw [generate_statements, List.length_flatMap, List.sum_eq_foldr, contributions, List.map_map, List.map_map]
  congr 1
  apply List.map_congr_left
  intro s _
  exact List.length_append

end Contributions

/-- Statements that contribute the same make the same module. -/
theorem generate_sameOutput {a b : Assembly} {statements : List Statement} (hb : b = { a with statements })
    (h : statements.map a.toContext.contribution = a.contributions) : a.generate.SameOutput b.generate := by
  -- every output is a function of the contributions
  have hcontributions : b.contributions = a.contributions := by
    rw [hb]
    exact h
  have hrelocations : b.generate.relocations = a.generate.relocations := by
    rw [relocations_contributions, relocations_contributions, hcontributions, hb]
  have hexports : b.generate.exports = a.generate.exports := by
    rw [exports_contributions, exports_contributions, hcontributions, hb]
  have himports : b.generate.imports = a.generate.imports := by
    rw [imports_contributions, imports_contributions, hcontributions, hb]
  have himage : b.generate.image = a.generate.image := by
    rw [image_contributions, image_contributions, hcontributions, hb]
  have hrecords : b.generate.records = a.generate.records := by
    rw [generate_records, generate_records, hrelocations, hexports, himports, code_contributions, code_contributions,
      hcontributions, hb]
  constructor
  · unfold objectText
    rw [hrecords]
  · unfold memory
    rw [himage]
  · exact hrelocations
  · unfold addressMap
    rw [himage]
  · rw [symbols_contributions, symbols_contributions, hcontributions, hb]
  · rw [errorCount_contributions, errorCount_contributions, hcontributions]

end Assembly

/-! ## A source with another line -/

/-- The source with its `n`-th line, the first being 0, replaced. -/
def Text.withLine (source : Text) (n : Nat) (line : Text) : Text := join "\n" ((sourceLines source).set n line)

/-- Only the one line is another. -/
theorem Text.sourceLines_withLine (source : Text) (n : Nat) {line : Text} (h : ∀ b ∈ line, isLineByte b = true) :
    sourceLines (source.withLine n line) = (sourceLines source).set n line := by
  refine sourceLines_join ?_ ?_
  · intro hnil
    exact List.splitOn_ne_nil _ _ ((List.set_eq_nil_iff _ _).1 hnil)
  · intro other hother
    rcases List.mem_or_eq_of_mem_set hother with hmem | rfl
    · exact sourceLines_bytes source other hmem
    · exact h

/-- If two lines leave the same context, then so do sources in which one stands for the other, and they have
the same statements but for that line. -/
theorem layOut_set : ∀ {sources : List Text} {n : Nat} {c : Context} {k : Int} {line line' : Text},
    sources[n]? = some line →
    (layOutLine (layOut c k (sources.take n)).1 (k + n) line').1 =
      (layOutLine (layOut c k (sources.take n)).1 (k + n) line).1 →
    layOut c k (sources.set n line') =
      ((layOut c k sources).1,
        (layOut c k sources).2.set n (layOutLine (layOut c k (sources.take n)).1 (k + n) line').2)
  | [], _, _, _, _, _, hline, _ => by simp at hline
  | source :: sources, 0, c, k, line, line', hline, hcontext => by
    cases Option.some.inj hline
    simp only [List.take_zero, layOut, Int.natCast_zero, Int.add_zero] at hcontext
    simp only [List.set_cons_zero, List.take_zero, layOut, hcontext, Int.natCast_zero, Int.add_zero]
  | source :: sources, n + 1, c, k, line, line', hline, hcontext => by
    -- the first line is laid out as before, and both sources go on from there
    have hnumber : k + (n + 1 : Nat) = k + 1 + n := by omega
    rw [List.take_succ_cons, hnumber] at hcontext ⊢
    have ih := layOut_set (c := (layOutLine c k source).1) (k := k + 1)
      (List.getElem?_cons_succ.symm.trans hline) hcontext
    simp only [List.set_cons_succ, layOut, ih]

namespace Assembly

section WithLine

variable {name source : Text} {n : Nat} {line line' : Text} (hline : (Text.sourceLines source)[n]? = some line)
  (hbytes : ∀ b ∈ line', Text.isLineByte b = true)
  (hcontext : (layOutLine (contextAfter name source n) (1 + n) line').1 =
    (layOutLine (contextAfter name source n) (1 + n) line).1)

include hline hbytes hcontext

theorem ofSource_withLine : ofSource (.initial name) (source.withLine n line') =
    { ofSource (.initial name) source with
      statements := (ofSource (.initial name) source).statements.set n
        (layOutLine (contextAfter name source n) (1 + n) line').2 } := by
  have hset := layOut_set (c := .initial name) (k := 1) hline hcontext
  unfold ofSource
  rw [Text.sourceLines_withLine source n hbytes, hset]
  rfl

/-- The statement of the new line, with its code. -/
theorem assemble_withLine_getElem? : ∃ code errors, (assemble name (source.withLine n line')).statements[n]? =
    some { (layOutLine (contextAfter name source n) (1 + n) line').2 with code, errors } := by
  have hn : n < (ofSource (.initial name) source).statements.length := by
    rw [ofSource_length]
    exact (List.getElem?_eq_some_iff.1 hline).1
  unfold assemble
  rw [ofSource_withLine hline hbytes hcontext, generate_statements, List.getElem?_map, List.getElem?_set_self hn]
  exact ⟨_, _, rfl⟩

/-- A line takes the place of another that leaves the same context and contributes the same: nothing else
of the module changes. -/
theorem assemble_withLine (hcontribution : ∀ c : Context,
      c.contribution (layOutLine (contextAfter name source n) (1 + n) line').2 =
        c.contribution (layOutLine (contextAfter name source n) (1 + n) line).2) :
    (assemble name source).SameOutput (assemble name (source.withLine n line')) := by
  have hstatement : (ofSource (.initial name) source).statements[n]? =
      some (layOutLine (contextAfter name source n) (1 + n) line).2 := by
    rw [ofSource_getElem?, hline]
    rfl
  refine generate_sameOutput (ofSource_withLine hline hbytes hcontext) ?_
  rw [List.map_set, hcontribution]
  obtain ⟨hn, hget⟩ := List.getElem?_eq_some_iff.1 hstatement
  rw [← hget, contributions, ← List.map_set, List.set_getElem_self]

end WithLine

end Assembly

end Sigma16
