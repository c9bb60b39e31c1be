/-
Comments, spacing and blank lines do not influence the code. Two sources that have the same words on the
lines that have any are laid out and encoded in step, except that each may have lines between that do
nothing. So they have the same object text, the same memory and the same relocations, and their symbol
tables differ in line numbers only.
-/
import Sigma16.Proofs.Loading
import Sigma16.Proofs.Renumbering

namespace Sigma16

open Outcome

/-! ## Lists with idle items between -/

/-- Lists whose items are alike one by one, except for idle items in either of them. -/
inductive Respaced {α : Type} (idle : α → Prop) (alike : α → α → Prop) : List α → List α → Prop where
  | nil : Respaced idle alike [] []
  | left {x : α} {xs ys : List α} : idle x → Respaced idle alike xs ys → Respaced idle alike (x :: xs) ys
  | right {y : α} {xs ys : List α} : idle y → Respaced idle alike xs ys → Respaced idle alike xs (y :: ys)
  | both {x y : α} {xs ys : List α} : alike x y → Respaced idle alike xs ys →
      Respaced idle alike (x :: xs) (y :: ys)

namespace Respaced

/-- Lists that are equal in all that matters of the items that are kept. -/
theorem of_filter {α γ : Type} {kept : α → Bool} {k k' : α → γ} : ∀ {xs ys : List α},
    (xs.filter kept).map k = (ys.filter kept).map k' →
      Respaced (fun x => kept x = false) (fun x y => k x = k' y) xs ys
  | [], [], _ => .nil
  | [], y :: ys, h => by
    cases hy : kept y with
    | false =>
      rw [List.filter_cons_of_neg (by simp [hy])] at h
      exact .right hy (of_filter h)
    | true =>
      rw [List.filter_cons_of_pos hy] at h
      cases h
  | x :: xs, ys, h => by
    cases hx : kept x with
    | false =>
      rw [List.filter_cons_of_neg (by simp [hx])] at h
      exact .left hx (of_filter h)
    | true =>
      -- an item that is kept waits for the next one that is kept on the other side
      rw [List.filter_cons_of_pos hx, List.map_cons] at h
      cases ys with
      | nil => cases h
      | cons y ys =>
        cases hy : kept y with
        | false =>
          rw [List.filter_cons_of_neg (by simp [hy]), ← List.map_cons, ← List.filter_cons_of_pos hx] at h
          exact .right hy (of_filter h)
        | true =>
          rw [List.filter_cons_of_pos hy, List.map_cons] at h
          obtain ⟨hhead, htail⟩ := List.cons.inj h
          exact .both hhead (of_filter htail)
termination_by xs ys => xs.length + ys.length

variable {α : Type} {idle : α → Prop} {alike : α → α → Prop} {xs ys : List α}

theorem flatMap_eq {γ : Type} {g g' : α → List γ} (h : Respaced idle alike xs ys) (hg : ∀ x, idle x → g x = [])
    (hg' : ∀ y, idle y → g' y = []) (hboth : ∀ x y, alike x y → g' y = g x) : ys.flatMap g' = xs.flatMap g := by
  induction h with
  | nil => rfl
  | left hx _ ih => rw [List.flatMap_cons, hg _ hx, ih, List.nil_append]
  | right hy _ ih => rw [List.flatMap_cons, hg' _ hy, ih, List.nil_append]
  | both hxy _ ih => rw [List.flatMap_cons, List.flatMap_cons, hboth _ _ hxy, ih]

theorem foldl_eq {σ : Type} {e : σ → σ} {g g' : σ → α → σ} (h : Respaced idle alike xs ys)
    (hg : ∀ state x, idle x → g state x = state) (hg' : ∀ state y, idle y → g' state y = state)
    (hboth : ∀ state x y, alike x y → g' (e state) y = e (g state x)) (state : σ) :
    ys.foldl g' (e state) = e (xs.foldl g state) := by
  induction h generalizing state with
  | nil => rfl
  | left hx _ ih => rw [List.foldl_cons, hg _ _ hx, ih]
  | right hy _ ih => rw [List.foldl_cons, hg' _ _ hy, ih]
  | both hxy _ ih => rw [List.foldl_cons, List.foldl_cons, hboth _ _ _ hxy, ih]

theorem ofCode_eq {g g' : α → Option Word × List Word} (h : Respaced idle alike xs ys)
    (hg : ∀ x, idle x → g x = (none, [])) (hg' : ∀ y, idle y → g' y = (none, []))
    (hboth : ∀ x y, alike x y → g' y = g x) (pending : List Word) :
    Record.ofCode pending (ys.map g') = Record.ofCode pending (xs.map g) := by
  induction h generalizing pending with
  | nil => rfl
  | left hx _ ih => rw [List.map_cons, hg _ hx, Record.ofCode, List.append_nil, ih]
  | right hy _ ih => rw [List.map_cons, hg' _ hy, Record.ofCode, List.append_nil, ih]
  | @both x y xs ys hxy _ ih =>
    rw [List.map_cons, List.map_cons, hboth _ _ hxy]
    obtain ⟨origin, words⟩ := g x
    cases origin with
    | none => exact ih _
    | some address => rw [Record.ofCode, Record.ofCode, ih]

end Respaced

/-! ## Blank lines -/

/-- Has the line a label, a mnemonic or operands, and not at most a comment? -/
def Text.hasWords (t : Text) : Bool := (Line.split t).words != ([], [], [])

/-- A statement that does nothing. -/
structure Statement.Idle (s : Statement) : Prop where
  operation : s.operation = .empty
  errors : causes s.errors = []

theorem Statement.Idle.encode {s : Statement} (h : s.Idle) (symbols : SymbolTable) : encode symbols s = pure [] := by
  unfold Sigma16.encode
  rw [h.operation]
  rfl

theorem Statement.Idle.newOrigin? {s : Statement} (h : s.Idle) (counter : Value) :
    Sigma16.newOrigin? counter s = none := by
  unfold Sigma16.newOrigin?
  rw [h.operation]
  rfl

theorem checked_blank {source : Text} (hn : '\n'.toUInt8 ∉ source) (hb : source.hasWords = false) (line : Int)
    (address : Value) : (Statement.checked line address source).Idle ∧
      (Statement.checked line address source).hasLabel = false := by
  simp only [Text.hasWords, bne_eq_false_iff_eq, Line.words, Prod.mk.injEq] at hb
  obtain ⟨hlabel, hmnemonic, -⟩ := hb
  have hread : Statement.read line address source = { line, address, source, parts := Line.split source } := by
    unfold Statement.read
    rw [Line.ofText?_eq_some hn]
    simp [Statement.labelErrors, Statement.withOperation, Statement.note, hlabel, hmnemonic]
  unfold Statement.checked
  rw [hread]
  refine ⟨⟨rfl, ?_⟩, ?_⟩
  · rw [causes_append, characterErrors_causes]
    rfl
  · simp [Statement.hasLabel, hlabel, Text.isName]

/-- A blank line leaves the context as it is. -/
theorem layOutLine_blank {c : Context} (hc : c.counter.IsLocal) {source : Text} (hn : '\n'.toUInt8 ∉ source)
    (hb : source.hasWords = false) (line : Int) :
    (layOutLine c line source).1 = c ∧ (layOutLine c line source).2.Idle := by
  obtain ⟨hidle, hlabel⟩ := checked_blank hn hb line c.counter
  have hplaced := Statement.checked_placed line c.counter source
  have hsize : (Statement.checked line c.counter source).size = 0 := by
    rw [hplaced.size, hidle.operation]
    rfl
  have hbind : bindLabel c (.checked line c.counter source) = (c, []) := by
    rw [bindLabel_eq, if_neg (by simp [hlabel]), hidle.operation]
    rfl
  rw [layOutLine_eq, hbind]
  generalize Statement.checked line c.counter source = s at hidle hsize
  have hadvance : advance c (s.note []) = (c, s.note []) := by
    unfold advance
    rw [Statement.note_operation, Statement.note_size, hidle.operation, hsize, Value.add_zero hc]
    rfl
  rw [hadvance]
  refine ⟨rfl, hidle.operation, ?_⟩
  rw [Statement.note_errors, List.append_nil, hidle.errors]

/-! ## A source line by line -/

/-- Layout of lines that carry their numbers. -/
def layOutNumbered (c : Context) : List (Text × Nat) → Context × List Statement
  | [] => (c, [])
  | (source, n) :: lines =>
    let (c, s) := layOutLine c n source
    let (c, ss) := layOutNumbered c lines
    (c, s :: ss)

theorem layOutNumbered_cons (c : Context) (x : Text × Nat) (xs : List (Text × Nat)) : layOutNumbered c (x :: xs) =
    ((layOutNumbered (layOutLine c x.2 x.1).1 xs).1,
      (layOutLine c x.2 x.1).2 :: (layOutNumbered (layOutLine c x.2 x.1).1 xs).2) := rfl

theorem layOut_eq_layOutNumbered : ∀ (sources : List Text) (c : Context) (n : Nat),
    layOut c n sources = layOutNumbered c (sources.zipIdx n)
  | [], _, _ => rfl
  | source :: sources, c, n => by
    rw [List.zipIdx_cons, layOutNumbered_cons, ← layOut_eq_layOutNumbered sources]
    rfl

/-- Lines with the same words, of which the second is the first renumbered. -/
def SameWords (f : Int → Int) (x y : Text × Nat) : Prop :=
  (f x.2, (Line.split x.1).words) = ((y.2 : Int), (Line.split y.1).words)

/-- Two sources in step. -/
theorem layOutNumbered_respaced {f : Int → Int} {xs ys : List (Text × Nat)}
    (h : Respaced (fun x => x.1.hasWords = false) (SameWords f) xs ys) : ∀ {c : Context}, c.WF →
    (∀ x ∈ xs, '\n'.toUInt8 ∉ x.1) → (∀ y ∈ ys, '\n'.toUInt8 ∉ y.1) →
    (layOutNumbered (c.renumbered f) ys).1 = (layOutNumbered c xs).1.renumbered f ∧
    Respaced Statement.Idle (Statement.Alike f) (layOutNumbered c xs).2 (layOutNumbered (c.renumbered f) ys).2 := by
  induction h with
  | nil => exact fun _ _ _ => ⟨rfl, .nil⟩
  | @left x xs ys hx _ ih =>
    intro c hc hxs hys
    obtain ⟨hcontext, hidle⟩ := layOutLine_blank hc.counter (hxs x List.mem_cons_self) hx x.2
    obtain ⟨hlast, hrest⟩ := ih hc (fun z hz => hxs z (List.mem_cons_of_mem _ hz)) hys
    rw [layOutNumbered_cons, hcontext]
    exact ⟨hlast, .left hidle hrest⟩
  | @right y xs ys hy _ ih =>
    intro c hc hxs hys
    have hcounter : (c.renumbered f).counter.IsLocal := hc.counter
    obtain ⟨hcontext, hidle⟩ := layOutLine_blank hcounter (hys y List.mem_cons_self) hy y.2
    obtain ⟨hlast, hrest⟩ := ih hc hxs (fun z hz => hys z (List.mem_cons_of_mem _ hz))
    rw [layOutNumbered_cons, hcontext]
    exact ⟨hlast, .right hidle hrest⟩
  | @both x y xs ys hxy _ ih =>
    intro c hc hxs hys
    obtain ⟨hline, hwords⟩ := Prod.mk.inj hxy
    obtain ⟨hcontext, halike⟩ := layOutLine_alike (f := f) (c := c) x.2 (hxs x List.mem_cons_self)
      (hys y List.mem_cons_self) hwords.symm
    rw [hline] at hcontext halike
    obtain ⟨hlast, hrest⟩ := ih (layOutLine_spec hc x.2 x.1).wf (fun z hz => hxs z (List.mem_cons_of_mem _ hz))
      (fun z hz => hys z (List.mem_cons_of_mem _ hz))
    rw [layOutNumbered_cons, layOutNumbered_cons, hcontext]
    exact ⟨hlast, .both halike hrest⟩

/-! ## Assembling in step -/

namespace Text

/-- The lines of a source that have words, with their numbers. -/
def wordLines (source : Text) : List (Text × Nat) := ((sourceLines source).zipIdx 1).filter (·.1.hasWords)

/-- Label, mnemonic and operands of the lines that have any. -/
def lineWords (source : Text) : List (Text × Text × Text) := source.wordLines.map fun x => (Line.split x.1).words

def lineNumbers (source : Text) : List Int := source.wordLines.map fun x => (x.2 : Int)

theorem lineNumbers_increase (source : Text) : source.lineNumbers.Pairwise (· < ·) := by
  unfold lineNumbers wordLines
  have hall : (((sourceLines source).zipIdx 1).map fun x => x.2).Pairwise (· < ·) := by
    rw [List.zipIdx_map_snd]
    exact List.pairwise_lt_range'
  have hkept := (List.pairwise_map.1 hall).filter (·.1.hasWords)
  exact List.pairwise_map.2 (hkept.imp Int.ofNat_lt.2)

end Text

/-- Numbers that are all different can be mapped to any others. -/
theorem exists_map_eq : ∀ {xs ys : List Int}, xs.length = ys.length → xs.Pairwise (· < ·) →
    ∃ f : Int → Int, xs.map f = ys
  | [], [], _, _ => ⟨id, rfl⟩
  | x :: xs, y :: ys, hlength, hxs => by
    obtain ⟨hx, hxs⟩ := List.pairwise_cons.1 hxs
    obtain ⟨f, hf⟩ := exists_map_eq (Nat.succ.inj hlength) hxs
    refine ⟨fun n => if n = x then y else f n, ?_⟩
    rw [List.map_cons, if_pos rfl, ← hf]
    congr 1
    apply List.map_congr_left
    intro n hn
    have hne : n ≠ x := by
      have := hx n hn
      omega
    rw [if_neg hne]

theorem map_lt_of_increase {f : Int → Int} : ∀ {xs : List Int}, xs.Pairwise (· < ·) → (xs.map f).Pairwise (· < ·) →
    ∀ m ∈ xs, ∀ n ∈ xs, m < n → f m < f n
  | [], _, _, m, hm, _, _, _ => by cases hm
  | x :: xs, hxs, hfxs, m, hm, n, hn, hmn => by
    obtain ⟨hx, hxs⟩ := List.pairwise_cons.1 hxs
    obtain ⟨hfx, hfxs⟩ := List.pairwise_cons.1 hfxs
    rcases List.mem_cons.1 hn with rfl | hn'
    · -- nothing in the list is below its head
      rcases List.mem_cons.1 hm with rfl | hm'
      · omega
      · have := hx m hm'
        omega
    · rcases List.mem_cons.1 hm with rfl | hm'
      · exact hfx _ (List.mem_map_of_mem hn')
      · exact map_lt_of_increase hxs hfxs m hm' n hn' hmn

namespace Assembly

variable {f : Int → Int} {s t : Text}

theorem ofSource_respaced (name : Text) (hw : s.lineWords = t.lineWords) (hf : s.lineNumbers.map f = t.lineNumbers) :
    (ofSource (.initial name) t).toContext = (ofSource (.initial name) s).toContext.renumbered f ∧
    Respaced Statement.Idle (Statement.Alike f) (ofSource (.initial name) s).statements
      (ofSource (.initial name) t).statements := by
  have hkeys : s.wordLines.map (fun x => (f x.2, (Line.split x.1).words)) =
      t.wordLines.map (fun y => ((y.2 : Int), (Line.split y.1).words)) := by
    have hzip := congr (congrArg List.zip hf) hw
    simp only [Text.lineNumbers, Text.lineWords, List.map_map, List.zip_map'] at hzip
    exact hzip
  have hplain : ∀ source : Text, ∀ x ∈ (Text.sourceLines source).zipIdx 1, '\n'.toUInt8 ∉ x.1 := fun source x hx =>
    Text.sourceLines_notMem source x.1 (List.fst_mem_of_mem_zipIdx hx)
  have hrun := layOutNumbered_respaced (Respaced.of_filter hkeys) (Context.initial_wf name) (hplain s) (hplain t)
  rw [← layOut_eq_layOutNumbered, ← layOut_eq_layOutNumbered] at hrun
  exact hrun

theorem causes_flatMap {α : Type} (g : α → List Diagnostic) (xs : List α) :
    causes (xs.flatMap g) = xs.flatMap fun x => causes (g x) := by
  unfold causes
  rw [List.filter_flatMap, List.map_flatMap]

/-- Modules that differ in line numbers and in the places of diagnostics only. -/
structure InStep (f : Int → Int) (a b : Assembly) : Prop where
  records : b.records = a.records
  relocations : b.relocations = a.relocations
  symbols : b.symbols = a.symbols.renumbered f
  errors : causes b.errors = (causes a.errors).map (·.renumbered f)

section Generate

variable {a b : Assembly} (hsymbols : b.symbols = a.symbols.renumbered f)
  (hs : Respaced Statement.Idle (Statement.Alike f) a.statements b.statements)

include hsymbols hs

/-- What all logs hold of one kind, if this kind does not depend on places. -/
theorem flatMap_effects {γ : Type} {g : Effects → List γ} (hg : g {} = [])
    (halike : ∀ e e' : Effects, e.Alike f e' → g e' = g e) :
    (b.statements.flatMap fun s => g (encode b.symbols s).effects) =
      a.statements.flatMap fun s => g (encode a.symbols s).effects := by
  have hidle : ∀ symbols s, Statement.Idle s → g (encode symbols s).effects = [] := by
    intro symbols s h
    rw [h.encode]
    exact hg
  rw [hsymbols]
  exact hs.flatMap_eq (hidle _) (hidle _) fun s s' h => halike _ _ (encode_alike a.symbols h).effects

theorem ofCode_statements (counter : Value) (pending : List Word) :
    Record.ofCode pending (b.statements.map fun s => (newOrigin? counter s, (encode b.symbols s).result)) =
      Record.ofCode pending (a.statements.map fun s => (newOrigin? counter s, (encode a.symbols s).result)) := by
  have hidle : ∀ symbols s, Statement.Idle s → (newOrigin? counter s, (encode symbols s).result) = (none, []) := by
    intro symbols s h
    rw [h.newOrigin?, h.encode]
    rfl
  rw [hsymbols]
  refine hs.ofCode_eq (hidle _) (hidle _) (fun s s' h => ?_) pending
  rw [newOrigin?_alike h, (encode_alike a.symbols h).result]

theorem generate_symbols_renumbered : b.generate.symbols = a.generate.symbols.renumbered f := by
  have hidle : ∀ symbols table s, Statement.Idle s →
      SymbolTable.useAll table s.line (encode symbols s).effects.uses = table := by
    intro symbols table s h
    rw [h.encode]
    rfl
  rw [generate_symbols, generate_symbols, hsymbols]
  refine hs.foldl_eq (hidle _) (hidle _) (fun table s s' h => ?_) a.symbols
  rw [(encode_alike a.symbols h).effects.uses, h.line, SymbolTable.renumbered_useAll]

theorem generate_causes : causes b.generate.errors = (causes a.generate.errors).map (·.renumbered f) := by
  -- the diagnostics of layout and those of the code, statement by statement
  have herrors : ∀ c : Assembly, causes c.generate.errors =
      c.statements.flatMap fun s => causes s.errors ++ causes (encode c.symbols s).effects.errors := by
    intro c
    unfold errors
    rw [generate_statements, List.flatMap_map, causes_flatMap]
    simp only [code, Statement.note_errors, causes_append]
  have hidle : ∀ symbols s, Statement.Idle s →
      causes s.errors ++ causes (encode symbols s).effects.errors = [] := by
    intro symbols s h
    rw [h.errors, h.encode]
    rfl
  rw [herrors, herrors, hsymbols, List.map_flatMap]
  refine hs.flatMap_eq (fun s h => ?_) (fun s h => hidle _ s h) (fun s s' h => ?_)
  · rw [hidle _ s h]
    rfl
  · rw [h.errors, (encode_alike a.symbols h).effects.errors.causes, List.map_append]

end Generate

theorem assemble_inStep (name : Text) (hw : s.lineWords = t.lineWords) (hf : s.lineNumbers.map f = t.lineNumbers) :
    (assemble name s).InStep f (assemble name t) := by
  obtain ⟨hc, hs⟩ := ofSource_respaced name hw hf
  have hsymbols : (ofSource (.initial name) t).symbols = (ofSource (.initial name) s).symbols.renumbered f := by
    rw [hc]
    rfl
  have hcounter : (ofSource (.initial name) t).counter = (ofSource (.initial name) s).counter := by rw [hc]; rfl
  have hname : (ofSource (.initial name) t).moduleName = (ofSource (.initial name) s).moduleName := by rw [hc]; rfl
  have hrelocations : (assemble name t).relocations = (assemble name s).relocations := by
    unfold assemble
    rw [generate_relocations, generate_relocations, flatMap_effects hsymbols hs rfl fun _ _ h => h.relocations]
    rfl
  have hexports : (assemble name t).exports = (assemble name s).exports := by
    unfold assemble
    rw [generate_exports, generate_exports, flatMap_effects hsymbols hs rfl fun _ _ h => h.exports]
    rfl
  have himports : (assemble name t).imports = (assemble name s).imports := by
    unfold assemble
    rw [generate_imports, generate_imports, flatMap_effects hsymbols hs rfl fun _ _ h => h.imports]
    rfl
  refine ⟨?_, hrelocations, generate_symbols_renumbered hsymbols hs, generate_causes hsymbols hs⟩
  unfold assemble at hrelocations hexports himports ⊢
  rw [generate_records, generate_records, hrelocations, hexports, himports, hcounter, hname,
    ofCode_statements hsymbols hs]
  rfl

theorem assemble_memory (name source : Text) : (assemble name source).memory =
    ((assemble name source).records.tail.foldl Loader.record {}).memory.toList :=
  (Loader.agrees_records (Context.initial_wf name) rfl source).toList.symm

/-- Comments, spacing and blank lines do not influence the code. If the lines of two sources that have words
have the same words, then both have the same object text, memory and relocations, and equally many
diagnostics that are not about characters. The lines correspond in order; a renumbering of the lines that
takes one source to the other takes symbol table to symbol table, and causes to causes. -/
theorem assemble_respaced (name s t : Text) (h : s.lineWords = t.lineWords) :
    (assemble name t).objectText = (assemble name s).objectText ∧
    (assemble name t).memory = (assemble name s).memory ∧
    (assemble name t).relocations = (assemble name s).relocations ∧
    ((assemble name t).errors.filter (·.kind != .lexical)).length =
      ((assemble name s).errors.filter (·.kind != .lexical)).length ∧
    (∃ f : Int → Int, s.lineNumbers.map f = t.lineNumbers ∧
      ∀ m ∈ s.lineNumbers, ∀ n ∈ s.lineNumbers, m < n → f m < f n) ∧
    ∀ f : Int → Int, s.lineNumbers.map f = t.lineNumbers →
      (assemble name t).symbols = (assemble name s).symbols.renumbered f ∧
      causes (assemble name t).errors = (causes (assemble name s).errors).map (·.renumbered f) := by
  have hlength : s.lineNumbers.length = t.lineNumbers.length := by
    have := congrArg List.length h
    simpa [Text.lineWords, Text.lineNumbers] using this
  obtain ⟨f, hf⟩ := exists_map_eq hlength s.lineNumbers_increase
  have hstep := assemble_inStep name h hf
  refine ⟨?_, ?_, hstep.relocations, ?_, ⟨f, hf, ?_⟩, ?_⟩
  · unfold objectText
    rw [hstep.records]
  · rw [assemble_memory, assemble_memory, hstep.records]
  · have hcount := congrArg List.length hstep.errors
    simpa [causes] using hcount
  · exact map_lt_of_increase s.lineNumbers_increase (hf ▸ t.lineNumbers_increase)
  · -- any renumbering with this property will do, not only the one that was found
    intro g hg
    have hstep' := assemble_inStep name h hg
    exact ⟨hstep'.symbols, hstep'.errors⟩

def boundTwice : Text := "a data 1\na data 2"

def boundTwiceApart : Text := "\na data 1\n;\na\tdata  2 two"

set_option maxRecDepth 4000 in
/-- The line of a name that is bound twice, before and after an empty line and a comment are put in. -/
theorem assemble_respaced_comment :
    Text.lineWords boundTwice = Text.lineWords boundTwiceApart ∧
    (assemble [] boundTwiceApart).objectText = (assemble [] boundTwice).objectText ∧
    (assemble [] boundTwiceApart).symbols = (assemble [] boundTwice).symbols.renumbered (2 * ·) ∧
    causes (assemble [] boundTwiceApart).errors = [.redeclaredSymbol "a" 2] := by
  have hwords : Text.lineWords boundTwice = Text.lineWords boundTwiceApart := by decide +kernel
  have hlines : (Text.lineNumbers boundTwice).map (2 * ·) = Text.lineNumbers boundTwiceApart := by decide +kernel
  have hcauses : causes (assemble [] boundTwice).errors = [.redeclaredSymbol "a" 1] := by decide +kernel
  obtain ⟨hobject, -, -, -, -, hnumbers⟩ := assemble_respaced [] _ _ hwords
  obtain ⟨hsymbols, herrors⟩ := hnumbers _ hlines
  rw [hcauses] at herrors
  exact ⟨hwords, hobject, hsymbols, herrors⟩

end Assembly

end Sigma16
