/-
Listings as transcripts. What a line of the listing shows of its statement can be read back from it, and the
lines that begin as errors are those of the diagnostics, one for each. A listing that is written while the
statements are encoded, with the number of diagnostics so far and the uses of names so far, comes out the same:
the code of a statement depends on what its names stand for and not on where they are used, and no later
statement adds a diagnostic to it.
-/
import Sigma16.Proofs.Definition
import Sigma16.Proofs.MetadataFile

namespace Sigma16

open Outcome

/-! ## Code without the uses of names -/

/-- A symbol table without the uses of its names. -/
def SymbolTable.bare (t : SymbolTable) : SymbolTable := ⟨t.bindings.map Binding.bare⟩

namespace SymbolTable

theorem lookup_bare (t : SymbolTable) (name : Text) : t.bare.lookup name = (t.lookup name).map Binding.bare := by
  unfold lookup bare
  rw [List.find?_map]
  rfl

theorem bare_useAll (t : SymbolTable) (line : Int) (names : List Text) : (t.useAll line names).bare = t.bare := by
  unfold bare
  rw [useAll_bindings, List.map_map]
  rfl

end SymbolTable

section Bare

variable (symbols : SymbolTable) (s : Statement)

theorem evaluateTerm_bare (text : Text) : evaluateTerm symbols.bare s text = evaluateTerm symbols s text := by
  unfold evaluateTerm
  split
  · rename_i name _
    rw [SymbolTable.lookup_bare]
    cases symbols.lookup name <;> rfl
  · rfl
  · rfl

theorem evaluate_bare (text : Text) : evaluate symbols.bare s text = evaluate symbols s text := by
  unfold evaluate
  simp only [evaluateTerm_bare]

theorem link_bare (address : Word) (text : Text) (value : Value) (field : Text) :
    link symbols.bare s address text value field = link symbols s address text value field := by
  unfold link
  rw [SymbolTable.lookup_bare]
  cases symbols.lookup text <;> rfl

theorem fieldValue_bare (field : Field) (text : Text) :
    fieldValue symbols.bare s field text = fieldValue symbols s field text := by
  unfold fieldValue wholeWord constant
  simp only [evaluate_bare, link_bare]

theorem placeOperand_bare (slot : Slot) (text : Text) :
    placeOperand symbols.bare s slot text = placeOperand symbols s slot text := by
  cases slot <;> simp only [placeOperand, fieldValue_bare]

theorem placeOperands_bare : ∀ (slots : List Slot) (texts : List Text),
    placeOperands symbols.bare s slots texts = placeOperands symbols s slots texts
  | [], _ => by simp only [placeOperands]
  | _ :: _, [] => by simp only [placeOperands]
  | slot :: slots, text :: texts => by
    simp only [placeOperands, placeOperand_bare, placeOperands_bare slots texts]

theorem exportName_bare (name : Text) : exportName symbols.bare s name = exportName symbols s name := by
  unfold exportName
  rw [SymbolTable.lookup_bare]
  cases symbols.lookup name <;> rfl

theorem exportNames_bare : ∀ names : List Text, exportNames symbols.bare s names = exportNames symbols s names
  | [] => rfl
  | name :: names => by simp only [exportNames, exportName_bare, exportNames_bare names]

theorem encode_bare : encode symbols.bare s = encode symbols s := by
  unfold encode encodeWords
  simp only [placeOperands_bare, exportNames_bare]

end Bare

/-- Statements have the same code under tables that differ in the uses of names only. -/
theorem encode_congr {t t' : SymbolTable} (h : t.bare = t'.bare) (s : Statement) : encode t s = encode t' s := by
  rw [← encode_bare t, h, encode_bare]

/-! ## A listing in the making -/

/-- The table with the uses that are noted so far, the number of diagnostics so far, and the lines that are
written so far. -/
structure Transcript where
  symbols : SymbolTable
  errorCount : Nat
  lines : List ListingLine

namespace Transcript

/-- Encodes a statement and writes its lines. -/
def add (t : Transcript) (s : Statement) : Transcript :=
  let o := encode t.symbols s
  { symbols := t.symbols.useAll s.line o.effects.uses
    errorCount := t.errorCount + o.effects.errors.length
    lines := t.lines ++ Listing.statementLines { s.note o.effects.errors with code := s.code ++ o.result } }

/-- What a statement adds to a transcript that knows what the names of its module stand for. -/
theorem add_eq {a : Assembly} {t : Transcript} (h : t.symbols.bare = a.symbols.bare) (s : Statement) : t.add s =
    { symbols := t.symbols.useAll s.line (encode a.symbols s).effects.uses
      errorCount := t.errorCount + (encode a.symbols s).effects.errors.length
      lines := t.lines ++ Listing.statementLines (a.code s) } := by
  unfold add Assembly.code
  rw [encode_congr h]

/-- What statements add one after the other; the uses that the first ones note make no difference to the rest. -/
theorem foldl_add (a : Assembly) : ∀ (ss : List Statement) (t : Transcript), t.symbols.bare = a.symbols.bare →
    ss.foldl add t =
      { symbols := ss.foldl (fun symbols s => symbols.useAll s.line (encode a.symbols s).effects.uses) t.symbols
        errorCount := t.errorCount + (ss.flatMap fun s => (encode a.symbols s).effects.errors).length
        lines := t.lines ++ ss.flatMap fun s => Listing.statementLines (a.code s) }
  | [], t, _ => by simp
  | s :: ss, t, h => by
    rw [List.foldl_cons, add_eq h, foldl_add a ss _ ((SymbolTable.bare_useAll _ _ _).trans h)]
    simp only [List.foldl_cons, List.flatMap_cons, List.length_append, List.append_assoc, Nat.add_assoc]

end Transcript

theorem length_flatMap_append {α β : Type} (f g : α → List β) : ∀ xs : List α,
    (xs.flatMap fun x => f x ++ g x).length = (xs.flatMap f).length + (xs.flatMap g).length
  | [] => rfl
  | x :: xs => by
    simp only [List.flatMap_cons, List.length_append, length_flatMap_append f g xs]
    omega

namespace Assembly

/-- The diagnostics of a module are those of its layout and those of its code. -/
theorem generate_errorCount (a : Assembly) : a.generate.errorCount =
    a.errorCount + (a.statements.flatMap fun s => (encode a.symbols s).effects.errors).length := by
  unfold errorCount errors
  rw [generate_statements, List.flatMap_map]
  exact length_flatMap_append _ _ _

/-- The transcript of a module that is laid out, before any code. -/
def transcript (a : Assembly) : Transcript := ⟨a.symbols, a.errorCount, []⟩

/-- Statements that are listed as soon as they are encoded are listed as they are in the end. -/
theorem transcript_generate (a : Assembly) : a.statements.foldl Transcript.add a.transcript =
    ⟨a.generate.symbols, a.generate.errorCount, a.generate.statements.flatMap Listing.statementLines⟩ := by
  rw [Transcript.foldl_add a _ _ rfl, generate_symbols, generate_errorCount, generate_statements, List.flatMap_map]
  rfl

end Assembly

/-! ## Lines that are read -/

/-- What a line of a listing shows of a statement. -/
structure ListingRow where
  line : Int
  address : Word
  fixed : Bool
  code : List Word
  source : Text
  deriving DecidableEq, Repr

namespace ListingRow

/-- The word at the start of a text, and the rest. -/
def word? (t : Text) : Option (Word × Text) := (Word.ofHex? (t.take 4)).map fun w => (w, t.drop 4)

/-- A word or as many blanks. -/
def column? (t : Text) : Option (Option Word × Text) :=
  if t.take 4 = "    " then some (none, t.drop 4) else (word? t).map fun (w, rest) => (some w, rest)

def blank? : Text → Option Text
  | [] => none
  | b :: rest => if b = ' '.toUInt8 then some rest else none

/-- The mark behind an address: a dot if it is fixed. -/
def mark? : Text → Option (Bool × Text)
  | [] => none
  | b :: rest => if b = '.'.toUInt8 then some (true, rest) else (blank? (b :: rest)).map fun rest => (false, rest)

def read? (t : Text) : Option ListingRow := do
  let (number, rest) ← Text.cut? ' '.toUInt8 (t.dropWhile (· == ' '.toUInt8))
  let line ← Text.decimal? number
  let (address, rest) ← word? rest
  let (fixed, rest) ← mark? rest
  let (first, rest) ← column? (← blank? rest)
  let (second, rest) ← column? (← blank? rest)
  return { line, address, fixed, code := first.toList ++ second.toList, source := ← blank? rest }

theorem take_hex (w : Word) (rest : Text) : (w.hex ++ rest).take 4 = w.hex := List.take_left' rfl

theorem drop_hex (w : Word) (rest : Text) : (w.hex ++ rest).drop 4 = rest := List.drop_left' rfl

theorem word?_append (w : Word) (rest : Text) : word? (w.hex ++ rest) = some (w, rest) := by
  unfold word?
  rw [take_hex, drop_hex, Word.ofHex?_hex]
  rfl

theorem column?_append (s : Statement) (n : Nat) (rest : Text) :
    column? (Listing.codeColumn s n ++ rest) = some (s.code[n]?, rest) := by
  unfold Listing.codeColumn column?
  cases s.code[n]? with
  | none => rfl
  | some w =>
    have hne : (w.hex ++ rest).take 4 ≠ "    " := by
      rw [take_hex]
      intro h
      exact Word.notMem_hex (b := ' '.toUInt8) rfl w (by rw [h]; decide)
    rw [if_neg hne, word?_append]
    rfl

theorem blank?_append (rest : Text) : blank? (" " ++ rest) = some rest := rfl

theorem mark?_append (movable : Bool) (rest : Text) :
    mark? (Text.ofString (if movable then " " else ".") ++ rest) = some (!movable, rest) := by
  cases movable <;> rfl

/-- The number in front of a line is what stands between the blanks. -/
theorem cut?_padLeft (width : Nat) (n : Int) (rest : Text) :
    Text.cut? ' '.toUInt8 ((Text.padLeft ' ' width (Text.decimal n) ++ (" " ++ rest)).dropWhile (· == ' '.toUInt8)) =
      some (Text.decimal n, rest) := by
  have hdigits : ' '.toUInt8 ∉ Text.decimal n := Text.notMem_decimal rfl (by decide) n
  have hstops : Text.Stops (· == ' '.toUInt8) (Text.decimal n ++ (" " ++ rest)) := by
    refine Text.Stops.append (Text.decimal_ne_nil n) (fun b hb => ?_) _
    rw [beq_eq_false_iff_ne]
    rintro rfl
    exact hdigits hb
  unfold Text.padLeft
  rw [List.append_assoc, Text.dropWhile_append_stops (fun b hb => by simp [List.eq_of_mem_replicate hb]) hstops]
  exact Text.cut?_append hdigits rest

/-- Two columns hold all the code of a statement of at most two words. -/
theorem columns_eq : ∀ {code : List Word}, code.length ≤ 2 → code[0]?.toList ++ code[1]?.toList = code
  | [], _ | [_], _ | [_, _], _ => rfl

/-- A line shows the whole statement, unless it has more code than there are columns. -/
theorem read?_sourceLine {s : Statement} (hcode : s.code.length ≤ 2) : read? (Listing.sourceLine s).plain =
    some ⟨s.line, s.address.word, !s.address.isRelocatable, s.code, s.parts.text⟩ := by
  unfold read? Listing.sourceLine Listing.margin
  simp only [List.append_assoc, cut?_padLeft, Text.decimal?_decimal, word?_append, mark?_append, blank?_append,
    column?_append, Option.bind_eq_bind, Option.bind_some, Option.pure_def, columns_eq hcode]

end ListingRow

/-! ## Error lines -/

namespace Text

theorem length_runesFrom (skip : Nat) (t : Text) : (runesFrom skip t).length ≤ t.length := by
  fun_induction runesFrom skip t with
  | case1 => exact Nat.le_refl _
  | case2 a s c n h ih => exact Nat.succ_le_succ ih
  | case3 a s h ih => exact Nat.succ_le_succ ih
  | case4 skip a s ih => exact Nat.le_succ_of_le ih

/-- A text has no more characters than bytes. -/
theorem width_le_length (t : Text) : width t ≤ t.length := length_runesFrom 0 t

theorem le_length_padLeft (fill : Char) (n : Nat) (t : Text) : n ≤ (padLeft fill n t).length := by
  have hwidth := width_le_length t
  simp only [padLeft, List.length_append, List.length_replicate]
  omega

theorem le_length_padRight (n : Nat) (t : Text) : n ≤ (padRight n t).length := by
  have hwidth := width_le_length t
  simp only [padRight, List.length_append, List.length_replicate]
  omega

end Text

namespace Listing

/-- A line that begins as the line of a diagnostic does. -/
def isErrorLine (t : Text) : Bool := (Text.ofString "Error: ").isPrefixOf t

theorem isErrorLine_errorText (e : Diagnostic) : isErrorLine (errorText e) = true :=
  List.isPrefixOf_iff_prefix.2 (List.prefix_append _ _)

/-- The start of a line tells that it is not the line of a diagnostic. -/
theorem isErrorLine_append {n : Nat} {b : UInt8} (hb : b ∈ (Text.ofString "Error: ").take n) {x : Text}
    (hlength : n ≤ x.length) (hx : b ∉ x) (y : Text) : isErrorLine (x ++ y) = false := by
  rw [Bool.eq_false_iff]
  intro h
  have hstart : (Text.ofString "Error: ").take n <+: x := by
    refine List.prefix_of_prefix_length_le ?_ (List.prefix_append x y) ?_
    · exact (List.take_prefix _ _).trans (List.isPrefixOf_iff_prefix.1 h)
    · exact Nat.le_trans (List.length_take_le _ _) hlength
  exact hx (hstart.subset hb)

theorem isErrorLine_sourceLine (s : Statement) : isErrorLine (sourceLine s).plain = false := by
  have hnumber : 'E'.toUInt8 ∉ Text.padLeft ' ' 4 (Text.decimal s.line) :=
    Text.notMem_padLeft (by decide) 4 (Text.notMem_decimal rfl (by decide) s.line)
  unfold sourceLine margin
  simp only [List.append_assoc]
  exact isErrorLine_append (by decide) (Text.le_length_padLeft _ _ _) hnumber _

theorem isErrorLine_symbolRow {b : Binding} (h : b.WF) : isErrorLine (symbolRow b) = false := by
  have hname : ':'.toUInt8 ∉ Text.padRight 11 b.fullName :=
    Text.notMem_padRight (by decide) 11 (h.notMem_fullName rfl (by decide))
  unfold symbolRow
  simp only [List.append_assoc]
  exact isErrorLine_append (by decide) (Text.le_length_padRight _ _) hname _

theorem filter_statementLines (s : Statement) :
    ((statementLines s).map (·.plain)).filter isErrorLine = s.errors.map errorText := by
  have herrors : ∀ t ∈ s.errors.map errorText, isErrorLine t = true :=
    List.forall_mem_map.2 fun e _ => isErrorLine_errorText e
  unfold statementLines
  rw [List.map_cons, List.filter_cons_of_neg (by rw [isErrorLine_sourceLine]; decide), List.map_map]
  exact List.filter_eq_self.2 herrors

end Listing

/-! ## The listing of a module -/

namespace Assembly

open Listing

variable (name source : Text)

/-- The sources of the statements are the lines of the text. -/
theorem assemble_sources : (assemble name source).statements.map (·.source) = Text.sourceLines source := by
  apply List.ext_getElem?
  intro i
  rw [List.getElem?_map]
  cases hs : (assemble name source).statements[i]? with
  | some s => exact (assemble_reports hs).2.1.symm
  | none =>
    rw [assemble_statements] at hs
    exact (Option.map_eq_none_iff.1 hs).symm

variable {name source}

/-- No statement has more code than a line of a listing shows. -/
theorem assemble_code_length {s : Statement} (hs : s ∈ (assemble name source).statements) : s.code.length ≤ 2 := by
  have hlaid := ofSource_laidOut (Context.initial_wf name) source
  obtain ⟨u, hu, rfl⟩ := mem_generate_statements.1 hs
  rw [hlaid.code_length hu, (hlaid.statements u hu).2.1]
  cases u.operation.format <;> decide

theorem assemble_address_isLocal {i : Nat} {s : Statement} (hs : (assemble name source).statements[i]? = some s) :
    s.address.IsLocal := by
  obtain ⟨text, -, hsame⟩ := assemble_sameLine hs
  rw [hsame.address, (Statement.checked_placed _ _ _).address]
  exact (contextAfter_wf name source i).counter

/-- The line of a statement shows all that there is to show of it. -/
theorem assemble_read?_sourceLine {i : Nat} {s : Statement} (hs : (assemble name source).statements[i]? = some s) :
    ListingRow.read? (sourceLine s).plain =
      some ⟨1 + i, s.address.word, decide (s.address.movability = .fix), s.code, s.source⟩ := by
  obtain ⟨hline, -, hparsed, -⟩ := assemble_reports hs
  have hfixed : (!s.address.isRelocatable) = decide (s.address.movability = .fix) := by
    rcases assemble_address_isLocal hs with h | h <;> rw [h] <;> rfl
  rw [ListingRow.read?_sourceLine (assemble_code_length (List.mem_of_getElem? hs)), hline, hfixed, hparsed.parts,
    Line.split_text]

/-- The lines of a listing's text, the empty one after the last newline among them. -/
theorem assemble_listingText_lines : (assemble name source).listingText.splitOn '\n'.toUInt8 =
    (if (assemble name source).errorCount = 0 then []
      else [" " ++ Text.natural (assemble name source).errorCount ++ " errors detected"]) ++
      Text.ofString "Line Addr Code Code Source" ::
        (assemble name source).statements.flatMap (fun s => (statementLines s).map (·.plain)) ++
      [[], "Symbol table", symbolHeader] ++ (assemble name source).symbols.sorted.map symbolRow ++ [[]] := by
  rw [splitOn_listingText (assemble_listing_unbroken name source)]
  generalize assemble name source = a
  have hcount : (if a.errorCount = 0 then []
      else [lineOf "ERR" (" " ++ Text.natural a.errorCount ++ " errors detected")]).map (·.plain) =
        if a.errorCount = 0 then [] else [" " ++ Text.natural a.errorCount ++ " errors detected"] := by
    split <;> rfl
  unfold listing
  simp only [List.map_append, List.map_cons, List.map_nil, List.map_map, List.map_flatMap, hcount]
  rfl

/-- The error lines of a listing are the lines of the diagnostics. -/
theorem assemble_error_lines : ((assemble name source).listingText.splitOn '\n'.toUInt8).filter isErrorLine =
    (assemble name source).errors.map errorText := by
  have hsymbols : ∀ b ∈ (assemble name source).symbols.sorted, ¬ isErrorLine (symbolRow b) = true := by
    intro b hb
    rw [isErrorLine_symbolRow (assemble_symbols_wf name source b (List.mem_mergeSort.1 hb))]
    decide
  have hcount (n : Nat) : isErrorLine (" " ++ Text.natural n ++ " errors detected") = false := by
    rw [List.append_assoc]
    exact isErrorLine_append (n := 1) (b := 'E'.toUInt8) (by decide) (by decide) (by decide) _
  rw [assemble_listingText_lines]
  generalize assemble name source = a at hsymbols
  have hnone : (if a.errorCount = 0 then []
      else [" " ++ Text.natural a.errorCount ++ " errors detected"]).filter isErrorLine = [] := by
    split
    · rfl
    · exact List.filter_cons_of_neg (by rw [hcount]; decide)
  have hrows : (a.symbols.sorted.map symbolRow).filter isErrorLine = [] :=
    List.filter_eq_nil_iff.2 (List.forall_mem_map.2 hsymbols)
  have hheader : isErrorLine "Line Addr Code Code Source" = false := by decide
  have htitle : [[], "Symbol table", symbolHeader].filter isErrorLine = [] := by decide
  have hlast : [[]].filter isErrorLine = [] := by decide
  simp only [List.filter_append, List.filter_cons_of_neg (Bool.eq_false_iff.1 hheader), List.filter_flatMap, hnone,
    hrows, htitle, hlast, filter_statementLines, List.nil_append, List.append_nil]
  exact List.map_flatMap.symm

/-- A listing has the number of diagnostics, if there are any, the lines of the statements with the diagnostics
of each below it, and the symbol table, with a row for every name that is bound. Each line of a statement shows
its number, its address, all of its code and its source, and the sources are the lines of the text. The lines that
begin as errors are those of the diagnostics, so none of them is missing, neither from layout nor from encoding,
which lists every statement when it is done with it. -/
theorem assemble_listing_complete (name source : Text) :
    let a := assemble name source
    let lines := a.listingText.splitOn '\n'.toUInt8
    lines =
        (if a.errorCount = 0 then [] else [" " ++ Text.natural a.errorCount ++ " errors detected"]) ++
          Text.ofString "Line Addr Code Code Source" ::
            a.statements.flatMap (fun s => (sourceLine s).plain :: s.errors.map errorText) ++
          [[], "Symbol table", symbolHeader] ++ a.symbols.sorted.map symbolRow ++ [[]] ∧
      lines.filter isErrorLine = a.errors.map errorText ∧
      (lines.filter isErrorLine).length = a.errorCount ∧
      Text.join "\n" (a.statements.map (·.source)) = source.filter (· != '\r'.toUInt8) ∧
      (∀ (i : Nat) (s : Statement), a.statements[i]? = some s →
        '\n'.toUInt8 ∉ s.source ∧ s.source <:+ (sourceLine s).plain ∧
        ListingRow.read? (sourceLine s).plain =
          some ⟨1 + i, s.address.word, decide (s.address.movability = .fix), s.code, s.source⟩) ∧
      (∀ (n : Text) (b : Binding), a.symbols.lookup n = some b → b.name = n ∧ symbolRow b ∈ lines) ∧
      (ofSource (.initial name) source).statements.foldl Transcript.add (ofSource (.initial name) source).transcript =
        ⟨a.symbols, a.errorCount, a.statements.flatMap statementLines⟩ := by
  intro a lines
  refine ⟨?_, assemble_error_lines, ?_, ?_, ?_, ?_, transcript_generate _⟩
  · refine assemble_listingText_lines.trans ?_
    simp only [statementLines, List.map_cons, List.map_map]
    rfl
  · rw [show lines.filter isErrorLine = _ from assemble_error_lines, List.length_map]
    rfl
  · rw [show a.statements.map (·.source) = _ from assemble_sources name source]
    exact List.intercalate_splitOn _
  · intro i s hs
    obtain ⟨-, -, hparsed, -⟩ := assemble_reports hs
    refine ⟨hparsed.notMem, ?_, assemble_read?_sourceLine hs⟩
    have hsource : s.parts.text = s.source := by rw [hparsed.parts, Line.split_text]
    exact hsource ▸ List.suffix_append _ _
  · intro n b hb
    have hrow : symbolRow b ∈ a.symbols.sorted.map symbolRow :=
      List.mem_map_of_mem (SymbolTable.mem_sorted.2 (SymbolTable.lookup_mem hb))
    rw [show lines = _ from assemble_listingText_lines]
    exact ⟨SymbolTable.lookup_name hb, List.mem_append_left _ (List.mem_append_right _ hrow)⟩

def bothFaults : Text := "a org $0010\r\na load R1,b[R0]"

set_option maxRecDepth 4000 in
/-- A label that is bound twice, which layout reports, before a name without a binding, which encoding reports. -/
theorem assemble_listing_complete_both : ∃ s : Statement,
    (assemble [] bothFaults).statements[1]? = some s ∧
    ListingRow.read? (sourceLine s).plain = some ⟨2, 0x0010, true, [0xF101, 0], "a load R1,b[R0]"⟩ ∧
    ((assemble [] bothFaults).listingText.splitOn '\n'.toUInt8).filter isErrorLine = s.errors.map errorText ∧
    (assemble [] bothFaults).errorCount = 2 := by
  obtain ⟨-, herrors, -, -, hrows, -⟩ := assemble_listing_complete [] bothFaults
  have hrun : (assemble [] bothFaults).statements[1]?.map (fun s =>
      (s.address, s.code, s.source, decide ((assemble [] bothFaults).errors = s.errors))) =
        some (.const 0x0010, [0xF101, 0], Text.ofString "a load R1,b[R0]", true) := by decide +kernel
  obtain ⟨s, hs, hshown⟩ := Option.map_eq_some_iff.1 hrun
  simp only [Prod.mk.injEq, decide_eq_true_eq] at hshown
  obtain ⟨haddress, hcode, hsource, hall⟩ := hshown
  obtain ⟨-, -, hread⟩ := hrows 1 s hs
  rw [haddress, hcode, hsource] at hread
  exact ⟨s, hs, hread, hall ▸ herrors, by decide +kernel⟩

end Assembly

end Sigma16
