/-
Rows of the symbol table that can be read back. The columns of a row have no separators of their own: a long name
touches the word behind it, and a large line number the movability. A row is still read in one way only, since a name
holds neither blanks nor dots and a word has four digits: a name that leaves a blank in its column ends there, and one
that does not ends four digits before the first blank. So different symbols have different rows.
-/
import Sigma16.Proofs.Decoding
import Sigma16.Proofs.Rune
import Sigma16.Proofs.Transcript

namespace Sigma16

/-! ## Reading -/

/-- What a row of the symbol table shows of a name. -/
structure SymbolRow where
  /-- The module that an imported name comes from. -/
  moduleName : Option Text
  name : Text
  value : Value
  /-- The line of the definition. -/
  line : Int
  uses : List Int
  deriving DecidableEq, Repr

namespace SymbolRow

/-- What a row shall show of a binding. -/
def ofBinding (b : Binding) : SymbolRow where
  moduleName := if b.isImported then some b.moduleName else none
  name := b.name
  value := b.value
  line := b.line
  uses := b.uses

/-- The name at the start of a row, and what follows its column of 11. A longer name is followed by the four digits of
a word at once. -/
def fullName (t : Text) : Text × Text :=
  let size := (t.takeWhile (· != ' '.toUInt8)).length
  if size < 11 then (t.take size, t.drop 11) else (t.take (size - 4), t.drop (size - 4))

/-- The module and the name of a name that may be qualified. -/
def names (t : Text) : Option Text × Text :=
  match Text.cut? '.'.toUInt8 t with
  | some (moduleName, name) => (some moduleName, name)
  | none => (none, t)

def origin? (t : Text) : Option (Origin × Text) :=
  if t.take 3 = "Loc" then some (.loc, t.drop 3) else if t.take 3 = "Ext" then some (.ext, t.drop 3) else none

def movability? (t : Text) : Option (Movability × Text) :=
  if t.take 3 = "Fix" then some (.fix, t.drop 3) else if t.take 3 = "Rel" then some (.rel, t.drop 3) else none

/-- Numbers with commas between them. -/
def numbers? (t : Text) : Option (List Int) := (Text.splitOperands t).mapM Text.decimal?

def read? (t : Text) : Option SymbolRow := do
  let (full, rest) := fullName t
  let (word, rest) ← ListingRow.word? rest
  let (origin, rest) ← origin? (← ListingRow.blank? rest)
  let (movability, rest) ← movability? (← ListingRow.blank? rest)
  let (number, rest) ← Text.cut? ' '.toUInt8 (rest.dropWhile (· == ' '.toUInt8))
  let line ← Text.decimal? number
  let uses ← numbers? (← ListingRow.blank? rest)
  return { moduleName := (names full).1, name := (names full).2, value := ⟨word, origin, movability⟩, line, uses }

/-! ## Names -/

section FullName

variable {full : Text} (hblank : ' '.toUInt8 ∉ full) (w : Word) (rest : Text)
include hblank

/-- A name that leaves a blank in its column ends there. -/
theorem fullName_of_lt (hlt : full.length < 11) :
    fullName (full ++ List.replicate (11 - full.length) ' '.toUInt8 ++ rest) = (full, rest) := by
  have hpad : List.replicate (11 - full.length) ' '.toUInt8 =
      ' '.toUInt8 :: List.replicate (10 - full.length) ' '.toUInt8 := by
    rw [show 11 - full.length = 10 - full.length + 1 by omega, List.replicate_succ]
  have htake : (full ++ List.replicate (11 - full.length) ' '.toUInt8 ++ rest).takeWhile (· != ' '.toUInt8) = full := by
    rw [hpad, List.append_assoc]
    exact Text.takeWhile_append_stops (Text.bne_of_notMem hblank) (Text.stops_bne _ _)
  have hlength : (full ++ List.replicate (11 - full.length) ' '.toUInt8).length = 11 := by
    rw [List.length_append, List.length_replicate]
    omega
  unfold fullName
  rw [htake, if_pos hlt, List.drop_left' hlength, List.append_assoc, List.take_left]

/-- A name that leaves none is followed by the digits of a word and a blank. -/
theorem fullName_of_le (hle : 11 ≤ full.length) :
    fullName (full ++ (w.hex ++ (" " ++ rest))) = (full, w.hex ++ (" " ++ rest)) := by
  have hword : ' '.toUInt8 ∉ full ++ w.hex := List.not_mem_append hblank (Word.notMem_hex rfl w)
  have htake : (full ++ (w.hex ++ (" " ++ rest))).takeWhile (· != ' '.toUInt8) = full ++ w.hex := by
    rw [← List.append_assoc]
    exact Text.takeWhile_append_stops (Text.bne_of_notMem hword) (Text.stops_bne _ _)
  have hsize : (full ++ w.hex).length = full.length + 4 := List.length_append
  unfold fullName
  rw [htake, hsize, if_neg (by omega), Nat.add_sub_cancel, List.take_left, List.drop_left]

theorem fullName_padRight (hwidth : Text.width full = full.length) :
    fullName (Text.padRight 11 full ++ (w.hex ++ (" " ++ rest))) = (full, w.hex ++ (" " ++ rest)) := by
  unfold Text.padRight
  rw [hwidth]
  rcases Nat.lt_or_ge full.length 11 with hlt | hge
  · exact fullName_of_lt hblank _ hlt
  · rw [Nat.sub_eq_zero_of_le hge, List.replicate_zero, List.append_nil]
    exact fullName_of_le hblank w rest hge

end FullName

theorem names_qualified {moduleName : Text} (h : '.'.toUInt8 ∉ moduleName) (name : Text) :
    names (moduleName ++ '.'.toUInt8 :: name) = (some moduleName, name) := by
  unfold names
  rw [Text.cut?_append h]

theorem names_plain {name : Text} (h : '.'.toUInt8 ∉ name) : names name = (none, name) := by
  unfold names
  rw [Text.cut?_eq_none h]

end SymbolRow

theorem Text.lt_of_isNameByte : ∀ b : UInt8, isNameByte b = true → b < 0x80 :=
  forall_byte (by decide +kernel)

namespace Binding.WF

variable {b : Binding} (h : b.WF)
include h

/-- A name takes as many columns as it has bytes. -/
theorem width_fullName : Text.width b.fullName = b.fullName.length := by
  apply Text.width_of_ascii
  intro c hc
  by_cases hdot : c = '.'.toUInt8
  · subst hdot
    decide
  · apply Text.lt_of_isNameByte
    rw [← Bool.not_eq_false]
    exact fun hname => h.notMem_fullName hname hdot hc

/-- The dot of a qualified name is the only one. -/
theorem names_fullName : SymbolRow.names b.fullName = (if b.isImported then some b.moduleName else none, b.name) := by
  unfold fullName
  split
  · rename_i himported
    rw [List.append_assoc]
    exact SymbolRow.names_qualified (Text.isName_notMem (h.foreign himported).1 rfl) b.name
  · exact SymbolRow.names_plain (Text.isName_notMem h.name rfl)

end Binding.WF

/-! ## The other columns -/

namespace SymbolRow

theorem origin?_append {v : Value} (h : v.Proper) (rest : Text) :
    origin? (v.origin.name ++ rest) = some (v.origin, rest) := by
  rcases h with (h | h) | h <;> rw [h] <;> rfl

theorem movability?_append {v : Value} (h : v.Proper) (rest : Text) :
    movability? (v.movability.name ++ rest) = some (v.movability, rest) := by
  rcases h with (h | h) | h <;> rw [h] <;> rfl

theorem numbers?_decimals (ns : List Int) : numbers? (Text.decimals ns) = some ns := by
  cases ns with
  | nil => rfl
  | cons n ns =>
    have hcomma : ∀ part ∈ (n :: ns).map Text.decimal, ','.toUInt8 ∉ part :=
      List.forall_mem_map.2 fun k _ => Text.notMem_decimal rfl (by decide) k
    have hne : Text.decimals (n :: ns) ≠ [] := by
      intro hnil
      have hin : Text.decimal n <:+: Text.decimals (n :: ns) := Text.infix_join List.mem_cons_self
      rw [hnil] at hin
      exact Text.decimal_ne_nil n (List.infix_nil.1 hin)
    unfold numbers?
    rw [Text.decimals, Text.splitOperands_join hcomma hne]
    exact mapM_eq_some fun k _ => Text.decimal?_decimal k

/-- A row shows what it shall show, however long the name and the number of the line are. -/
theorem read?_symbolRow {b : Binding} (h : b.WF) : read? (Listing.symbolRow b) = some (ofBinding b) := by
  have hblank : ' '.toUInt8 ∉ b.fullName := h.notMem_fullName rfl (by decide)
  have hspaces (t : Text) : Text.ofString "  " ++ t = " " ++ (" " ++ t) := rfl
  unfold read? Listing.symbolRow Value.text
  simp only [List.append_assoc, fullName_padRight hblank _ _ h.width_fullName, ListingRow.word?_append,
    ListingRow.blank?_append, origin?_append h.proper, movability?_append h.proper, hspaces, ListingRow.cut?_padLeft,
    Text.decimal?_decimal, numbers?_decimals, h.names_fullName, Option.bind_eq_bind, Option.bind_some, Option.pure_def]
  rfl

/-- Rows show all the difference between bindings that there is to show. -/
theorem ofBinding_eq {b c : Binding} (hb : b.WF) (hc : c.WF) (h : Listing.symbolRow b = Listing.symbolRow c) :
    ofBinding b = ofBinding c := by
  have hread := read?_symbolRow hb
  rw [h, read?_symbolRow hc] at hread
  exact (Option.some.inj hread).symm

end SymbolRow

/-! ## The table of a module -/

namespace Assembly

open Listing

theorem symbolListing_splitOn (name source : Text) :
    (assemble name source).symbolListing.splitOn '\n'.toUInt8 =
      symbolHeader :: (assemble name source).symbols.sorted.map symbolRow ++ [[]] := by
  apply Text.splitOn_ofLines (List.cons_ne_nil _ _)
  refine List.forall_mem_cons.2 ⟨by decide, List.forall_mem_map.2 fun b hb => ?_⟩
  have hwf := assemble_symbols_wf name source b (SymbolTable.mem_sorted.1 hb)
  exact notMem_symbolRow Text.newline_outsideColumns hwf b.value.notMem_text

/-- The symbol table is unambiguous: its lines after the header are the rows of the symbols, what a symbol is can be
read from its row alone, and symbols that differ have different rows, in this listing and in any other. -/
theorem symbolListing_unambiguous (name source : Text) :
    let a := assemble name source
    a.symbolListing.splitOn '\n'.toUInt8 = symbolHeader :: a.symbols.sorted.map symbolRow ++ [[]] ∧
    (∀ b ∈ a.symbols.sorted, SymbolRow.read? (symbolRow b) = some (.ofBinding b)) ∧
    ∀ name' source' : Text, ∀ b ∈ a.symbols.sorted, ∀ c ∈ (assemble name' source').symbols.sorted,
      SymbolRow.ofBinding b ≠ .ofBinding c → symbolRow b ≠ symbolRow c := by
  have hwf (name source : Text) : ∀ b ∈ (assemble name source).symbols.sorted, b.WF :=
    fun b hb => assemble_symbols_wf name source b (SymbolTable.mem_sorted.1 hb)
  refine ⟨symbolListing_splitOn name source, fun b hb => SymbolRow.read?_symbolRow (hwf name source b hb), ?_⟩
  intro name' source' b hb c hc hne hrow
  exact hne (SymbolRow.ofBinding_eq (hwf name source b hb) (hwf name' source' c hc) hrow)

/-- A name that is longer than its column, and an imported one that fills it. -/
theorem symbolListing_unambiguous_touching :
    let a := assemble [] "beyondcolumn data 1\nx import libraries,y\n data x\n data beyondcolumn"
    ∃ b ∈ a.symbols.sorted, ∃ c ∈ a.symbols.sorted,
      symbolRow b = "beyondcolumn0000 Loc Rel    1  4" ∧ symbolRow c = "libraries.x0000 Ext Fix    2  3" ∧
      SymbolRow.read? (symbolRow b) = some ⟨none, "beyondcolumn", .relocatable 0, 1, [4]⟩ ∧
      SymbolRow.read? (symbolRow c) = some ⟨some "libraries", "x", .external, 2, [3]⟩ := by
  obtain ⟨-, hread, -⟩ := symbolListing_unambiguous []
    "beyondcolumn data 1\nx import libraries,y\n data x\n data beyondcolumn"
  have hbindings : (assemble []
      "beyondcolumn data 1\nx import libraries,y\n data x\n data beyondcolumn").symbols.bindings =
      [⟨"beyondcolumn", [], [], .relocatable 0, 1, [4]⟩, ⟨"x", "libraries", "y", .external, 2, [3]⟩] := by
    decide +kernel
  have hfirst := SymbolTable.mem_sorted.2 (hbindings ▸ List.mem_cons_self)
  have hsecond := SymbolTable.mem_sorted.2 (hbindings ▸ List.mem_cons_of_mem _ List.mem_cons_self)
  exact ⟨_, hfirst, _, hsecond, by decide, by decide, hread _ hfirst, hread _ hsecond⟩

end Assembly

end Sigma16
