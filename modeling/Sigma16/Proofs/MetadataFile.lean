/-
Metadata as a file format. The counts in the two headings say how many lines follow them, and a reader that
trusts nothing else reads every metadata text back to its end: the line behind every address, ten to a line, by
increasing address, and both forms of every line of the listing, in turn.
-/
import Sigma16.Metadata
import Sigma16.Proofs.Listing
import Sigma16.Proofs.Literal
import Sigma16.Proofs.ObjectFile
import Sigma16.Proofs.Phase

namespace Sigma16

/-! ## Numbers and lists that are read -/

namespace Text

theorem natural_ne_nil (n : Nat) : natural n ≠ [] := by
  unfold natural
  simp [Nat.toDigits_ne_nil]

theorem natural?_natural (n : Nat) : natural? (natural n) = some n := by
  have hdigits : (natural n).all isDigit = true := List.all_eq_true.2 fun b hb => isDigit_of_mem_natural hb
  have hvalue : (natural n).foldl (fun n b => 10 * n + (b.toNat - '0'.toNat)) 0 =
      Nat.ofDigitChars 10 (Nat.toDigits 10 n) 0 := by
    unfold natural
    rw [Nat.ofDigitChars_eq_foldl, List.foldl_map]
    apply List.foldl_rel rfl
    rintro c hc k k' rfl
    rw [(toNat_toUInt8_of_isDigit (Nat.isDigit_of_mem_toDigits (by decide) (by decide) hc)).1]
  unfold natural?
  rw [if_pos ⟨natural_ne_nil n, hdigits⟩, hvalue, Nat.ofDigitChars_ten_toDigits]

theorem decimal?_decimal (n : Int) : decimal? (decimal n) = some n := by
  unfold decimal
  split
  · rename_i hneg
    rw [show ofString "-" = ['-'.toUInt8] by decide, List.singleton_append, decimal?, if_pos rfl, natural?_natural,
      Option.map_some]
    congr 1
    omega
  · rename_i hpos
    obtain ⟨b, t, ht⟩ := List.exists_cons_of_ne_nil (natural_ne_nil n.natAbs)
    have hb : b ≠ '-'.toUInt8 := by
      rintro rfl
      exact notMem_natural (b := '-'.toUInt8) rfl n.natAbs (by rw [ht]; exact List.mem_cons_self)
    rw [ht, decimal?, if_neg hb, ← ht, natural?_natural, Option.map_some]
    congr 1
    show (n.natAbs : Int) = n
    omega

theorem decimal_ne_nil (n : Int) : decimal n ≠ [] := by
  intro h
  have hread := decimal?_decimal n
  rw [h] at hread
  cases hread

end Text

/-- Items are read back from a list if each of them is. -/
theorem mapM_eq_some {α β : Type} {read : β → Option α} {write : α → β} : ∀ {xs : List α},
    (∀ x ∈ xs, read (write x) = some x) → (xs.map write).mapM read = some xs
  | [], _ => rfl
  | x :: xs, h => by
    rw [List.map_cons, List.mapM_cons, h x List.mem_cons_self,
      mapM_eq_some fun y hy => h y (List.mem_cons_of_mem _ hy)]
    rfl

/-- A list is cut into as few pieces as its length allows. -/
theorem chunks_length {α : Type} {n : Nat} (hn : 0 < n) (xs : List α) :
    (chunks n xs).length = (xs.length + (n - 1)) / n := by
  fun_induction chunks n xs with
  | case1 =>
    rw [List.length_nil, List.length_nil, Nat.zero_add, Nat.div_eq_of_lt (by omega)]
  | case2 x xs ih =>
    have hlength : (x :: xs).length + (n - 1) = xs.length + n := by
      rw [List.length_cons]
      omega
    rw [hlength, Nat.add_div_right _ hn, List.length_cons, ih, List.length_drop]
    by_cases hshort : xs.length < n
    · rw [Nat.div_eq_of_lt hshort, Nat.div_eq_of_lt (by omega)]
    · rw [Nat.sub_add_cancel (by omega)]

/-- Only the last piece may be short. -/
theorem chunks_dropLast {α : Type} {n : Nat} (hn : 0 < n) (xs : List α) :
    ∀ part ∈ (chunks n xs).dropLast, part.length = n := by
  fun_induction chunks n xs with
  | case1 => simp
  | case2 x xs ih =>
    intro part hp
    by_cases hrest : xs.length < n
    · have hnil : chunks n (xs.drop (n - 1)) = [] := by
        rw [List.drop_eq_nil_of_le (by omega), chunks]
      rw [hnil] at hp
      cases hp
    · have hne : chunks n (xs.drop (n - 1)) ≠ [] := by
        intro hnil
        have hlength := chunks_flatten n (xs.drop (n - 1))
        rw [hnil, List.flatten_nil, eq_comm, List.drop_eq_nil_iff] at hlength
        omega
      rw [List.dropLast_cons_of_ne_nil hne] at hp
      rcases List.mem_cons.1 hp with rfl | hp
      · rw [List.length_cons, List.length_take]
        omega
      · exact ih part hp

/-! ## Reading -/

/-- The contents of a metadata file. -/
structure MetadataFile where
  /-- The addresses on each line of the address map, with the lines of the source behind them. -/
  groups : List (List (Word × Int))
  plain : List Text
  annotated : List Text
  deriving DecidableEq, Repr

namespace MetadataFile

/-- The number after a keyword. -/
def count? (keyword line : Text) : Option Nat :=
  if line.take keyword.length = keyword then Text.natural? (line.drop keyword.length) else none

/-- An address and a line, with a colon between them. -/
def item? (t : Text) : Option (Word × Int) :=
  (Text.cut? ':'.toUInt8 t).bind fun (address, line) =>
    (Word.ofHex? address).bind fun address => (Text.decimal? line).map fun line => (address, line)

/-- The items of a line. -/
def group? (line : Text) : Option (List (Word × Int)) := (line.splitOn ','.toUInt8).mapM item?

/-- An address map of `n` items, ten to a line, and the lines after it. -/
def addresses? (n : Nat) (lines : List Text) : Option (List (List (Word × Int)) × List Text) :=
  let size := (n + 9) / 10
  ((lines.take size).mapM group?).bind fun groups =>
    if groups.flatten.length = n then some (groups, lines.drop size) else none

/-- A listing of `m` lines, each in both of its forms. Nothing may be left but the empty line after the last
newline. -/
def listing? : Nat → List Text → Option (List Text × List Text)
  | 0, lines => if lines = [[]] then some ([], []) else none
  | m + 1, plain :: annotated :: lines =>
    (listing? m lines).map fun (plains, annotateds) => (plain :: plains, annotated :: annotateds)
  | _ + 1, _ => none

def read? (text : Text) : Option MetadataFile :=
  match text.splitOn '\n'.toUInt8 with
  | [] => none
  | heading :: lines => do
    let n ← count? "asmap " heading
    let (groups, lines) ← addresses? n lines
    match lines with
    | [] => none
    | heading :: lines =>
      let m ← count? "source " heading
      let (plain, annotated) ← listing? m lines
      return { groups, plain, annotated }

/-! ## Reading what was written -/

theorem count?_append (keyword : Text) (n : Nat) : count? keyword (keyword ++ Text.natural n) = some n := by
  unfold count?
  rw [List.take_left, if_pos rfl, List.drop_left, Text.natural?_natural]

open Metadata

theorem notMem_mapItem {b : UInt8} (hb : Text.isHexDigit b = false) (hcolon : b ≠ ':'.toUInt8)
    (hminus : b ≠ '-'.toUInt8) (address : Word) (line : Int) : b ∉ mapItem address line := by
  have hdigit : Text.isDigit b = false := by
    simp only [Text.isHexDigit, Bool.or_eq_false_iff] at hb
    exact hb.1.1
  exact List.not_mem_append (List.not_mem_append (Word.notMem_hex hb address)
    fun h => hcolon (List.mem_singleton.1 h)) (Text.notMem_decimal hdigit hminus line)

theorem item?_mapItem (address : Word) (line : Int) : item? (mapItem address line) = some (address, line) := by
  have hcut : Text.cut? ':'.toUInt8 (mapItem address line) = some (address.hex, Text.decimal line) := by
    unfold mapItem
    rw [List.append_assoc]
    exact Text.cut?_append (Word.notMem_hex rfl address) _
  unfold item?
  rw [hcut, Option.bind_some]
  show (Word.ofHex? address.hex).bind _ = _
  rw [Word.ofHex?_hex, Option.bind_some, Text.decimal?_decimal]
  rfl

/-- The text of a line of the address map. -/
def groupText (items : List (Word × Int)) : Text :=
  Text.join "," (items.map fun (address, line) => mapItem address line)

theorem group?_groupText {items : List (Word × Int)} (h : items ≠ []) : group? (groupText items) = some items := by
  unfold group? groupText
  rw [ObjectFile.ofString_comma, ObjectFile.splitOn_join]
  · exact mapM_eq_some fun (address, line) _ => item?_mapItem address line
  · simpa using h
  · intro part hp
    obtain ⟨⟨address, line⟩, -, rfl⟩ := List.mem_map.1 hp
    exact notMem_mapItem rfl (by decide) (by decide) address line

theorem notMem_groupText (items : List (Word × Int)) : '\n'.toUInt8 ∉ groupText items := by
  intro h
  rcases Text.mem_join h with h | ⟨part, hp, h⟩
  · exact absurd h (by decide)
  · obtain ⟨⟨address, line⟩, -, rfl⟩ := List.mem_map.1 hp
    exact notMem_mapItem rfl (by decide) (by decide) address line h

theorem addresses?_append (items : List (Word × Int)) (lines : List Text) :
    addresses? items.length ((chunks itemsPerLine items).map groupText ++ lines) =
      some (chunks itemsPerLine items, lines) := by
  have hsize : ((chunks itemsPerLine items).map groupText).length = (items.length + 9) / 10 := by
    rw [List.length_map]
    exact chunks_length (by decide) items
  unfold addresses?
  simp only
  rw [List.take_left' hsize, List.drop_left' hsize,
    mapM_eq_some fun items hi => group?_groupText (chunks_ne_nil _ _ items hi), Option.bind_some, chunks_flatten,
    if_pos rfl]

theorem listing?_append : ∀ listing : List ListingLine,
    listing? listing.length (listing.flatMap (fun l => [l.plain, l.annotated]) ++ [[]]) =
      some (listing.map (·.plain), listing.map (·.annotated))
  | [] => rfl
  | l :: listing => by
    show (listing? listing.length (listing.flatMap (fun l => [l.plain, l.annotated]) ++ [[]])).map _ = _
    rw [listing?_append listing]
    rfl

end MetadataFile

/-! ## The metadata of a module -/

namespace Assembly

/-- The address map has every address once, in increasing order. -/
theorem addressMap_increasing (a : Assembly) : (a.addressMap.map Prod.fst).Pairwise (· < ·) := by
  unfold addressMap
  rw [List.map_map, List.pairwise_map]
  exact Std.TreeMap.ordered_keys_toList.imp Std.compare_eq_lt.1

section Unbroken

variable {a : Assembly} (h : ∀ l ∈ a.listing, Listing.Unbroken l)

include h

theorem notMem_plain : ∀ line ∈ a.listing.map (·.plain), '\n'.toUInt8 ∉ line :=
  List.forall_mem_map.2 fun l hl => (h l hl).plain

theorem notMem_annotated : ∀ line ∈ a.listing.map (·.annotated), '\n'.toUInt8 ∉ line :=
  List.forall_mem_map.2 fun l hl => (h l hl).annotated

theorem splitOn_listingText : a.listingText.splitOn '\n'.toUInt8 = a.listing.map (·.plain) ++ [[]] :=
  Text.splitOn_ofLines (by simp [listing]) (notMem_plain h)

theorem splitOn_annotatedListing : a.annotatedListing.splitOn '\n'.toUInt8 = a.listing.map (·.annotated) ++ [[]] :=
  Text.splitOn_ofLines (by simp [listing]) (notMem_annotated h)

/-- The lines of a metadata text. -/
theorem splitOn_metadataText : a.metadataText.splitOn '\n'.toUInt8 =
    ("asmap " ++ Text.natural a.addressMap.length) ::
      ((chunks Metadata.itemsPerLine a.addressMap).map MetadataFile.groupText ++
        ("source " ++ Text.natural a.listing.length) ::
          (a.listing.flatMap (fun l => [l.plain, l.annotated]) ++ [[]])) := by
  have hcount : ∀ keyword n, '\n'.toUInt8 ∉ keyword → '\n'.toUInt8 ∉ keyword ++ Text.natural n :=
    fun keyword n hk => List.not_mem_append hk (Text.notMem_natural rfl n)
  have hlines : ∀ line ∈ a.metadataLines, '\n'.toUInt8 ∉ line := by
    intro line hl
    unfold metadataLines at hl
    rcases List.mem_append.1 hl with hl | hl
    · rcases List.mem_cons.1 hl with rfl | hl
      · exact hcount _ _ (by decide)
      · obtain ⟨items, -, rfl⟩ := List.mem_map.1 hl
        exact MetadataFile.notMem_groupText items
    · rcases List.mem_cons.1 hl with rfl | hl
      · exact hcount _ _ (by decide)
      · obtain ⟨l, hmem, hline⟩ := List.mem_flatMap.1 hl
        simp only [List.mem_cons, List.not_mem_nil, or_false] at hline
        rcases hline with rfl | rfl
        · exact (h l hmem).plain
        · exact (h l hmem).annotated
  unfold metadataText
  rw [Text.splitOn_ofLines (by simp [metadataLines]) hlines, metadataLines, List.append_assoc]
  rfl

/-- A reader gets back what was written. -/
theorem metadataText_read : MetadataFile.read? a.metadataText = some
    ⟨chunks Metadata.itemsPerLine a.addressMap, a.listing.map (·.plain), a.listing.map (·.annotated)⟩ := by
  unfold MetadataFile.read?
  rw [splitOn_metadataText h]
  simp only [MetadataFile.count?_append, MetadataFile.addresses?_append, MetadataFile.listing?_append,
    Option.bind_eq_bind, Option.bind_some]
  rfl

end Unbroken

/-- The metadata text is read back completely. Its lines are a heading with the number of filled addresses, the
address map ten items to a line, a heading with the number of lines of the listing, and these lines, each in
both of its forms. The address map goes by increasing address and has every filled address once; the two forms
of the listing have the same number of lines, none of which has a newline. -/
theorem read?_metadataText (name source : Text) :
    let a := assemble name source
    ∃ file, MetadataFile.read? a.metadataText = some file ∧
      a.metadataText.splitOn '\n'.toUInt8 =
        ("asmap " ++ Text.natural a.addressMap.length) :: file.groups.map MetadataFile.groupText ++
          ("source " ++ Text.natural file.plain.length) ::
            (file.plain.zip file.annotated).flatMap (fun (plain, annotated) => [plain, annotated]) ++ [[]] ∧
      file.groups.length = (a.addressMap.length + 9) / 10 ∧
      (∀ group ∈ file.groups, 1 ≤ group.length ∧ group.length ≤ 10) ∧
      (∀ group ∈ file.groups.dropLast, group.length = 10) ∧
      file.groups.flatten = a.addressMap ∧
      (a.addressMap.map Prod.fst).Pairwise (· < ·) ∧
      (∀ x : Word, (∃ n, (x, n) ∈ a.addressMap) ↔ ∃ s ∈ a.statements, s.Covers x) ∧
      a.listingText.splitOn '\n'.toUInt8 = file.plain ++ [[]] ∧
      a.annotatedListing.splitOn '\n'.toUInt8 = file.annotated ++ [[]] ∧
      file.plain.length = file.annotated.length ∧
      ∀ line ∈ file.plain ++ file.annotated, '\n'.toUInt8 ∉ line := by
  intro a
  have h : ∀ l ∈ a.listing, Listing.Unbroken l := assemble_listing_unbroken name source
  have hkeys : ∀ x : Word, (∃ n, (x, n) ∈ a.addressMap) ↔ ∃ s ∈ a.statements, s.Covers x :=
    (ofSource_laidOut (Context.initial_wf name) source).addressMap_keys rfl
  -- nothing else depends on how the module was assembled
  clear_value a
  refine ⟨_, metadataText_read h, ?_, chunks_length (by decide) _, ?_, chunks_dropLast (by decide) _,
    chunks_flatten _ _, a.addressMap_increasing, hkeys, splitOn_listingText h, splitOn_annotatedListing h, ?_,
    List.forall_mem_append.2 ⟨notMem_plain h, notMem_annotated h⟩⟩
  · rw [splitOn_metadataText h, List.zip_map', List.flatMap_map, List.length_map, List.append_assoc]
    rfl
  · intro group hg
    exact ⟨List.length_pos_iff.2 (chunks_ne_nil _ _ group hg), chunks_length_le (by decide) _ group hg⟩
  · rw [List.length_map, List.length_map]

def elevenWords : Text := " jump 5[R0]\n jump 5[R0]\n jump 5[R0]\n jump 5[R0]\n jump 5[R0]\n add R1,x,R2"

set_option maxRecDepth 4000 in
/-- Eleven words, one more than a line holds, and a report of three lines, which is listed on one. -/
theorem read?_metadataText_eleven : ∃ file,
    MetadataFile.read? (assemble [] elevenWords).metadataText = some file ∧
    file.groups.map List.length = [10, 1] ∧ file.groups.flatten.map Prod.snd = [1, 1, 2, 2, 3, 3, 4, 4, 5, 5, 6] ∧
    Text.ofString "Error: 06:09: Invalid operand want:register have:x" ∈ file.plain ∧
    file.plain.length = file.annotated.length := by
  obtain ⟨file, hread, -, hlength, -, hfull, hflatten, -, -, hplain, -, hsame, -⟩ :=
    read?_metadataText [] elevenWords
  have hmap : (assemble [] elevenWords).addressMap.map Prod.snd = [1, 1, 2, 2, 3, 3, 4, 4, 5, 5, 6] := by
    decide +kernel
  have herror : Text.ofString "Error: 06:09: Invalid operand want:register have:x" ∈
      (assemble [] elevenWords).listingText.splitOn '\n'.toUInt8 := by decide +kernel
  have hlines : file.groups.flatten.map Prod.snd = [1, 1, 2, 2, 3, 3, 4, 4, 5, 5, 6] := by rw [hflatten, hmap]
  have heleven : file.groups.flatten.length = 11 := by
    rw [← List.length_map Prod.snd, hlines]
    rfl
  rw [← hflatten, heleven] at hlength
  obtain ⟨first, second, hgroups⟩ : ∃ first second, file.groups = [first, second] := by
    match file.groups, hlength with
    | [first, second], _ => exact ⟨first, second, rfl⟩
  have hten : first.length = 10 := hfull first (by simp [hgroups])
  rw [hgroups] at heleven
  refine ⟨file, hread, ?_, hlines, ?_, hsame⟩
  · simp only [List.flatten_cons, List.flatten_nil, List.append_nil, List.length_append, hten] at heleven
    rw [hgroups, List.map_cons, List.map_cons, List.map_nil, hten, show second.length = 1 by omega]
  · rw [hplain] at herror
    rcases List.mem_append.1 herror with herror | herror
    · exact herror
    · exact absurd herror (by decide)

end Assembly

end Sigma16
