/-
Object text as a file format. A reader that knows the keywords and the order of the sections reads every
object text back, line by line and to the end: the name of the module, the words of the code in source
order, and all the notes for the linker. No name in a record holds a comma or a newline, so that a line
can be taken apart in one way only.
-/
import Sigma16.Proofs.Object

namespace Sigma16

/-! ## Reading -/

/-- The contents of an object file. -/
structure ObjectFile where
  moduleName : Text
  /-- The lines with code, words and origins. -/
  code : List Record
  /-- The addresses of each line of relocations. -/
  relocations : List (List Word)
  /-- Names with their words, and whether these move with the module. -/
  exports : List (Text × Word × Bool)
  imports : List Import
  deriving DecidableEq, Repr

namespace ObjectFile

/-- What follows a keyword of nine columns. -/
def body? (keyword line : Text) : Option Text :=
  if line.take 9 = keyword then some (line.drop 9) else none

/-- One to eight words. -/
def words? (t : Text) : Option (List Word) :=
  (Word.ofHexList? t).filter fun words => 1 ≤ words.length && words.length ≤ 8

def movable? (t : Text) : Option Bool :=
  if t = Text.ofString "relocatable" then some true else if t = Text.ofString "fixed" then some false else none

def code? (line : Text) : Option Record :=
  (((body? "data     " line).bind words?).map .data).or (((body? "org      " line).bind Word.ofHex?).map .org)

def relocate? (line : Text) : Option (List Word) := (body? "relocate " line).bind words?

def export? (line : Text) : Option (Text × Word × Bool) := do
  match (← body? "export   " line).splitOn ','.toUInt8 with
  | [name, word, movable] => return (name, ← Word.ofHex? word, ← movable? movable)
  | _ => none

def import? (line : Text) : Option Import := do
  match (← body? "import   " line).splitOn ','.toUInt8 with
  | [moduleName, foreignName, address, field] =>
    return { moduleName, foreignName, address := ← Word.ofHex? address, field }
  | _ => none

/-- The lines of a section, as far as they can be read, and the lines that are left. -/
def readLines {α : Type} (read : Text → Option α) : List Text → List α × List Text
  | [] => ([], [])
  | line :: lines =>
    match read line with
    | some item => (item :: (readLines read lines).1, (readLines read lines).2)
    | none => ([], line :: lines)

/-- Reads a header and the four sections after it. Nothing may be left but the empty line after the last
newline. -/
def read? (text : Text) : Option ObjectFile :=
  match text.splitOn '\n'.toUInt8 with
  | [] => none
  | line :: lines => do
    let moduleName ← body? "module   " line
    let (code, lines) := readLines code? lines
    let (relocations, lines) := readLines relocate? lines
    let (exports, lines) := readLines export? lines
    let (imports, lines) := readLines import? lines
    if lines = [[]] then some { moduleName, code, relocations, exports, imports } else none

/-! ## Reading lines -/

theorem body?_append {keyword : Text} (hk : keyword.length = 9) (other body : Text) :
    body? other (keyword ++ body) = if keyword = other then some body else none := by
  unfold body?
  rw [List.take_left' hk, List.drop_left' hk]

theorem words?_hexList {words : List Word} (hne : words ≠ []) (hle : words.length ≤ 8) :
    words? (Word.hexList words) = some words := by
  have hpos : 1 ≤ words.length := List.length_pos_iff.2 hne
  unfold words?
  rw [Word.ofHexList?_hexList hne]
  simp [hpos, hle]

theorem movable?_eq (movable : Bool) :
    movable? (Text.ofString (if movable then "relocatable" else "fixed")) = some movable := by
  cases movable <;> rfl

theorem ofString_comma : Text.ofString "," = [','.toUInt8] := by decide

theorem splitOn_join (parts : List Text) (hne : parts ≠ []) (h : ∀ part ∈ parts, ','.toUInt8 ∉ part) :
    (Text.join [','.toUInt8] parts).splitOn ','.toUInt8 = parts := List.splitOn_intercalate _ h hne

theorem code?_data {words : List Word} (hne : words ≠ []) (hle : words.length ≤ 8) :
    code? (Record.data words).text = some (.data words) := by
  unfold code? Record.text
  rw [body?_append (by decide), if_pos rfl, Option.bind_some, words?_hexList hne hle]
  rfl

theorem code?_org (address : Word) : code? (Record.org address).text = some (.org address) := by
  unfold code? Record.text
  rw [body?_append (by decide), if_neg (by decide), body?_append (by decide), if_pos rfl, Option.bind_some,
    Word.ofHex?_hex]
  rfl

theorem relocate?_text {words : List Word} (hne : words ≠ []) (hle : words.length ≤ 8) :
    relocate? (Record.relocate words).text = some words := by
  unfold relocate? Record.text
  rw [body?_append (by decide), if_pos rfl, Option.bind_some, words?_hexList hne hle]

theorem export?_text {item : Export} (h : Text.isName item.name = true) :
    export? (Record.exported item).text = some (item.name, item.value.word, item.value.isRelocatable) := by
  have hkind : ','.toUInt8 ∉ Text.ofString (if item.value.isRelocatable then "relocatable" else "fixed") := by
    split <;> decide
  -- names, digits and words hold no comma, so that a line splits where its items were joined
  have hparts := splitOn_join [item.name, item.value.word.hex, _] (by simp) (by
    simpa using ⟨Text.isName_notMem h rfl, Word.notMem_hex rfl item.value.word, hkind⟩)
  unfold export? Record.text
  simp only [List.append_assoc]
  rw [body?_append (by decide), if_pos rfl]
  simp only [Text.join, List.intercalate_cons_cons, List.intercalate_singleton, List.append_assoc] at hparts
  simp only [Option.bind_eq_bind, Option.bind_some, ofString_comma, hparts, Word.ofHex?_hex, movable?_eq]
  rfl

theorem import?_text {item : Import} (h : item.Named) : import? (Record.imported item).text = some item := by
  have hfield : ','.toUInt8 ∉ item.field := by
    obtain ⟨field, hfield⟩ := h.field
    rw [hfield]
    cases field <;> decide
  have hparts := splitOn_join [item.moduleName, item.foreignName, item.address.hex, item.field] (by simp) (by
    simpa using ⟨Text.isName_notMem h.moduleName rfl, Text.isName_notMem h.foreignName rfl,
      Word.notMem_hex rfl item.address, hfield⟩)
  unfold import? Record.text
  simp only [List.append_assoc]
  rw [body?_append (by decide), if_pos rfl]
  simp only [Text.join, List.intercalate_cons_cons, List.intercalate_singleton, List.append_assoc] at hparts
  simp only [Option.bind_eq_bind, Option.bind_some, ofString_comma, hparts, Word.ofHex?_hex]
  rfl

/-! ## Reading sections -/

/-- A section is read to its end, if its lines can be read and the lines after it are refused. -/
theorem readLines_append {α β : Type} {read : Text → Option α} {write : β → Text} {f : β → α} :
    ∀ {items : List β} {rest : List Text}, (∀ x ∈ items, read (write x) = some (f x)) →
      (∀ line ∈ rest, read line = none) → readLines read (items.map write ++ rest) = (items.map f, rest)
  | [], [], _, _ => rfl
  | [], line :: rest, _, hrest => by
    show readLines read (line :: rest) = ([], line :: rest)
    unfold readLines
    rw [hrest line List.mem_cons_self]
  | x :: items, rest, hitems, hrest => by
    have ih := readLines_append (fun y hy => hitems y (List.mem_cons_of_mem _ hy)) hrest
    rw [List.map_cons, List.cons_append, readLines, hitems x List.mem_cons_self, ih]
    rfl

/-- Reading a section of an object text: what the records of the section say, and the lines of the records
that follow. -/
theorem readLines_section {α β : Type} {read : Text → Option α} {f : β → α} {items : List β} (record : β → Record)
    (later : List Record) (hitems : ∀ x ∈ items, read (record x).text = some (f x))
    (hlater : ∀ r ∈ later, read r.text = none) (hempty : read [] = none) :
    readLines read ((items.map record ++ later).map Record.text ++ [[]]) =
      (items.map f, later.map Record.text ++ [[]]) := by
  rw [List.map_append, List.map_map, List.append_assoc]
  apply readLines_append hitems
  intro line hl
  rcases List.mem_append.1 hl with hl | hl
  · obtain ⟨r, hr, rfl⟩ := List.mem_map.1 hl
    exact hlater r hr
  · rw [List.mem_singleton.1 hl]
    exact hempty

end ObjectFile

/-! ## The words of code records -/

theorem chunks_length_le {α : Type} {n : Nat} (hn : 0 < n) (xs : List α) : ∀ part ∈ chunks n xs, part.length ≤ n := by
  fun_induction chunks n xs with
  | case1 => simp
  | case2 x xs ih =>
    intro part hp
    rcases List.mem_cons.1 hp with rfl | hp
    · rw [List.length_cons, List.length_take]
      omega
    · exact ih part hp

namespace Record

/-- The words that a record adds to the code. -/
def words : Record → List Word
  | .data words => words
  | .header _ | .org _ | .relocate _ | .exported _ | .imported _ => []

/-- A line of code: one to eight words, or an origin. -/
def IsCode (r : Record) : Prop :=
  (∃ words, r = .data words ∧ 1 ≤ words.length ∧ words.length ≤ 8) ∨ ∃ address, r = .org address

theorem flatMap_words_ofWords (words : List Word) : (ofWords words).flatMap Record.words = words := by
  unfold ofWords
  rw [List.flatMap_map]
  exact List.flatMap_id'.trans (chunks_flatten _ words)

theorem isCode_ofWords {words : List Word} {r : Record} (h : r ∈ ofWords words) : r.IsCode := by
  obtain ⟨part, hp, rfl⟩ := List.mem_map.1 h
  have hne := chunks_ne_nil _ _ part hp
  exact Or.inl ⟨part, rfl, List.length_pos_iff.2 hne, chunks_length_le (by decide) words part hp⟩

/-- The records of code hold all its words in order, whatever origins stand between them. -/
theorem flatMap_words_ofCode : ∀ (code : List (Option Word × List Word)) (pending : List Word),
    (ofCode pending code).flatMap Record.words = pending ++ code.flatMap Prod.snd
  | [], pending => by
    rw [ofCode, flatMap_words_ofWords, List.flatMap_nil, List.append_nil]
  | (none, words) :: code, pending => by
    rw [ofCode, flatMap_words_ofCode code, List.flatMap_cons, List.append_assoc]
  | (some address, words) :: code, pending => by
    rw [ofCode, List.flatMap_append, flatMap_words_ofWords, List.flatMap_cons, flatMap_words_ofCode code,
      List.flatMap_cons]
    rfl

theorem isCode_ofCode : ∀ (code : List (Option Word × List Word)) (pending : List Word),
    ∀ r ∈ ofCode pending code, r.IsCode
  | [], _, _, hr => isCode_ofWords hr
  | (none, _) :: code, _, r, hr => isCode_ofCode code _ r hr
  | (some address, words) :: code, _, r, hr => by
    rcases List.mem_append.1 hr with hr | hr
    · exact isCode_ofWords hr
    · rcases List.mem_cons.1 hr with rfl | hr
      · exact Or.inr ⟨address, rfl⟩
      · exact isCode_ofCode code words r hr

theorem IsCode.code?_text {r : Record} (h : r.IsCode) : ObjectFile.code? r.text = some r := by
  rcases h with ⟨words, rfl, hpos, hle⟩ | ⟨address, rfl⟩
  · exact ObjectFile.code?_data (List.length_pos_iff.1 hpos) hle
  · exact ObjectFile.code?_org address

end Record

/-! ## Whole files -/

namespace ObjectFile

/-- Records in the order of the sections are read back from their lines. -/
theorem read?_of_lines {text moduleName : Text} {code : List Record} {addresses : List Word} {exports : List Export}
    {imports : List Import} (hlines : text.splitOn '\n'.toUInt8 =
      (Record.header moduleName :: code ++ Record.ofRelocations addresses ++ exports.map Record.exported
        ++ imports.map Record.imported).map Record.text ++ [[]])
    (hcode : ∀ r ∈ code, r.IsCode) (hexports : ∀ item ∈ exports, Text.isName item.name = true)
    (himports : ∀ item ∈ imports, item.Named) :
    read? text = some {
      moduleName
      code
      relocations := chunks Record.itemsPerRecord addresses
      exports := exports.map fun item => (item.name, item.value.word, item.value.isRelocatable)
      imports } := by
  have hheader : body? "module   " (Record.header moduleName).text = some moduleName := by
    unfold Record.text
    rw [body?_append (by decide), if_pos rfl]
  have hparts : ∀ part ∈ chunks Record.itemsPerRecord addresses,
      relocate? (Record.relocate part).text = some (id part) := fun part hp =>
    relocate?_text (chunks_ne_nil _ _ part hp) (chunks_length_le (by decide) _ part hp)
  -- every section ends where the keyword of a later one appears
  have himported := readLines_section Record.imported [] (fun item hi => import?_text (himports item hi)) (by simp) rfl
  have hexported := readLines_section Record.exported (imports.map Record.imported)
    (fun item hi => export?_text (hexports item hi)) (List.forall_mem_map.2 fun _ _ => rfl) rfl
  have hrelocated := readLines_section Record.relocate (exports.map Record.exported ++ imports.map Record.imported)
    hparts
    (List.forall_mem_append.2 ⟨List.forall_mem_map.2 fun _ _ => rfl, List.forall_mem_map.2 fun _ _ => rfl⟩) rfl
  have hcoded := readLines_section id (Record.ofRelocations addresses ++
      (exports.map Record.exported ++ imports.map Record.imported)) (fun r hr => (hcode r hr).code?_text)
    (List.forall_mem_append.2 ⟨List.forall_mem_map.2 fun _ _ => rfl,
      List.forall_mem_append.2 ⟨List.forall_mem_map.2 fun _ _ => rfl, List.forall_mem_map.2 fun _ _ => rfl⟩⟩) rfl
  simp only [List.map_id_fun, List.map_id', id_eq, List.append_nil, Record.ofRelocations]
    at himported hexported hrelocated hcoded
  unfold read?
  rw [hlines]
  simp only [List.cons_append, List.map_cons, List.append_assoc, hheader, Option.bind_eq_bind, Option.bind_some,
    Record.ofRelocations, hcoded, hrelocated, hexported, himported]
  rfl

end ObjectFile

namespace Assembly

theorem LaidOut.flatMap_code {a : Assembly} (h : a.LaidOut) :
    a.generate.statements.flatMap (·.code) = a.statements.flatMap fun s => (encode a.symbols s).result := by
  rw [generate_statements, List.flatMap_map, List.flatMap_def, List.flatMap_def]
  rw [List.map_congr_left fun s hs => h.code_eq hs]

theorem LaidOut.exports_named {a : Assembly} (h : a.LaidOut) (hnone : a.exports = []) :
    ∀ item ∈ a.generate.exports, Text.isName item.name = true := by
  intro item hi
  rw [generate_exports, hnone, List.nil_append] at hi
  obtain ⟨s, hs, hi⟩ := List.mem_flatMap.1 hi
  exact (h.encode_sound hs).exports item hi

theorem LaidOut.imports_named {a : Assembly} (h : a.LaidOut) (hnone : a.imports = []) :
    ∀ item ∈ a.generate.imports, item.Named := by
  intro item hi
  rw [generate_imports, hnone, List.nil_append] at hi
  obtain ⟨s, hs, hi⟩ := List.mem_flatMap.1 hi
  exact (h.encode_sound hs).imports item hi

/-- An object text can be read back completely: the name of the module; code in lines of one to eight words
and in origins, which holds the words of all statements in source order; all addresses that move with the
module, in lines of one to eight; and every name that is offered or asked for. -/
theorem read?_objectText (name source : Text) (hn : '\n'.toUInt8 ∉ name) :
    let a := assemble name source
    ∃ file, ObjectFile.read? a.objectText = some file ∧
      file.moduleName = a.moduleName ∧
      (∀ r ∈ file.code, r.IsCode) ∧
      file.code.flatMap Record.words = a.statements.flatMap (·.code) ∧
      (∀ line ∈ file.relocations, 1 ≤ line.length ∧ line.length ≤ 8) ∧
      file.relocations.flatten = a.relocations ∧
      file.exports = a.exports.map (fun item => (item.name, item.value.word, item.value.isRelocatable)) ∧
      file.imports = a.imports := by
  intro a
  have hwf := Context.initial_wf name
  have hlaid := ofSource_laidOut hwf source
  have hlines := splitOn_objectText hwf (initial_moduleName hn) source
  rw [generate_records] at hlines
  have hread := ObjectFile.read?_of_lines hlines (Record.isCode_ofCode _ _) (hlaid.exports_named rfl)
    (hlaid.imports_named rfl)
  refine ⟨_, hread, rfl, Record.isCode_ofCode _ _, ?_, ?_, chunks_flatten _ _, rfl, rfl⟩
  · have hcode : a.statements.flatMap (·.code) = _ := hlaid.flatMap_code
    rw [hcode, Record.flatMap_words_ofCode, List.flatMap_map]
    rfl
  · intro line hl
    exact ⟨List.length_pos_iff.2 (chunks_ne_nil _ _ line hl), chunks_length_le (by decide) _ line hl⟩

def everySection : Text :=
  " jump x[R0]\n jump x[R0]\n jump y[R0]\n jump 5[R0]\nx data 9\n org 32\n data x\ny import m,f\n export x"

set_option maxRecDepth 4000 in
/-- Nine words before an origin, which take two lines, and notes of every kind. -/
theorem read?_objectText_sections : '\n'.toUInt8 ∉ Text.ofString "lib" ∧ ∃ file,
    ObjectFile.read? (objectText (assemble "lib" everySection)) = some file ∧
    file.moduleName = Text.ofString "lib" ∧ file.relocations.flatten = [1, 3, 32] ∧
    file.code.flatMap Record.words = [0xf003, 8, 0xf003, 8, 0xf003, 0, 0xf003, 5, 9, 8] ∧
    file.exports = [(Text.ofString "x", 8, true)] ∧ file.imports = [⟨"m", "f", 5, "disp"⟩] := by
  have hn : '\n'.toUInt8 ∉ Text.ofString "lib" := by decide
  obtain ⟨file, hread, hname, -, hcode, -, hrelocations, hexports, himports⟩ :=
    read?_objectText "lib" everySection hn
  have hrun : (fun a : Assembly => (a.moduleName, a.relocations, a.statements.flatMap (·.code), a.exports, a.imports))
      (assemble "lib" everySection) =
        (Text.ofString "lib", [1, 3, 32], [0xf003, 8, 0xf003, 8, 0xf003, 0, 0xf003, 5, 9, 8],
          [⟨"x", .relocatable 8⟩], [⟨"m", "f", 5, "disp"⟩]) := by decide +kernel
  simp only [Prod.mk.injEq] at hrun
  rw [hrun.1] at hname
  rw [hrun.2.1] at hrelocations
  rw [hrun.2.2.1] at hcode
  rw [hrun.2.2.2.1] at hexports
  rw [hrun.2.2.2.2] at himports
  exact ⟨hn, file, hread, hname, hrelocations, hcode, hexports, himports⟩

end Assembly

end Sigma16
