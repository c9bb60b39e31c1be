/-
Object text line by line. A word is written as four digits and read back from them, words are cut into
records and put together again, and no record of an assembled module holds a newline, so that the lines
of its object text are its records.
-/
import Sigma16.Proofs.Code

namespace Sigma16

/-! ## Lines and lists -/

namespace Text

theorem mem_join {sep : Text} {b : UInt8} : ∀ {parts : List Text}, b ∈ join sep parts →
    b ∈ sep ∨ ∃ part ∈ parts, b ∈ part
  | [], h => by cases h
  | [part], h => by
    unfold join at h
    rw [List.intercalate_singleton] at h
    exact Or.inr ⟨part, List.mem_cons_self, h⟩
  | part :: part' :: parts, h => by
    unfold join at h
    rw [List.intercalate_cons_cons, List.mem_append, List.mem_append] at h
    rcases h with (h | h) | h
    · exact Or.inr ⟨part, List.mem_cons_self, h⟩
    · exact Or.inl h
    · rcases mem_join h with h | ⟨p, hp, hb⟩
      · exact Or.inl h
      · exact Or.inr ⟨p, List.mem_cons_of_mem _ hp, hb⟩

theorem ofLines_eq_join : ∀ {lines : List Text}, lines ≠ [] → ofLines lines = join ['\n'.toUInt8] (lines ++ [[]])
  | [], h => absurd rfl h
  | [line], _ => by
    unfold ofLines join
    rw [List.intercalate_singleton, List.singleton_append, List.intercalate_cons_cons, List.intercalate_singleton,
      List.append_nil]
    rfl
  | line :: line' :: lines, _ => by
    have ih := ofLines_eq_join (List.cons_ne_nil line' lines)
    unfold ofLines join at ih ⊢
    rw [List.cons_append, List.cons_append, List.intercalate_cons_cons, List.intercalate_cons_cons,
      List.append_assoc, ih]
    rfl

/-- Lines without newlines are read back from their text, with an empty line after the last newline. -/
theorem splitOn_ofLines {lines : List Text} (hne : lines ≠ []) (h : ∀ line ∈ lines, '\n'.toUInt8 ∉ line) :
    (ofLines lines).splitOn '\n'.toUInt8 = lines ++ [[]] := by
  rw [ofLines_eq_join hne]
  apply List.splitOn_intercalate
  · intro line hl
    rcases List.mem_append.1 hl with hl | hl
    · exact h line hl
    · rw [List.mem_singleton.1 hl]
      exact List.not_mem_nil
  · simp

end Text

theorem chunks_flatten {α : Type} (n : Nat) (xs : List α) : (chunks n xs).flatten = xs := by
  fun_induction chunks n xs with
  | case1 => rfl
  | case2 x xs ih => rw [List.flatten_cons, ih, List.cons_append, List.take_append_drop]

theorem chunks_ne_nil {α : Type} (n : Nat) (xs : List α) : ∀ part ∈ chunks n xs, part ≠ [] := by
  fun_induction chunks n xs with
  | case1 => simp
  | case2 x xs ih =>
    intro part hp
    rcases List.mem_cons.1 hp with rfl | hp
    · exact List.cons_ne_nil _ _
    · exact ih part hp

/-! ## Words in hexadecimal -/

theorem Text.isHexDigit_hexDigit : ∀ n < 16, isHexDigit (hexDigit n) = true := by decide

theorem Text.hexValue_hexDigit : ∀ n < 16, hexValue (hexDigit n) = n := by decide

namespace Word

/-- The word that exactly four hexadecimal digits denote. -/
def ofHex? (t : Text) : Option Word :=
  if t.length = 4 ∧ t.all Text.isHexDigit = true then some (.ofNat (Text.hexNumber t)) else none

/-- The words of hexadecimal digits with commas between them. -/
def ofHexList? (t : Text) : Option (List Word) := (t.splitOn ','.toUInt8).mapM ofHex?

theorem hex_all (w : Word) : w.hex.all Text.isHexDigit = true := by
  have hw := w.toNat_lt
  simp only [hex, List.all_cons, List.all_nil, Text.isHexDigit_hexDigit _ (show w.toNat / 4096 < 16 by omega),
    Text.isHexDigit_hexDigit _ (show w.toNat / 256 % 16 < 16 by omega),
    Text.isHexDigit_hexDigit _ (show w.toNat / 16 % 16 < 16 by omega),
    Text.isHexDigit_hexDigit _ (show w.toNat % 16 < 16 by omega), Bool.and_self]

theorem hexNumber_hex (w : Word) : Text.hexNumber w.hex = w.toNat := by
  have hw := w.toNat_lt
  simp only [hex, Text.hexNumber, List.foldl_cons, List.foldl_nil,
    Text.hexValue_hexDigit _ (show w.toNat / 4096 < 16 by omega),
    Text.hexValue_hexDigit _ (show w.toNat / 256 % 16 < 16 by omega),
    Text.hexValue_hexDigit _ (show w.toNat / 16 % 16 < 16 by omega),
    Text.hexValue_hexDigit _ (show w.toNat % 16 < 16 by omega)]
  omega

theorem ofHex?_hex (w : Word) : ofHex? w.hex = some w := by
  unfold ofHex?
  rw [if_pos ⟨rfl, w.hex_all⟩, hexNumber_hex, UInt16.ofNat_toNat]

theorem notMem_hex {b : UInt8} (hb : Text.isHexDigit b = false) (w : Word) : b ∉ w.hex := by
  intro h
  rw [List.all_eq_true.1 w.hex_all b h] at hb
  cases hb

theorem notMem_hexList {b : UInt8} (hb : Text.isHexDigit b = false) (hc : b ≠ ','.toUInt8) (ws : List Word) :
    b ∉ hexList ws := by
  intro h
  rcases Text.mem_join h with h | ⟨part, hp, h⟩
  · exact hc (List.mem_singleton.1 h)
  · obtain ⟨w, -, rfl⟩ := List.mem_map.1 hp
    exact notMem_hex hb w h

/-- Words are read back from their text, if there are any. -/
theorem ofHexList?_hexList {ws : List Word} (h : ws ≠ []) : ofHexList? (hexList ws) = some ws := by
  have hparts : (hexList ws).splitOn ','.toUInt8 = ws.map hex := by
    apply List.splitOn_intercalate
    · intro part hp
      obtain ⟨w, -, rfl⟩ := List.mem_map.1 hp
      exact notMem_hex rfl w
    · simpa using h
  have hread : (ofHex? ∘ hex) = fun w => some w := funext ofHex?_hex
  unfold ofHexList?
  rw [hparts, List.mapM_map, hread]
  exact (List.mapM_pure (m := Option) (l := ws) (f := id)).trans (by simp)

end Word

/-! ## Records on one line -/

theorem Field.notMem_name (field : Field) : '\n'.toUInt8 ∉ field.name := by
  cases field <;> decide

namespace Record

/-- A record whose names hold no newline. -/
def Plain : Record → Prop
  | .header moduleName => '\n'.toUInt8 ∉ moduleName
  | .data _ | .org _ | .relocate _ => True
  | .exported item => '\n'.toUInt8 ∉ item.name
  | .imported item =>
    '\n'.toUInt8 ∉ item.moduleName ∧ '\n'.toUInt8 ∉ item.foreignName ∧ '\n'.toUInt8 ∉ item.field

theorem Plain.notMem_text {r : Record} (h : r.Plain) : '\n'.toUInt8 ∉ r.text := by
  have hcomma : '\n'.toUInt8 ∉ Text.ofString "," := by decide
  cases r with
  | header moduleName =>
    exact List.not_mem_append (by decide) h
  | data words => exact List.not_mem_append (by decide) (Word.notMem_hexList rfl (by decide) words)
  | org address => exact List.not_mem_append (by decide) (Word.notMem_hex rfl address)
  | relocate addresses => exact List.not_mem_append (by decide) (Word.notMem_hexList rfl (by decide) addresses)
  | exported item =>
    have hname : '\n'.toUInt8 ∉ item.name := h
    have hkey : '\n'.toUInt8 ∉ Text.ofString "export   " := by decide
    have hhex : '\n'.toUInt8 ∉ item.value.word.hex := Word.notMem_hex rfl _
    have hkind : '\n'.toUInt8 ∉ Text.ofString (if item.value.isRelocatable then "relocatable" else "fixed") := by
      split <;> decide
    simp [text, hkey, hname, hcomma, hhex, hkind]
  | imported item =>
    obtain ⟨hmodule, hforeign, hfield⟩ := h
    have hkey : '\n'.toUInt8 ∉ Text.ofString "import   " := by decide
    have hhex : '\n'.toUInt8 ∉ item.address.hex := Word.notMem_hex rfl _
    simp [text, hkey, hmodule, hforeign, hfield, hcomma, hhex]

theorem mem_ofWords {words : List Word} {r : Record} (h : r ∈ ofWords words) :
    ∃ part, part ≠ [] ∧ r = .data part := by
  obtain ⟨part, hp, rfl⟩ := List.mem_map.1 h
  exact ⟨part, chunks_ne_nil _ _ part hp, rfl⟩

/-- The code of a module is made of words, in records that are not empty, and of origins. -/
theorem mem_ofCode : ∀ (code : List (Option Word × List Word)) (pending : List Word) {r : Record},
    r ∈ ofCode pending code → (∃ words, words ≠ [] ∧ r = .data words) ∨ ∃ address, r = .org address
  | [], _, _, hr => Or.inl (mem_ofWords hr)
  | (none, _) :: code, _, _, hr => mem_ofCode code _ hr
  | (some address, words) :: code, _, _, hr => by
    rcases List.mem_append.1 hr with hr | hr
    · exact Or.inl (mem_ofWords hr)
    · rcases List.mem_cons.1 hr with rfl | hr
      · exact Or.inr ⟨address, rfl⟩
      · exact mem_ofCode code words hr

theorem exported_plain {item : Export} (h : Text.isName item.name = true) : (exported item).Plain :=
  Text.isName_notMem h rfl

theorem imported_plain {item : Import} (h : item.Named) : (imported item).Plain := by
  obtain ⟨field, hf⟩ := h.field
  refine ⟨Text.isName_notMem h.moduleName rfl, Text.isName_notMem h.foreignName rfl, ?_⟩
  rw [hf]
  exact field.notMem_name

end Record

/-! ## The lines of an object text -/

namespace Assembly

theorem initial_moduleName {name : Text} (h : '\n'.toUInt8 ∉ name) :
    '\n'.toUInt8 ∉ (Context.initial name).moduleName := by
  show '\n'.toUInt8 ∉ if name.isEmpty then Context.defaultName else name
  split
  · decide
  · exact h

/-- The name of a module stays on one line, also where a statement of the module gives it. -/
theorem ofSource_moduleName {c : Context} (hc : c.WF) (hn : '\n'.toUInt8 ∉ c.moduleName) (source : Text) :
    '\n'.toUInt8 ∉ (ofSource c source).moduleName := by
  have hrun := layOut_run (I := fun c => c.WF ∧ '\n'.toUInt8 ∉ c.moduleName) (P := fun _ => True)
    (fun c line source _ hc => by
      have h := layOutLine_spec hc.1 line source
      refine ⟨⟨h.wf, ?_⟩, trivial⟩
      rcases h.moduleName with he | hname
      · rw [he]
        exact hc.2
      · exact Text.isName_notMem hname rfl)
    (Text.sourceLines source) c 1 (Text.sourceLines_notMem source) ⟨hc, hn⟩
  exact hrun.1.2

/-- What the records of a module are made of. -/
theorem mem_generate_records {a : Assembly} (hr : a.records = []) (he : a.exports = []) (hi : a.imports = [])
    {r : Record} (h : r ∈ a.generate.records) :
    r = .header a.moduleName ∨ (∃ words, words ≠ [] ∧ r = .data words) ∨ (∃ address, r = .org address) ∨
    (∃ addresses, r = .relocate addresses) ∨
    (∃ s ∈ a.statements, ∃ item ∈ (encode a.symbols s).effects.exports, r = .exported item) ∨
    ∃ s ∈ a.statements, ∃ item ∈ (encode a.symbols s).effects.imports, r = .imported item := by
  rw [generate_records, generate_exports, generate_imports, hr, he, hi] at h
  simp only [List.nil_append, List.cons_append, List.mem_cons, List.mem_append, List.mem_map, List.mem_flatMap,
    Record.ofRelocations] at h
  rcases h with h | ((h | h) | h) | h
  · exact Or.inl h
  · rcases Record.mem_ofCode _ _ h with h | h
    · exact Or.inr (Or.inl h)
    · exact Or.inr (Or.inr (Or.inl h))
  · obtain ⟨part, -, rfl⟩ := h
    exact Or.inr (Or.inr (Or.inr (Or.inl ⟨part, rfl⟩)))
  · obtain ⟨item, ⟨s, hs, hm⟩, rfl⟩ := h
    exact Or.inr (Or.inr (Or.inr (Or.inr (Or.inl ⟨s, hs, item, hm, rfl⟩))))
  · obtain ⟨item, ⟨s, hs, hm⟩, rfl⟩ := h
    exact Or.inr (Or.inr (Or.inr (Or.inr (Or.inr ⟨s, hs, item, hm, rfl⟩))))

theorem generate_plain {c : Context} (hc : c.WF) (hn : '\n'.toUInt8 ∉ c.moduleName) (source : Text) :
    ∀ r ∈ (ofSource c source).generate.records, r.Plain := by
  have h := ofSource_laidOut hc source
  intro r hr
  rcases mem_generate_records rfl rfl rfl hr with rfl | ⟨words, -, rfl⟩ | ⟨address, rfl⟩ | ⟨addresses, rfl⟩ |
    ⟨s, hs, item, hi, rfl⟩ | ⟨s, hs, item, hi, rfl⟩
  · exact ofSource_moduleName hc hn source
  · trivial
  · trivial
  · trivial
  · exact Record.exported_plain ((h.encode_sound hs).exports item hi)
  · exact Record.imported_plain ((h.encode_sound hs).imports item hi)

theorem generate_words_ne_nil (c : Context) (source : Text) :
    ∀ r ∈ (ofSource c source).generate.records, r ≠ .data [] := by
  intro r hr
  rcases mem_generate_records rfl rfl rfl hr with rfl | ⟨words, hw, rfl⟩ | ⟨address, rfl⟩ | ⟨addresses, rfl⟩ |
    ⟨s, hs, item, hi, rfl⟩ | ⟨s, hs, item, hi, rfl⟩ <;> intro h <;> cases h
  exact hw rfl

/-- The lines of an object text are the records of the module. -/
theorem splitOn_objectText {c : Context} (hc : c.WF) (hn : '\n'.toUInt8 ∉ c.moduleName) (source : Text) :
    (ofSource c source).generate.objectText.splitOn '\n'.toUInt8 =
      (ofSource c source).generate.records.map Record.text ++ [[]] := by
  apply Text.splitOn_ofLines
  · rw [generate_records]
    simp
  · intro line hl
    obtain ⟨r, hr, rfl⟩ := List.mem_map.1 hl
    exact (generate_plain hc hn source r hr).notMem_text

end Assembly

end Sigma16
