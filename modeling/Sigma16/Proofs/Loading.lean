/-
Loading an object text. A loader reads the text line by line: the words of a data record go to where its
pointer stands, an origin moves the pointer, and every other record is passed over. Started with an
empty memory at address 0, it ends with exactly the memory of the module, although the text states no
address but those of the origins.
-/
import Sigma16.Proofs.Object
import Sigma16.Proofs.Phase

namespace Sigma16

/-- A loader between two records: where the next word goes, and the words loaded so far. -/
structure Loader where
  pointer : Word := 0
  memory : Std.TreeMap Word Word := ∅

namespace Loader

/-! ## Reading a text -/

/-- Stores words from the pointer on, and moves the pointer past them. -/
def store : Loader → List Word → Loader
  | l, [] => l
  | l, word :: words => store ⟨l.pointer + 1, l.memory.insert l.pointer word⟩ words

/-- Reads one line, which starts with the name of a record in nine columns. A line that has words to
be loaded and does not list them properly cannot be read. -/
def line? (l : Loader) (line : Text) : Option Loader :=
  if line.take 9 = Text.ofString "data     " then (Word.ofHexList? (line.drop 9)).map l.store
  else if line.take 9 = Text.ofString "org      " then
    (Word.ofHex? (line.drop 9)).map fun address => { l with pointer := address }
  else some l

/-- The memory after all lines that follow the header. -/
def load? (object : Text) : Option (Std.TreeMap Word Word) :=
  ((object.splitOn '\n'.toUInt8).tail.foldlM line? {}).map (·.memory)

/-! ## Reading records -/

/-- What a record does to a loader. -/
def record (l : Loader) : Record → Loader
  | .data words => l.store words
  | .org address => { l with pointer := address }
  | .header _ | .relocate _ | .exported _ | .imported _ => l

theorem line?_append {keyword : Text} (hk : keyword.length = 9) (l : Loader) (body : Text) :
    l.line? (keyword ++ body) =
      if keyword = Text.ofString "data     " then (Word.ofHexList? body).map l.store
      else if keyword = Text.ofString "org      " then
        (Word.ofHex? body).map fun address => { l with pointer := address }
      else some l := by
  unfold line?
  rw [List.take_left' hk, List.drop_left' hk]

/-- A loader that reads the text of a record does what the record says. Only a data record without
words would not be readable. -/
theorem line?_text {r : Record} (hr : r ≠ .data []) (l : Loader) : l.line? r.text = some (l.record r) := by
  cases r with
  | data words =>
    have hw : words ≠ [] := fun h => hr (by rw [h])
    rw [Record.text, line?_append (by decide), if_pos rfl, Word.ofHexList?_hexList hw]
    rfl
  | org address =>
    rw [Record.text, line?_append (by decide), if_neg (by decide), if_pos rfl, Word.ofHex?_hex]
    rfl
  | header moduleName => exact line?_append (by decide) l moduleName
  | relocate addresses => exact line?_append (by decide) l _
  | exported item =>
    simp only [Record.text, List.append_assoc]
    exact line?_append (by decide) l _
  | imported item =>
    simp only [Record.text, List.append_assoc]
    exact line?_append (by decide) l _

/-- Reading the lines of records one by one is reading the records; the empty line at the end is passed
over. -/
theorem foldlM_line? : ∀ {rs : List Record}, (∀ r ∈ rs, r ≠ .data []) → ∀ l : Loader,
    (rs.map Record.text ++ [[]]).foldlM line? l = some (rs.foldl record l)
  | [], _, l => rfl
  | r :: rs, h, l => by
    rw [List.map_cons, List.cons_append, List.foldlM_cons, line?_text (h r List.mem_cons_self)]
    exact foldlM_line? (fun t ht => h t (List.mem_cons_of_mem _ ht)) (l.record r)

/-! ## Loading words -/

theorem store_append : ∀ (l : Loader) (xs ys : List Word), l.store (xs ++ ys) = (l.store xs).store ys
  | _, [], _ => rfl
  | _, _ :: xs, ys => store_append _ xs ys

theorem store_pointer : ∀ (l : Loader) (words : List Word),
    (l.store words).pointer = l.pointer + .ofNat words.length
  | l, [] => by simp [store]
  | l, word :: words => by
    unfold store
    rw [store_pointer, List.length_cons, UInt16.ofNat_add, UInt16.add_assoc]
    rw [UInt16.add_comm (UInt16.ofNat words.length)]
    rfl

/-- Records of words load as the words do in one piece. -/
theorem foldl_ofWords (l : Loader) (words : List Word) : (Record.ofWords words).foldl record l = l.store words := by
  have hparts : ∀ (parts : List (List Word)) (l : Loader),
      (parts.map Record.data).foldl record l = l.store parts.flatten := by
    intro parts
    induction parts with
    | nil => intro l; rfl
    | cons part parts ih =>
      intro l
      rw [List.map_cons, List.foldl_cons, ih, List.flatten_cons, store_append]
      rfl
  unfold Record.ofWords
  rw [hparts, chunks_flatten]

/-- Has the loader the words of a memory image, and no others? -/
def Agrees (l : Loader) (image : Image) : Prop := ∀ x : Word, l.memory[x]? = image[x]?.map (·.word)

theorem Agrees.store : ∀ {l : Loader} {image : Image} (line : Int) (words : List Word), l.Agrees image →
    (l.store words).Agrees (image.storeAll l.pointer line words)
  | _, _, _, [], h => h
  | l, image, line, word :: words, h => by
    apply Agrees.store line words
    intro x
    rw [Std.TreeMap.getElem?_insert, Std.TreeMap.getElem?_insert, h x]
    split <;> rfl

/-- Two memories that agree on every address are listed alike. -/
theorem Agrees.toList {l : Loader} {image : Image} (h : l.Agrees image) : l.memory.toList = image.memory := by
  have he : l.memory.Equiv (image.map fun _ cell => cell.word) := by
    apply Std.TreeMap.Equiv.of_forall_constGet?_eq
    intro x
    show l.memory[x]? = (image.map fun _ cell => cell.word)[x]?
    rw [h x, Std.TreeMap.getElem?_map]
  rw [he.toList_eq, Std.TreeMap.toList_map]
  rfl

/-! ## Loading a module -/

/-- Loading the code of statements that follow one another leaves the memory that the statements leave.
The words of `pending` belong to statements before them, so the loader has them once it has read that
far: the invariant is about the loader with these words stored. -/
theorem agrees_ofCode {a : Assembly} (h : a.LaidOut) : ∀ (ss : List Statement) {v w : Value} {pending : List Word}
    {l : Loader} {image : Image}, (∀ s ∈ ss, s ∈ a.statements) → InPhase v ss w →
    (l.store pending).pointer = v.word → (l.store pending).Agrees image →
      ((Record.ofCode pending (ss.map fun s => (newOrigin? a.counter s, (encode a.symbols s).result))).foldl
        record l).Agrees
          (ss.foldl (fun image s => image.storeAll s.address.word s.line (encode a.symbols s).result) image)
  | [], _, _, pending, l, image, _, _, _, hi => by
    rw [List.map_nil, Record.ofCode, foldl_ofWords]
    exact hi
  | s :: ss, v, w, pending, l, image, hss, ⟨hv, hp⟩, hl, hi => by
    obtain ⟨hk, hz, -, ho, -⟩ := h.statements s (hss s List.mem_cons_self)
    have hrest : ∀ t ∈ ss, t ∈ a.statements := fun t ht => hss t (List.mem_cons_of_mem _ ht)
    have hnext : s.next = if s.operation.isJump then s.orgAddress.getD s.address
        else ⟨s.address.word + s.size, .loc, s.address.movability⟩ := rfl
    rw [List.map_cons, List.foldl_cons]
    by_cases hj : s.operation.isJump = true
    · -- the origin is where the next statement starts, and a jump has no words of its own
      obtain ⟨target, ht⟩ := Option.isSome_iff_exists.1 (ho.trans hj)
      have horigin : newOrigin? a.counter s = some target.word := by
        unfold newOrigin?
        rw [if_pos (hk.origin_iff.2 hj), ht]
        rfl
      rw [if_pos hj, ht] at hnext
      rw [encode_jump _ hk hj, horigin, Record.ofCode, List.foldl_append, foldl_ofWords, List.foldl_cons]
      apply agrees_ofCode h ss hrest hp
      · rw [hnext]
        rfl
      · exact hi
    · -- the words of the statement become pending, and leave the pointer where the next one starts
      have horigin : newOrigin? a.counter s = none := by
        unfold newOrigin?
        rw [if_neg fun he => hj (hk.origin_iff.1 he)]
      rw [if_neg hj] at hnext
      rw [horigin, Record.ofCode]
      apply agrees_ofCode h ss hrest hp
      · rw [store_append, store_pointer, encode_length _ hk hz, hl, UInt16.ofNat_toNat, hnext, hv]
      · rw [store_append, hv, ← hl]
        exact hi.store s.line _

/-- The notes for the linker leave a loader as it is. -/
theorem foldl_notes {rs : List Record} (h : ∀ r ∈ rs, ∀ l : Loader, l.record r = l) (l : Loader) :
    rs.foldl record l = l := by
  induction rs with
  | nil => rfl
  | cons r rs ih =>
    rw [List.foldl_cons, h r List.mem_cons_self]
    exact ih fun t ht => h t (List.mem_cons_of_mem _ ht)

/-- Of the records after the header, a loader heeds those of the code. -/
theorem foldl_records {a : Assembly} (hr : a.records = []) (l : Loader) :
    a.generate.records.tail.foldl record l = (Record.ofCode a.pending
      (a.statements.map fun s => (newOrigin? a.counter s, (encode a.symbols s).result))).foldl record l := by
  rw [Assembly.generate_records, hr, List.nil_append, List.append_assoc, List.append_assoc, List.cons_append,
    List.tail_cons, List.foldl_append]
  apply foldl_notes
  intro r hr l
  rcases List.mem_append.1 hr with hr | hr
  · obtain ⟨part, -, rfl⟩ := List.mem_map.1 hr
    rfl
  · rcases List.mem_append.1 hr with hr | hr
    · obtain ⟨item, -, rfl⟩ := List.mem_map.1 hr
      rfl
    · obtain ⟨item, -, rfl⟩ := List.mem_map.1 hr
      rfl

/-- Reading the object text of a module is reading the records after its header. -/
theorem load?_records {c : Context} (hc : c.WF) (hn : '\n'.toUInt8 ∉ c.moduleName) (source : Text) :
    load? (Assembly.ofSource c source).generate.objectText =
      some ((Assembly.ofSource c source).generate.records.tail.foldl record {}).memory := by
  have hwords := Assembly.generate_words_ne_nil c source
  have hne : (Assembly.ofSource c source).generate.records.map Record.text ≠ [] := by
    rw [Assembly.generate_records]
    simp
  unfold load?
  rw [Assembly.splitOn_objectText hc hn, List.tail_append_of_ne_nil hne, ← List.map_tail,
    foldlM_line? fun r hr => hwords r (List.mem_of_mem_tail hr)]
  rfl

/-- A loader that starts where the module does ends with the memory of the module. -/
theorem agrees_records {c : Context} (hc : c.WF) (h0 : c.counter.word = 0) (source : Text) :
    ((Assembly.ofSource c source).generate.records.tail.foldl record {}).Agrees
      (Assembly.ofSource c source).generate.image := by
  rw [foldl_records rfl, Assembly.generate_image]
  apply agrees_ofCode (ofSource_laidOut hc source) _ (fun s hs => hs) (Assembly.ofSource_inPhase hc source)
  · exact h0.symm
  · intro x
    show (∅ : Std.TreeMap Word Word)[x]? = (∅ : Image)[x]?.map (·.word)
    simp

/-- Loading the object text of a module, with or without errors, gives back its memory. -/
theorem load?_objectText (name source : Text) (h : '\n'.toUInt8 ∉ name) :
    (load? (assemble name source).objectText).map (·.toList) = some (assemble name source).memory := by
  have hc := Context.initial_wf name
  have hread := load?_records hc (Assembly.initial_moduleName h) source
  have hmemory := agrees_records hc rfl source
  unfold assemble
  rw [hread, Option.map_some, hmemory.toList]
  rfl

set_option maxRecDepth 4000 in
/-- A module with errors, whose last instruction begins at `ffff`: the loader comes around to address 0
and replaces the word that it loaded first. -/
theorem load?_objectText_around : '\n'.toUInt8 ∉ Text.ofString "m" ∧
    (load? (assemble "m" "a data 7\n org $ffff\n load R1,x[R0]").objectText).map (·.toList) =
      some [(0, 0), (0xffff, 0xf101)] := by
  have hname : '\n'.toUInt8 ∉ Text.ofString "m" := by decide
  have hmemory : (assemble "m" "a data 7\n org $ffff\n load R1,x[R0]").memory = [(0, 0), (0xffff, 0xf101)] := by
    decide +kernel
  refine ⟨hname, ?_⟩
  rw [← hmemory]
  exact load?_objectText "m" "a data 7\n org $ffff\n load R1,x[R0]" hname

end Loader

end Sigma16
