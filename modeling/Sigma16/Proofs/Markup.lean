/-
Markup in listings. An annotated line is to be its plain form cut into runs, with every `<` of a run written as `&lt;`
and some of the runs inside a span, so that a reader of the markup sees the tags of the spans and no others. Headings,
messages, symbols and comments are listed so. The label, the mnemonic and the operands of a statement go into their
spans as they are, and a `<` in one of them is taken for the start of a tag: a line of the source is listed right
exactly if none of the three has one.
-/
import Sigma16.Proofs.MetadataFile
import Sigma16.Proofs.Transcript

namespace Sigma16

namespace Listing

/-! ## Escaped text -/

theorem escapeMarkup_cons (b : UInt8) (t : Text) :
    escapeMarkup (b :: t) = (if b == '<'.toUInt8 then Text.ofString "&lt;" else [b]) ++ escapeMarkup t := rfl

theorem escapeMarkup_eq_self {t : Text} (h : '<'.toUInt8 ∉ t) : escapeMarkup t = t := by
  induction t with
  | nil => rfl
  | cons b t ih =>
    have hb : (b == '<'.toUInt8) = false := beq_false_of_ne fun hb => h (hb ▸ List.mem_cons_self)
    rw [escapeMarkup_cons, hb, ih fun ht => h (List.mem_cons_of_mem b ht)]
    rfl

/-- Nothing in an escaped text opens a tag. -/
theorem notMem_escapeMarkup_lt (t : Text) : '<'.toUInt8 ∉ escapeMarkup t := by
  intro h
  obtain ⟨b, -, hb⟩ := List.mem_flatMap.1 h
  split at hb
  · exact absurd hb (by decide)
  · rename_i hne
    exact hne (beq_iff_eq.2 (List.mem_singleton.1 hb).symm)

/-- Escaping leaves the ends of tags alone. -/
theorem count_escapeMarkup_gt (t : Text) : (escapeMarkup t).count '>'.toUInt8 = t.count '>'.toUInt8 := by
  induction t with
  | nil => rfl
  | cons b t ih =>
    rw [escapeMarkup_cons, List.count_append, ih, List.count_cons]
    split
    · rename_i hb
      have hentity : (Text.ofString "&lt;").count '>'.toUInt8 = 0 := by decide
      rw [beq_iff_eq.1 hb, hentity, Nat.zero_add]
      rfl
    · rw [List.count_singleton, Nat.add_comm]

/-! ## Spans -/

/-- The classes of the spans in listings. -/
def spanClasses : List String :=
  ["FIELDLABEL", "FIELDOPERATION", "FIELDOPERAND", "FIELDCOMMENT", "ERR", "ListingHeader"]

/-- A span adds two tags to its text. -/
theorem count_highlight (className : String) (hc : className ∈ spanClasses) (t : Text) :
    (highlight className t).count '<'.toUInt8 = t.count '<'.toUInt8 + 2 ∧
    (highlight className t).count '>'.toUInt8 = t.count '>'.toUInt8 + 2 := by
  have hclasses : ∀ c ∈ spanClasses, (Text.ofString c).count '<'.toUInt8 = 0 ∧
      (Text.ofString c).count '>'.toUInt8 = 0 := by decide
  have hfixed : (Text.ofString "<span class='").count '<'.toUInt8 = 1 ∧ (Text.ofString "'>").count '<'.toUInt8 = 0 ∧
      (Text.ofString "</span>").count '<'.toUInt8 = 1 ∧ (Text.ofString "<span class='").count '>'.toUInt8 = 0 ∧
      (Text.ofString "'>").count '>'.toUInt8 = 1 ∧ (Text.ofString "</span>").count '>'.toUInt8 = 1 := by decide
  obtain ⟨hlt, hgt⟩ := hclasses className hc
  unfold highlight
  simp only [List.count_append]
  omega

/-- An annotated text is a plain one cut into runs, each of them escaped and some of them in spans. So every `<` of the
plain text is written `&lt;`, and every `<` of the annotated text belongs to the tag of a span. -/
inductive Escapes : Text → Text → Prop where
  | nil : Escapes [] []
  | text {plain annotated : Text} (t : Text) : Escapes plain annotated →
      Escapes (t ++ plain) (escapeMarkup t ++ annotated)
  | span {plain annotated : Text} (className : String) (t : Text) : className ∈ spanClasses →
      Escapes plain annotated → Escapes (t ++ plain) (highlight className (escapeMarkup t) ++ annotated)

namespace Escapes

/-- The tags of an annotated text come in pairs, and the `>` of the plain text stand between them. -/
theorem tags {plain annotated : Text} (h : Escapes plain annotated) : ∃ n,
    annotated.count '<'.toUInt8 = 2 * n ∧ annotated.count '>'.toUInt8 = plain.count '>'.toUInt8 + 2 * n := by
  have hescaped (t : Text) : (escapeMarkup t).count '<'.toUInt8 = 0 := List.count_eq_zero.2 (notMem_escapeMarkup_lt t)
  induction h with
  | nil => exact ⟨0, rfl, rfl⟩
  | text t _ ih =>
    obtain ⟨n, hlt, hgt⟩ := ih
    refine ⟨n, ?_, ?_⟩
    · rw [List.count_append, hescaped, hlt, Nat.zero_add]
    · rw [List.count_append, List.count_append, count_escapeMarkup_gt, hgt, Nat.add_assoc]
  | span className t hc _ ih =>
    obtain ⟨n, hlt, hgt⟩ := ih
    obtain ⟨hspan, hspan'⟩ := count_highlight className hc (escapeMarkup t)
    refine ⟨n + 1, ?_, ?_⟩
    · rw [List.count_append, hspan, hescaped, hlt]
      omega
    · rw [List.count_append, List.count_append, hspan', count_escapeMarkup_gt, hgt]
      omega

/-- Text without a `<` needs no escaping. -/
theorem verbatim {plain annotated t : Text} (ht : '<'.toUInt8 ∉ t) (h : Escapes plain annotated) :
    Escapes (t ++ plain) (t ++ annotated) := by
  have hrun := h.text t
  rwa [escapeMarkup_eq_self ht] at hrun

theorem verbatimSpan {plain annotated t : Text} (className : String) (hc : className ∈ spanClasses)
    (ht : '<'.toUInt8 ∉ t) (h : Escapes plain annotated) :
    Escapes (t ++ plain) (highlight className t ++ annotated) := by
  have hrun := h.span className t hc
  rwa [escapeMarkup_eq_self ht] at hrun

end Escapes

/-! ## Lines of a listing -/

theorem errorLine_escapes (e : Diagnostic) : Escapes (errorLine e).plain (errorLine e).annotated := by
  have h : Escapes (errorText e ++ []) (highlight "ERR" (escapeMarkup (errorText e)) ++ []) :=
    .span _ _ (by decide) .nil
  rwa [List.append_nil, List.append_nil] at h

theorem lineOf_escapes {className : String} (hc : className ∈ spanClasses) {t : Text} (ht : '<'.toUInt8 ∉ t) :
    Escapes (lineOf className t).plain (lineOf className t).annotated := by
  have h : Escapes (t ++ []) (highlight className t ++ []) := .verbatimSpan className hc ht .nil
  rwa [List.append_nil, List.append_nil] at h

theorem plainLine_escapes {t : Text} (ht : '<'.toUInt8 ∉ t) : Escapes (plainLine t).plain (plainLine t).annotated := by
  have h : Escapes (t ++ []) (t ++ []) := .verbatim ht .nil
  rwa [List.append_nil] at h

theorem lt_outsideColumns : Text.OutsideColumns '<'.toUInt8 := ⟨rfl, rfl, rfl, by decide⟩

theorem symbolRow_escapes {b : Binding} (h : b.WF) :
    Escapes (plainLine (symbolRow b)).plain (plainLine (symbolRow b)).annotated := by
  have hvalue : '<'.toUInt8 ∉ b.value.text := by
    -- a value that a name can have is written without the tags that mean nothing
    have hspace : '<'.toUInt8 ∉ Text.ofString " " := by decide
    have hnames : '<'.toUInt8 ∉ b.value.origin.name ∧ '<'.toUInt8 ∉ b.value.movability.name := by
      have horigins : '<'.toUInt8 ∉ Origin.loc.name ∧ '<'.toUInt8 ∉ Origin.ext.name := by decide
      have hmovabilities : '<'.toUInt8 ∉ Movability.fix.name ∧ '<'.toUInt8 ∉ Movability.rel.name := by decide
      rcases h.proper with (hfixed | hmoving) | hplaceholder
      · rw [hfixed]
        exact ⟨horigins.1, hmovabilities.1⟩
      · rw [hmoving]
        exact ⟨horigins.1, hmovabilities.2⟩
      · rw [hplaceholder]
        exact ⟨horigins.2, hmovabilities.1⟩
    unfold Value.text
    simp only [List.mem_append, not_or]
    exact ⟨⟨⟨⟨Word.notMem_hex rfl _, hspace⟩, hnames.1⟩, hspace⟩, hnames.2⟩
  exact plainLine_escapes (notMem_symbolRow lt_outsideColumns h hvalue)

end Listing

/-- No field of a line but the comment has a `<`. -/
structure Line.Tagless (l : Line) : Prop where
  label : '<'.toUInt8 ∉ l.label
  mnemonic : '<'.toUInt8 ∉ l.mnemonic
  operands : '<'.toUInt8 ∉ l.operands

namespace Listing

theorem notMem_gap {gap : Text} (h : ∀ b ∈ gap, Text.isBlank b = true) : '<'.toUInt8 ∉ gap :=
  fun hmem => absurd (h _ hmem) (by decide)

/-- The tags of a source line: two for each field, and what its label, mnemonic and operands add to them. -/
theorem sourceLine_tags {s : Statement} (h : s.Parsed) :
    (sourceLine s).annotated.count '<'.toUInt8 = 8 + s.parts.label.count '<'.toUInt8 +
      s.parts.mnemonic.count '<'.toUInt8 + s.parts.operands.count '<'.toUInt8 ∧
    (sourceLine s).annotated.count '>'.toUInt8 = (sourceLine s).plain.count '>'.toUInt8 + 8 := by
  have hmaximal : s.parts.Maximal := h.parts ▸ Line.split_maximal s.source
  have hmargin : (margin s).count '<'.toUInt8 = 0 := List.count_eq_zero.2 (notMem_margin lt_outsideColumns s)
  have hlabelGap : s.parts.labelGap.count '<'.toUInt8 = 0 := List.count_eq_zero.2 (notMem_gap hmaximal.labelGap)
  have hmnemonicGap : s.parts.mnemonicGap.count '<'.toUInt8 = 0 :=
    List.count_eq_zero.2 (notMem_gap hmaximal.mnemonicGap)
  have hcomment : (escapeMarkup s.parts.comment).count '<'.toUInt8 = 0 :=
    List.count_eq_zero.2 (notMem_escapeMarkup_lt _)
  have hlabel := count_highlight "FIELDLABEL" (by decide) s.parts.label
  have hmnemonic := count_highlight "FIELDOPERATION" (by decide) s.parts.mnemonic
  have hoperands := count_highlight "FIELDOPERAND" (by decide) s.parts.operands
  have hlast := count_highlight "FIELDCOMMENT" (by decide) (escapeMarkup s.parts.comment)
  have hends := count_escapeMarkup_gt s.parts.comment
  unfold sourceLine
  simp only [List.count_append, Line.text_eq]
  omega

/-- A source line is listed with no tags but its spans exactly if it has no `<` outside the comment. -/
theorem sourceLine_escapes_iff {s : Statement} (h : s.Parsed) :
    Escapes (sourceLine s).plain (sourceLine s).annotated ↔ s.parts.Tagless := by
  constructor
  · intro hescapes
    obtain ⟨n, hlt, hgt⟩ := hescapes.tags
    obtain ⟨htags, hends⟩ := sourceLine_tags h
    -- the ends of the tags say that there are four spans, so their starts are used up
    have hnone : s.parts.label.count '<'.toUInt8 = 0 ∧ s.parts.mnemonic.count '<'.toUInt8 = 0 ∧
        s.parts.operands.count '<'.toUInt8 = 0 := by omega
    exact ⟨List.count_eq_zero.1 hnone.1, List.count_eq_zero.1 hnone.2.1, List.count_eq_zero.1 hnone.2.2⟩
  · intro htagless
    have hmaximal : s.parts.Maximal := h.parts ▸ Line.split_maximal s.source
    -- from the comment at the end to the margin in front
    have hcomment := Escapes.nil.span "FIELDCOMMENT" s.parts.comment (by decide)
    have hoperands := hcomment.verbatimSpan "FIELDOPERAND" (by decide) htagless.operands
    have hmnemonic := (hoperands.verbatim (notMem_gap hmaximal.mnemonicGap)).verbatimSpan "FIELDOPERATION" (by decide)
      htagless.mnemonic
    have hlabel := (hmnemonic.verbatim (notMem_gap hmaximal.labelGap)).verbatimSpan "FIELDLABEL" (by decide)
      htagless.label
    have hline := hlabel.verbatim (notMem_margin lt_outsideColumns s)
    simpa only [sourceLine, Line.text_eq, List.append_assoc, List.append_nil] using hline

end Listing

namespace Assembly

open Listing

variable {name source : Text}

theorem assemble_parsed {s : Statement} (hs : s ∈ (assemble name source).statements) : s.Parsed := by
  obtain ⟨i, hi⟩ := List.getElem?_of_mem hs
  exact (assemble_reports hi).2.2.1

theorem mem_listing_of_statement {a : Assembly} {s : Statement} (hs : s ∈ a.statements) {l : ListingLine}
    (hl : l ∈ statementLines s) : l ∈ a.listing := by
  have hmem : l ∈ a.statements.flatMap statementLines := List.mem_flatMap.2 ⟨s, hs, hl⟩
  unfold listing
  exact List.mem_append_left _ (List.mem_append_left _ (List.mem_append_right _ (List.mem_cons_of_mem _ hmem)))

/-- A line of a listing has no tags but its spans, unless it lists a statement with a `<` outside the comment. -/
theorem escapes_iff {l : ListingLine} (hl : l ∈ (assemble name source).listing) : Escapes l.plain l.annotated ↔
    ∀ s ∈ (assemble name source).statements, l = sourceLine s → s.parts.Tagless := by
  constructor
  · rintro hescapes s hs rfl
    exact (sourceLine_escapes_iff (assemble_parsed hs)).1 hescapes
  · revert l
    have hcount : '<'.toUInt8 ∉ " " ++ Text.natural (assemble name source).errorCount ++ " errors detected" :=
      List.not_mem_append (List.not_mem_append (by decide) (Text.notMem_natural rfl _)) (by decide)
    have hheadings : ∀ t ∈ [Text.ofString "Line Addr Code Code Source", Text.ofString "Symbol table", symbolHeader],
        '<'.toUInt8 ∉ t := by decide
    refine forall_mem_listing (fun _ => lineOf_escapes (by decide) hcount)
      (fun t ht _ => lineOf_escapes (by decide) (hheadings t ht)) (fun _ => plainLine_escapes List.not_mem_nil)
      (fun s hs l hl htagless => ?_) (fun b hb _ => symbolRow_escapes (assemble_symbols_wf name source b hb))
    rcases List.mem_cons.1 hl with rfl | hl
    · exact (sourceLine_escapes_iff (assemble_parsed hs)).2 (htagless s hs rfl)
    · obtain ⟨e, -, rfl⟩ := List.mem_map.1 hl
      exact errorLine_escapes e

/-- What an annotated listing shows of the source. Its lines are the lines of the plain listing, annotated. A line has
no tags but its spans, and each `<` of its plain form as `&lt;`, exactly if it is not the line of a statement with a `<`
in its label, mnemonic or operands: messages, comments and all else are escaped, whatever they quote. So source text
cannot bring a tag into the listing exactly if no line of the source has a `<` before its comment. -/
theorem assemble_listing_escapes (name source : Text) :
    let a := assemble name source
    a.listingText.splitOn '\n'.toUInt8 = a.listing.map (·.plain) ++ [[]] ∧
    a.annotatedListing.splitOn '\n'.toUInt8 = a.listing.map (·.annotated) ++ [[]] ∧
    (∀ l ∈ a.listing, Escapes l.plain l.annotated ↔ ∀ s ∈ a.statements, l = sourceLine s → s.parts.Tagless) ∧
    ((∀ l ∈ a.listing, Escapes l.plain l.annotated) ↔
      ∀ line ∈ Text.sourceLines source, (Line.split line).Tagless) := by
  have hunbroken := assemble_listing_unbroken name source
  refine ⟨splitOn_listingText hunbroken, splitOn_annotatedListing hunbroken, fun l hl => escapes_iff hl, ?_⟩
  rw [← assemble_sources name source, List.forall_mem_map]
  constructor
  · intro hall s hs
    have hparsed := assemble_parsed hs
    rw [← hparsed.parts]
    exact (sourceLine_escapes_iff hparsed).1 (hall _ (mem_listing_of_statement hs List.mem_cons_self))
  · intro htagless l hl
    refine (escapes_iff hl).2 fun s hs _ => ?_
    rw [(assemble_parsed hs).parts]
    exact htagless s hs

set_option maxRecDepth 4000 in
/-- An operand that is a tag: the line that reports it is escaped, and the line that has it is not. -/
theorem assemble_listing_escapes_report : ∃ s ∈ (assemble "m" " data <b>").statements, ∃ e ∈ s.errors,
    (errorLine e).plain = "Error: 01:07: Expression '<b>' has invalid syntax" ∧
    errorLine e ∈ (assemble "m" " data <b>").listing ∧ Escapes (errorLine e).plain (errorLine e).annotated ∧
    sourceLine s ∈ (assemble "m" " data <b>").listing ∧
    ¬ Escapes (sourceLine s).plain (sourceLine s).annotated := by
  obtain ⟨-, -, hlines, -⟩ := assemble_listing_escapes "m" " data <b>"
  have hreported : (assemble "m" " data <b>").statements.any (fun s => s.parts.operands.contains '<'.toUInt8 &&
      s.errors.any fun e => errorText e == "Error: 01:07: Expression '<b>' has invalid syntax") = true := by
    decide +kernel
  obtain ⟨s, hs, hreported⟩ := List.any_eq_true.1 hreported
  simp only [Bool.and_eq_true, List.contains_iff_mem, List.any_eq_true, beq_iff_eq] at hreported
  obtain ⟨htag, e, he, htext⟩ := hreported
  have hsource := mem_listing_of_statement hs (l := sourceLine s) List.mem_cons_self
  have hreport := mem_listing_of_statement hs (List.mem_cons_of_mem _ (List.mem_map_of_mem he))
  refine ⟨s, hs, e, he, htext, hreport, (hlines _ hreport).2 fun t _ hline => ?_, hsource, fun hescapes => ?_⟩
  · have hplain := isErrorLine_sourceLine t
    rw [← hline, show (errorLine e).plain = errorText e from rfl, isErrorLine_errorText] at hplain
    cases hplain
  · exact ((hlines _ hsource).1 hescapes s hs rfl).operands htag

set_option maxRecDepth 4000 in
/-- A run without errors whose annotated listing has a tag of the source. -/
theorem assemble_listing_tag_injected :
    (assemble "m" "x module a<b").errorCount = 0 ∧ ∃ l ∈ (assemble "m" "x module a<b").listing,
      l.annotated = "   1 0000            " ++ Text.ofString "<span class='FIELDLABEL'>x</span> " ++
        "<span class='FIELDOPERATION'>module</span> " ++ "<span class='FIELDOPERAND'>a<b</span>" ++
        "<span class='FIELDCOMMENT'></span>" ∧
      ¬ Escapes l.plain l.annotated := by
  have hline : (assemble "m" "x module a<b").statements.any (fun s => s.parts.operands.contains '<'.toUInt8 &&
      (sourceLine s).annotated == "   1 0000            " ++ Text.ofString "<span class='FIELDLABEL'>x</span> " ++
        "<span class='FIELDOPERATION'>module</span> " ++ "<span class='FIELDOPERAND'>a<b</span>" ++
        "<span class='FIELDCOMMENT'></span>") = true := by decide +kernel
  obtain ⟨s, hs, hline⟩ := List.any_eq_true.1 hline
  simp only [Bool.and_eq_true, List.contains_iff_mem, beq_iff_eq] at hline
  refine ⟨by decide +kernel, sourceLine s, mem_listing_of_statement hs List.mem_cons_self, hline.2, fun hescapes => ?_⟩
  exact ((sourceLine_escapes_iff (assemble_parsed hs)).1 hescapes).operands hline.1

end Assembly

end Sigma16
