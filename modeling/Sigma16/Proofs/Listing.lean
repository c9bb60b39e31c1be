/-
Listings line by line. A message breaks its line only where it goes on with a tab, and these breaks are taken
out when it is listed; all else that a listing shows are digits, names and parts of source lines. So no line of
a listing has a newline, in neither of its forms, and the lines can be read back from its text.
-/
import Sigma16.Listing
import Sigma16.Proofs.Diagnosis

namespace Sigma16

/-! ## Numbers -/

namespace Text

/-- A byte that is in no number and in no name, and no sign that stands in a listing between them. -/
structure OutsideColumns (b : UInt8) : Prop where
  digit : isDigit b = false
  hexDigit : isHexDigit b = false
  nameByte : isNameByte b = false
  sign : b ∉ Text.ofString " -.,"

theorem newline_outsideColumns : OutsideColumns '\n'.toUInt8 := ⟨rfl, rfl, rfl, by decide⟩

theorem OutsideColumns.ne {b c : UInt8} (hb : OutsideColumns b) (hc : c ∈ Text.ofString " -.,") : b ≠ c :=
  fun h => hb.sign (h ▸ hc)

theorem OutsideColumns.notMem {b : UInt8} (hb : OutsideColumns b) {t : Text}
    (ht : t.all (Text.ofString " -.,").contains = true) : b ∉ t :=
  fun h => hb.sign (List.contains_iff_mem.1 (List.all_eq_true.1 ht b h))

/-- A digit is the same number as a character and as a byte. -/
theorem toNat_toUInt8_of_isDigit {c : Char} (h : c.isDigit = true) :
    c.toUInt8.toNat = c.toNat ∧ 48 ≤ c.toNat ∧ c.toNat ≤ 57 := by
  simp only [Char.isDigit, Bool.and_eq_true, decide_eq_true_eq, ge_iff_le, UInt32.le_iff_toNat_le] at h
  obtain ⟨hlow, hhigh⟩ := h
  have hlow : 48 ≤ c.toNat := hlow
  have hhigh : c.toNat ≤ 57 := hhigh
  refine ⟨?_, hlow, hhigh⟩
  show c.toNat % 256 = c.toNat
  omega

theorem isDigit_of_mem_natural {n : Nat} {b : UInt8} (h : b ∈ natural n) : isDigit b = true := by
  obtain ⟨c, hc, rfl⟩ := List.mem_map.1 h
  obtain ⟨hbyte, hlow, hhigh⟩ := toNat_toUInt8_of_isDigit (Nat.isDigit_of_mem_toDigits (by decide) (by decide) hc)
  simp only [isDigit, Bool.and_eq_true, decide_eq_true_eq, UInt8.le_iff_toNat_le]
  rw [hbyte]
  exact ⟨hlow, hhigh⟩

theorem notMem_natural {b : UInt8} (hb : isDigit b = false) (n : Nat) : b ∉ natural n := by
  intro h
  rw [isDigit_of_mem_natural h] at hb
  cases hb

theorem notMem_decimal {b : UInt8} (hb : isDigit b = false) (hminus : b ≠ '-'.toUInt8) (n : Int) : b ∉ decimal n := by
  unfold decimal
  split
  · exact List.not_mem_append (fun h => hminus (List.mem_singleton.1 h)) (notMem_natural hb _)
  · exact notMem_natural hb _

theorem notMem_decimals {b : UInt8} (hb : OutsideColumns b) (ns : List Int) : b ∉ decimals ns := by
  intro h
  rcases mem_join h with h | ⟨part, hpart, h⟩
  · exact hb.notMem (by decide) h
  · obtain ⟨n, -, rfl⟩ := List.mem_map.1 hpart
    exact notMem_decimal hb.digit (hb.ne (by decide)) n h

theorem notMem_padLeft {b : UInt8} {fill : Char} (hb : b ≠ fill.toUInt8) (n : Nat) {t : Text} (ht : b ∉ t) :
    b ∉ padLeft fill n t :=
  List.not_mem_append (fun h => hb (List.eq_of_mem_replicate h)) ht

theorem notMem_padRight {b : UInt8} (hb : b ≠ ' '.toUInt8) (n : Nat) {t : Text} (ht : b ∉ t) : b ∉ padRight n t :=
  List.not_mem_append ht (fun h => hb (List.eq_of_mem_replicate h))

theorem notMem_twoPlaces (n : Int) : '\n'.toUInt8 ∉ twoPlaces n := by
  unfold twoPlaces
  split
  · exact notMem_decimal rfl (by decide) n
  · exact notMem_padLeft (by decide) 2 (notMem_decimal rfl (by decide) n)

end Text

theorem Value.notMem_text (v : Value) : '\n'.toUInt8 ∉ v.text := by
  have horigin : '\n'.toUInt8 ∉ v.origin.name := by cases v.origin <;> decide
  have hmovability : '\n'.toUInt8 ∉ v.movability.name := by cases v.movability <;> decide
  have hspace : '\n'.toUInt8 ∉ Text.ofString " " := by decide
  unfold Value.text
  simp only [List.mem_append, not_or]
  exact ⟨⟨⟨⟨Word.notMem_hex rfl v.word, hspace⟩, horigin⟩, hspace⟩, hmovability⟩

theorem Binding.WF.notMem_fullName {b : Binding} (h : b.WF) {c : UInt8} (hc : Text.isNameByte c = false)
    (hdot : c ≠ '.'.toUInt8) : c ∉ b.fullName := by
  unfold fullName
  split
  · rename_i himported
    have hmodule := Text.isName_notMem (h.foreign himported).1 hc
    exact List.not_mem_append (List.not_mem_append hmodule fun hmem => hdot (List.mem_singleton.1 hmem))
      (Text.isName_notMem h.name hc)
  · exact Text.isName_notMem h.name hc

/-! ## Messages on one line -/

namespace Listing

/-- A message whose newlines all go when it is put on one line. -/
def Folds (t : Text) : Prop := '\n'.toUInt8 ∉ oneLine t

instance (t : Text) : Decidable (Folds t) := inferInstanceAs (Decidable (_ ∉ _))

theorem oneLine_append {x : Text} (hx : Folds x) (y : Text) : oneLine (x ++ y) = oneLine x ++ oneLine y := by
  unfold Folds at hx
  fun_induction oneLine x with
  | case1 => rfl
  | case2 s ih =>
    have hs : '\n'.toUInt8 ∉ oneLine s := fun h => hx (List.mem_cons_of_mem _ h)
    show ' '.toUInt8 :: oneLine (s ++ y) = _
    rw [ih hs, List.cons_append]
  | case3 b s hpair ih =>
    -- a newline that is left over at the end of the text would be in the result
    have hb : b ≠ 0x0A := by
      rintro rfl
      exact hx List.mem_cons_self
    have hs : '\n'.toUInt8 ∉ oneLine s := fun h => hx (List.mem_cons_of_mem _ h)
    rw [List.cons_append, oneLine.eq_3 _ _ fun s' h => absurd h hb, ih hs, List.cons_append]

theorem oneLine_eq_self {t : Text} (h : '\n'.toUInt8 ∉ t) : oneLine t = t := by
  fun_induction oneLine t with
  | case1 => rfl
  | case2 s ih => exact absurd List.mem_cons_self h
  | case3 b s hpair ih => rw [ih fun hs => h (List.mem_cons_of_mem _ hs)]

theorem Folds.of_notMem {t : Text} (h : '\n'.toUInt8 ∉ t) : Folds t := by
  unfold Folds
  rw [oneLine_eq_self h]
  exact h

theorem Folds.append {x y : Text} (hx : Folds x) (hy : Folds y) : Folds (x ++ y) := by
  unfold Folds
  rw [oneLine_append hx]
  exact List.not_mem_append hx hy

/-- A text that is quoted between two others. -/
theorem Folds.quote {x text y : Text} (hx : Folds x) (ht : '\n'.toUInt8 ∉ text) (hy : Folds y) :
    Folds (x ++ text ++ y) := (hx.append (.of_notMem ht)).append hy

theorem Folds.wantHave {wanted found : Text} (hw : '\n'.toUInt8 ∉ wanted) (hf : '\n'.toUInt8 ∉ found) :
    Folds (Cause.wantHave wanted found) :=
  .append (.quote (by decide +kernel) hw (by decide +kernel)) (.of_notMem hf)

/-- What a cause that quotes no newline says can be put on one line. -/
theorem folds_message {cause : Cause} (h : cause.Plain) : Folds cause.message := by
  have hdecimal : ∀ n, '\n'.toUInt8 ∉ Text.decimal n := Text.notMem_decimal rfl (by decide)
  have hnatural : ∀ n, '\n'.toUInt8 ∉ Text.natural n := Text.notMem_natural rfl
  cases cause with
  | invalidCharacters columns =>
    exact .append (by decide +kernel) (.of_notMem (Text.notMem_decimals Text.newline_outsideColumns columns))
  | characterNote note => exact .of_notMem h
  | invalidLabel text | missingLabel text | unknownOperation text | invalidExpression text | invalidLiteral text
  | undefinedSymbol text | unknownControlRegister text | undefinedExport text =>
    exact .quote (by decide +kernel) h (by decide +kernel)
  | invalidOperand required received => exact .append (by decide +kernel) (.wantHave h.1 h.2)
  | operandCount required received => exact .append (by decide +kernel) (.wantHave (hdecimal _) (hdecimal _))
  | redeclaredSymbol text line =>
    exact .append (.quote (by decide +kernel) h (by decide +kernel)) (.of_notMem (hdecimal line))
  | arithmetic fault => cases fault <;> decide +kernel
  | movingBlock value => exact .append (by decide +kernel) (.of_notMem value.notMem_text)
  | movingField field value =>
    exact .append (.quote (by decide +kernel) h (by decide +kernel)) (.of_notMem value.notMem_text)
  | oversizedField field limit value =>
    exact .append (.quote (by decide +kernel) h (by decide +kernel)) (.wantHave (hnatural _) (hnatural _))
  | unhandledFormat format operands pseudo =>
    have hformat : '\n'.toUInt8 ∉ format.name := by cases format <;> decide +kernel
    have hoperands : '\n'.toUInt8 ∉ operands.name := by cases operands <;> decide +kernel
    have hpseudo : '\n'.toUInt8 ∉ Text.ofString (if pseudo then "true" else "false") := by
      cases pseudo <;> decide +kernel
    exact .quote (.quote (.quote (by decide +kernel) hformat (by decide +kernel)) hoperands (by decide +kernel)) hpseudo
      (by decide +kernel)
  | internal text => exact .append (by decide +kernel) (.of_notMem h)

theorem notMem_errorText {e : Diagnostic} (h : e.cause.Plain) : '\n'.toUInt8 ∉ errorText e := by
  have hplaces : ∀ n, Folds (Text.twoPlaces n) := fun n => .of_notMem (Text.notMem_twoPlaces n)
  have hmessage : Folds e.message :=
    .append (.append (.append (.append (hplaces _) (by decide)) (hplaces _)) (by decide)) (folds_message h)
  exact List.not_mem_append (by decide) hmessage

/-! ## Lines of a listing -/

theorem notMem_highlight {className : String} (hc : '\n'.toUInt8 ∉ Text.ofString className) {t : Text}
    (h : '\n'.toUInt8 ∉ t) : '\n'.toUInt8 ∉ highlight className t := by
  have hfixed : '\n'.toUInt8 ∉ Text.ofString "<span class='" ∧ '\n'.toUInt8 ∉ Text.ofString "'>" ∧
      '\n'.toUInt8 ∉ Text.ofString "</span>" := by decide
  unfold highlight
  simp only [List.mem_append, not_or]
  exact ⟨⟨⟨⟨hfixed.1, hc⟩, hfixed.2.1⟩, h⟩, hfixed.2.2⟩

theorem notMem_escapeMarkup {t : Text} (h : '\n'.toUInt8 ∉ t) : '\n'.toUInt8 ∉ escapeMarkup t := by
  intro hmem
  obtain ⟨b, hb, hin⟩ := List.mem_flatMap.1 hmem
  split at hin
  · exact absurd hin (by decide)
  · rw [List.mem_singleton.1 hin] at h
    exact h hb

/-- A line of a listing that has no newline in either form. -/
structure Unbroken (l : ListingLine) : Prop where
  plain : '\n'.toUInt8 ∉ l.plain
  annotated : '\n'.toUInt8 ∉ l.annotated

theorem lineOf_unbroken {className : String} (hc : '\n'.toUInt8 ∉ Text.ofString className) {t : Text}
    (h : '\n'.toUInt8 ∉ t) : Unbroken (lineOf className t) :=
  ⟨h, notMem_highlight hc h⟩

theorem plainLine_unbroken {t : Text} (h : '\n'.toUInt8 ∉ t) : Unbroken (plainLine t) := ⟨h, h⟩

theorem errorLine_unbroken {e : Diagnostic} (h : e.cause.Plain) : Unbroken (errorLine e) :=
  ⟨notMem_errorText h, notMem_highlight (by decide) (notMem_escapeMarkup (notMem_errorText h))⟩

theorem notMem_margin {b : UInt8} (hb : Text.OutsideColumns b) (s : Statement) : b ∉ margin s := by
  have hcolumn : ∀ n, b ∉ codeColumn s n := by
    intro n
    unfold codeColumn
    split
    · exact Word.notMem_hex hb.hexDigit _
    · exact hb.notMem (by decide)
  have hnumber : b ∉ Text.padLeft ' ' 4 (Text.decimal s.line) :=
    Text.notMem_padLeft (hb.ne (by decide)) 4 (Text.notMem_decimal hb.digit (hb.ne (by decide)) s.line)
  have hdot : b ∉ Text.ofString (if s.address.isRelocatable then " " else ".") := by
    split <;> exact hb.notMem (by decide)
  have hspace : b ∉ Text.ofString " " := hb.notMem (by decide)
  unfold margin
  simp only [List.mem_append, not_or]
  exact ⟨⟨⟨⟨⟨⟨⟨⟨hnumber, hspace⟩, Word.notMem_hex hb.hexDigit _⟩, hdot⟩, hspace⟩, hcolumn 0⟩, hspace⟩, hcolumn 1⟩,
    hspace⟩

theorem sourceLine_unbroken {s : Statement} (h : s.Parsed) : Unbroken (sourceLine s) := by
  obtain ⟨hlabel, hlabelGap, hmnemonic, hmnemonicGap, hoperands, hcomment⟩ := Line.notMem_text.1 h.notMem_text
  have hmargin : '\n'.toUInt8 ∉ margin s := notMem_margin Text.newline_outsideColumns s
  refine ⟨List.not_mem_append hmargin h.notMem_text, ?_⟩
  unfold sourceLine
  simp only [List.mem_append, not_or]
  exact ⟨⟨⟨⟨⟨⟨hmargin, notMem_highlight (by decide) hlabel⟩, hlabelGap⟩,
    notMem_highlight (by decide) hmnemonic⟩, hmnemonicGap⟩, notMem_highlight (by decide) hoperands⟩,
    notMem_highlight (by decide) (notMem_escapeMarkup hcomment)⟩

theorem statementLines_unbroken {s : Statement} (h : s.Parsed) (he : s.Reports s.errors) :
    ∀ l ∈ statementLines s, Unbroken l := by
  intro l hl
  rcases List.mem_cons.1 hl with rfl | hl
  · exact sourceLine_unbroken h
  · obtain ⟨e, hmem, rfl⟩ := List.mem_map.1 hl
    exact errorLine_unbroken (he e hmem).2

theorem notMem_symbolRow {b : UInt8} (hb : Text.OutsideColumns b) {binding : Binding} (h : binding.WF)
    (hvalue : b ∉ binding.value.text) : b ∉ symbolRow binding := by
  have hname : b ∉ binding.fullName := h.notMem_fullName hb.nameByte (hb.ne (by decide))
  have hline : b ∉ Text.padLeft ' ' 5 (Text.decimal binding.line) :=
    Text.notMem_padLeft (hb.ne (by decide)) 5 (Text.notMem_decimal hb.digit (hb.ne (by decide)) binding.line)
  have hspaces : b ∉ Text.ofString "  " := hb.notMem (by decide)
  unfold symbolRow
  simp only [List.mem_append, not_or]
  exact ⟨⟨⟨⟨Text.notMem_padRight (hb.ne (by decide)) 11 hname, hvalue⟩, hline⟩, hspaces⟩,
    Text.notMem_decimals hb binding.uses⟩

end Listing

/-! ## The listing of a module -/

namespace Assembly

open Listing

/-- What holds of every line that a listing can have holds of all its lines. -/
theorem forall_mem_listing {a : Assembly} {P : ListingLine → Prop}
    (hcount : P (lineOf "ERR" (" " ++ Text.natural a.errorCount ++ " errors detected")))
    (hheadings : ∀ t ∈ [Text.ofString "Line Addr Code Code Source", Text.ofString "Symbol table", symbolHeader],
      P (lineOf "ListingHeader" t)) (hblank : P (plainLine []))
    (hstatements : ∀ s ∈ a.statements, ∀ l ∈ statementLines s, P l)
    (hsymbols : ∀ b ∈ a.symbols.bindings, P (plainLine (symbolRow b))) : ∀ l ∈ a.listing, P l := by
  simp only [List.forall_mem_cons] at hheadings
  unfold listing
  simp only [List.forall_mem_append, List.forall_mem_cons, List.forall_mem_map]
  refine ⟨⟨⟨?_, hheadings.1, fun l hl => ?_⟩, hblank, hheadings.2.1, hheadings.2.2.1, List.forall_mem_nil _⟩,
    fun b hb => hsymbols b (List.mem_mergeSort.1 hb)⟩
  · split
    · exact List.forall_mem_nil _
    · exact List.forall_mem_singleton.2 hcount
  · obtain ⟨s, hs, hl⟩ := List.mem_flatMap.1 hl
    exact hstatements s hs l hl

/-- No line of a listing has a newline, in neither of its forms. -/
theorem assemble_listing_unbroken (name source : Text) : ∀ l ∈ (assemble name source).listing, Unbroken l := by
  have hcount : '\n'.toUInt8 ∉ " " ++ Text.natural (assemble name source).errorCount ++ " errors detected" :=
    List.not_mem_append (List.not_mem_append (by decide) (Text.notMem_natural rfl _)) (by decide)
  have hheadings : ∀ t ∈ [Text.ofString "Line Addr Code Code Source", Text.ofString "Symbol table", symbolHeader],
      '\n'.toUInt8 ∉ t := by decide
  refine forall_mem_listing (lineOf_unbroken (by decide) hcount)
    (fun t ht => lineOf_unbroken (by decide) (hheadings t ht)) (plainLine_unbroken List.not_mem_nil)
    (fun s hs => ?_) (fun b hb => ?_)
  · obtain ⟨i, hi⟩ := List.getElem?_of_mem hs
    obtain ⟨-, -, hparsed, hreports⟩ := assemble_reports hi
    exact statementLines_unbroken hparsed hreports
  · have hwf := assemble_symbols_wf name source b hb
    exact plainLine_unbroken (notMem_symbolRow Text.newline_outsideColumns hwf b.value.notMem_text)

end Assembly

end Sigma16
