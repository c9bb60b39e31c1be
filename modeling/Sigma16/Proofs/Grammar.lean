/-
The language of expressions: a term is a name, a numeral or a word in hexadecimal, and an expression is a term or the
sum of two. A text has at most one reading as an expression. Evaluation accepts exactly the texts that have one, and
does with every text what the rules of its meaning say: which value it counts for, what is wrong with it, and which
names it uses. Nothing else of a session changes. A displacement before a register may be any expression whose second
term is not negative.
-/
import Sigma16.Proofs.Decoding
import Sigma16.Proofs.Line
import Sigma16.Proofs.Literal
import Sigma16.Session

namespace Sigma16

open Outcome

/-! ## Terms -/

namespace Text

theorem isLetter_of_isDigit : ∀ b : UInt8, isDigit b = true → isLetter b = false := forall_byte (by decide +kernel)

theorem isNameByte_of_isHexDigit : ∀ b : UInt8, isHexDigit b = true → isNameByte b = true :=
  forall_byte (by decide +kernel)

theorem isNameByte_of_isDigit {b : UInt8} (h : isDigit b = true) : isNameByte b = true := by
  simp [isNameByte, h]

theorem isName_cons {b : UInt8} {s : Text} : isName (b :: s) = true ↔
    isLetter b = true ∧ ∀ c ∈ s, isNameByte c = true := by
  simp [isName]

end Text

namespace Term

/-- How terms are written. -/
inductive Spelt : Term → Text → Prop where
  | name {b : UInt8} {s : Text} : Text.isLetter b = true → (∀ c ∈ s, Text.isNameByte c = true) →
      Spelt (.name (b :: s)) (b :: s)
  | decimal {digits : Text} : digits ≠ [] → (∀ b ∈ digits, Text.isDigit b = true) → Spelt (.decimal digits) digits
  | negative {digits : Text} : digits ≠ [] → (∀ b ∈ digits, Text.isDigit b = true) →
      Spelt (.decimal ('-'.toUInt8 :: digits)) ('-'.toUInt8 :: digits)
  | hex {digits : Text} : digits.length = 4 → (∀ b ∈ digits, Text.isHexDigit b = true) →
      Spelt (.hex ('$'.toUInt8 :: digits)) ('$'.toUInt8 :: digits)

/-- A minus sign, a dollar sign or a byte of a name, and then bytes of names only. -/
theorem Spelt.bytes {k : Term} {t : Text} (h : k.Spelt t) : ∃ b s, t = b :: s ∧
    (b = '-'.toUInt8 ∧ s ≠ [] ∨ b = '$'.toUInt8 ∨ Text.isNameByte b = true) ∧ ∀ c ∈ s, Text.isNameByte c = true := by
  cases h with
  | @name b s hb hs => exact ⟨b, s, rfl, .inr (.inr (by simp [Text.isNameByte, hb])), hs⟩
  | decimal hne hdigits =>
    obtain ⟨b, s, rfl⟩ := List.exists_cons_of_ne_nil hne
    refine ⟨b, s, rfl, .inr (.inr ?_), fun c hc => ?_⟩
    · exact Text.isNameByte_of_isDigit (hdigits b List.mem_cons_self)
    · exact Text.isNameByte_of_isDigit (hdigits c (List.mem_cons_of_mem _ hc))
  | negative hne hdigits => exact ⟨_, _, rfl, .inl ⟨rfl, hne⟩, fun c hc => Text.isNameByte_of_isDigit (hdigits c hc)⟩
  | hex _ hdigits =>
    exact ⟨_, _, rfl, .inr (.inl rfl), fun c hc => Text.isNameByte_of_isHexDigit c (hdigits c hc)⟩

theorem Spelt.notMem {k : Term} {t : Text} (h : k.Spelt t) {x : UInt8} (hx : Text.isNameByte x = false)
    (hminus : x ≠ '-'.toUInt8) (hdollar : x ≠ '$'.toUInt8) : x ∉ t := by
  obtain ⟨b, s, rfl, hb, hs⟩ := h.bytes
  intro hmem
  rcases List.mem_cons.1 hmem with rfl | hmem
  · rcases hb with ⟨hb, -⟩ | hb | hb
    · exact hminus hb
    · exact hdollar hb
    · rw [hx] at hb
      cases hb
  · rw [hs x hmem] at hx
    cases hx

theorem Spelt.plus_notMem {k : Term} {t : Text} (h : k.Spelt t) : '+'.toUInt8 ∉ t :=
  h.notMem (by decide) (by decide) (by decide)

theorem Spelt.ofText {k : Term} {t : Text} (h : k.Spelt t) : Text.isTerm t = true ∧ Term.ofText t = k := by
  unfold Text.isTerm Term.ofText
  cases h with
  | name hb hs => simp [Text.isName_cons.2 ⟨hb, hs⟩]
  | @decimal digits hne hdigits =>
    obtain ⟨b, s, rfl⟩ := List.exists_cons_of_ne_nil hne
    have hb := hdigits b List.mem_cons_self
    have hname : Text.isName (b :: s) = false := by simp [Text.isName, Text.isLetter_of_isDigit b hb]
    have hminus : b ≠ '-'.toUInt8 := by
      rintro rfl
      cases hb
    have hdecimal : Text.isDecimal (b :: s) = true := by simpa [Text.isDecimal, hminus] using hdigits
    simp [hname, hdecimal]
  | @negative digits hne hdigits =>
    have hname : Text.isName ('-'.toUInt8 :: digits) = false := by
      have hletter : Text.isLetter '-'.toUInt8 = false := by decide
      simp [Text.isName, hletter]
    have hdecimal : Text.isDecimal ('-'.toUInt8 :: digits) = true := by simpa [Text.isDecimal, hne] using hdigits
    simp [hname, hdecimal]
  | @hex digits hlength hdigits =>
    have hletter : Text.isLetter '$'.toUInt8 = false := by decide
    have hdigit : Text.isDigit '$'.toUInt8 = false := by decide
    have hminus : ¬ '$'.toUInt8 = '-'.toUInt8 := by decide
    have hname : Text.isName ('$'.toUInt8 :: digits) = false := by simp [Text.isName, hletter]
    have hdecimal : Text.isDecimal ('$'.toUInt8 :: digits) = false := by simp [Text.isDecimal, hminus, hdigit]
    have hhex : Text.isHexWord ('$'.toUInt8 :: digits) = true := by simpa [Text.isHexWord, hlength] using hdigits
    simp [hname, hdecimal, hhex]

theorem Spelt.isDecimal {text t : Text} (h : (Term.decimal text).Spelt t) : Text.isDecimal text = true := by
  obtain ⟨-, hform⟩ := h.ofText
  unfold Term.ofText at hform
  split at hform
  · cases hform
  · split at hform
    · cases hform
      assumption
    · cases hform

theorem spelt_ofText {t : Text} (h : Text.isTerm t = true) : (Term.ofText t).Spelt t := by
  unfold Term.ofText
  by_cases hname : Text.isName t = true
  · rw [if_pos hname]
    cases t with
    | nil => cases hname
    | cons b s =>
      obtain ⟨hb, hs⟩ := Text.isName_cons.1 hname
      exact .name hb hs
  · rw [if_neg hname]
    by_cases hdecimal : Text.isDecimal t = true
    · rw [if_pos hdecimal]
      cases t with
      | nil => cases hdecimal
      | cons b s =>
        by_cases hminus : b = '-'.toUInt8
        · subst hminus
          simp only [Text.isDecimal, List.head?_cons, beq_self_eq_true, if_true, List.tail_cons, Bool.and_eq_true,
            Bool.not_eq_true', List.isEmpty_eq_false_iff, List.all_eq_true] at hdecimal
          exact .negative hdecimal.1 hdecimal.2
        · have hbody : (b :: s).all Text.isDigit = true := by simpa [Text.isDecimal, hminus] using hdecimal
          exact .decimal (List.cons_ne_nil b s) (List.all_eq_true.1 hbody)
    · rw [if_neg hdecimal]
      have hhex : Text.isHexWord t = true := by simpa [Text.isTerm, hname, hdecimal] using h
      cases t with
      | nil => cases hhex
      | cons b s =>
        simp only [Text.isHexWord, List.head?_cons, Option.some_beq_some, List.tail_cons, Bool.and_eq_true, beq_iff_eq,
          List.all_eq_true] at hhex
        obtain ⟨⟨rfl, hlength⟩, hdigits⟩ := hhex
        exact .hex hlength hdigits

/-- Terms are recognised by their form, and each is written in one way only. -/
theorem spelt_iff {k : Term} {t : Text} : k.Spelt t ↔ Text.isTerm t = true ∧ Term.ofText t = k := by
  constructor
  · exact Spelt.ofText
  · rintro ⟨hterm, rfl⟩
    exact spelt_ofText hterm

end Term

/-! ## Expressions -/

namespace Expression

/-- How expressions are written. -/
inductive Spelt : Expression → Text → Prop where
  | term {k : Term} {t : Text} : k.Spelt t → Spelt (.term t) t
  | sum {x y : Term} {left right : Text} : x.Spelt left → y.Spelt right →
      Spelt (.sum left right) (left ++ '+'.toUInt8 :: right)

theorem Spelt.ofText? {e : Expression} {t : Text} (h : e.Spelt t) : Expression.ofText? t = some e := by
  unfold Expression.ofText?
  cases h with
  | term hk => rw [if_pos hk.ofText.1]
  | @sum x y left right hx hy =>
    -- no term has a plus sign, so the sum is none, and is cut between its terms
    have hterm : ¬ Text.isTerm (left ++ '+'.toUInt8 :: right) = true := fun hterm =>
      (Term.spelt_ofText hterm).plus_notMem (List.mem_append_right _ List.mem_cons_self)
    rw [if_neg hterm, Text.cut?_append hx.plus_notMem]
    simp [hx.ofText.1, hy.ofText.1]

theorem spelt_of_ofText? {e : Expression} {t : Text} (h : Expression.ofText? t = some e) : e.Spelt t := by
  unfold Expression.ofText? at h
  split at h
  · rename_i hterm
    cases h
    exact .term (Term.spelt_ofText hterm)
  · split at h
    · rename_i left right hcut
      split at h
      · rename_i hterms
        cases h
        rw [Bool.and_eq_true] at hterms
        rw [Text.cut?_eq_some hcut]
        exact .sum (Term.spelt_ofText hterms.1) (Term.spelt_ofText hterms.2)
      · cases h
    · cases h

theorem spelt_iff {e : Expression} {t : Text} : e.Spelt t ↔ Expression.ofText? t = some e :=
  ⟨Spelt.ofText?, spelt_of_ofText?⟩

/-- A text is split into terms in one way only. -/
theorem Spelt.unique {e e' : Expression} {t : Text} (h : e.Spelt t) (h' : e'.Spelt t) : e = e' :=
  Option.some.inj (h.ofText?.symm.trans h'.ofText?)

end Expression

/-! ## Their meaning -/

namespace SymbolTable

/-- What a term means under the bindings of a table: the value that it counts for, the mistakes in it, and the bound
names that it uses. -/
inductive TermMeans (symbols : SymbolTable) : Term → Value → List Cause → List Text → Prop where
  | bound {name : Text} {b : Binding} : symbols.lookup name = some b →
      TermMeans symbols (.name name) b.value [] [name]
  | unbound {name : Text} : symbols.lookup name = none →
      TermMeans symbols (.name name) (.const 0) [.undefinedSymbol name] []
  | inRange {text : Text} {n : Int} : Text.decimal? text = some n → -32768 ≤ n → n ≤ 65535 →
      TermMeans symbols (.decimal text) (.const (.ofInt n)) [] []
  | outOfRange {text : Text} {n : Int} : Text.decimal? text = some n → n < -32768 ∨ 65535 < n →
      TermMeans symbols (.decimal text) (.const 0) [.invalidLiteral text] []
  | hex {digits : Text} :
      TermMeans symbols (.hex ('$'.toUInt8 :: digits)) (.const (.ofNat (Text.hexNumber digits))) [] []

/-- What a text means where an expression is expected. A wrong term counts as zero, and so do a sum that does not exist
and a text that is no expression. -/
inductive Means (symbols : SymbolTable) : Text → Value → List Cause → List Text → Prop where
  | term {k : Term} {t : Text} {v : Value} {causes : List Cause} {uses : List Text} : k.Spelt t →
      symbols.TermMeans k v causes uses → Means symbols t v causes uses
  | sum {x y : Term} {left right : Text} {v w z : Value} {causes causes' : List Cause} {uses uses' : List Text} :
      x.Spelt left → y.Spelt right → symbols.TermMeans x v causes uses → symbols.TermMeans y w causes' uses' →
      v.add w = .ok z → Means symbols (left ++ '+'.toUInt8 :: right) z (causes ++ causes') (uses ++ uses')
  | noSum {x y : Term} {left right : Text} {v w : Value} {fault : ArithmeticFault} {causes causes' : List Cause}
      {uses uses' : List Text} : x.Spelt left → y.Spelt right → symbols.TermMeans x v causes uses →
      symbols.TermMeans y w causes' uses' → v.add w = .error fault →
      Means symbols (left ++ '+'.toUInt8 :: right) (.const 0) (causes ++ causes' ++ [.arithmetic fault]) (uses ++ uses')
  | noExpression {t : Text} : (∀ e : Expression, ¬ e.Spelt t) → Means symbols t (.const 0) [.invalidExpression t] []

section Means

variable {symbols : SymbolTable} {t : Text} {v : Value} {causes : List Cause} {uses : List Text}

theorem exists_termMeans (symbols : SymbolTable) {k : Term} (hk : k.Spelt t) :
    ∃ v causes uses, symbols.TermMeans k v causes uses := by
  have decimal {text : Text} (h : Text.isDecimal text = true) :
      ∃ v causes uses, symbols.TermMeans (.decimal text) v causes uses := by
    obtain ⟨n, hn⟩ := Text.isDecimal_iff.1 h
    by_cases hrange : -32768 ≤ n ∧ n ≤ 65535
    · exact ⟨_, _, _, .inRange hn hrange.1 hrange.2⟩
    · exact ⟨_, _, _, .outOfRange hn (by omega)⟩
  cases hk with
  | @name b s _ _ =>
    cases hb : symbols.lookup (b :: s) with
    | none => exact ⟨_, _, _, .unbound hb⟩
    | some _ => exact ⟨_, _, _, .bound hb⟩
  | decimal hne hdigits => exact decimal (Term.Spelt.decimal hne hdigits).isDecimal
  | negative hne hdigits => exact decimal (Term.Spelt.negative hne hdigits).isDecimal
  | hex _ _ => exact ⟨_, _, _, .hex⟩

/-- A term is evaluated to what it means, with its mistakes reported where it stands. -/
theorem TermMeans.evaluateTerm {k : Term} (hk : k.Spelt t) (h : symbols.TermMeans k v causes uses) (s : Statement) :
    evaluateTerm symbols s t = ⟨v, { errors := causes.map fun cause => ⟨s.textCursor t, cause⟩, uses }⟩ := by
  obtain ⟨-, hform⟩ := hk.ofText
  unfold Sigma16.evaluateTerm
  rw [hform]
  cases h with
  | bound hb =>
    simp only [hb]
    rfl
  | unbound hb =>
    cases hk
    simp only [hb]
    rfl
  | inRange hn hlow hhigh =>
    simp only [Literal.decimal_word hn, Word.ofInt?, hlow, hhigh, and_self, if_true]
    rfl
  | @outOfRange text n hn hout =>
    have hnone : Word.ofInt? n = none := by
      unfold Word.ofInt?
      rw [if_neg (by omega)]
    cases hk <;> simp only [Literal.decimal_word hn, hnone] <;> rfl
  | hex =>
    cases hk with
    | hex hlength hdigits =>
      simp only [Literal.hex_eq rfl hlength hdigits]
      rfl

theorem exists_means (symbols : SymbolTable) (t : Text) : ∃ v causes uses, symbols.Means t v causes uses := by
  by_cases h : ∃ e : Expression, e.Spelt t
  · obtain ⟨e, he⟩ := h
    cases he with
    | term hk =>
      obtain ⟨v, causes, uses, hmeans⟩ := exists_termMeans symbols hk
      exact ⟨v, causes, uses, .term hk hmeans⟩
    | sum hx hy =>
      obtain ⟨v, causes, uses, hv⟩ := exists_termMeans symbols hx
      obtain ⟨w, causes', uses', hw⟩ := exists_termMeans symbols hy
      cases hsum : v.add w with
      | ok z => exact ⟨_, _, _, .sum hx hy hv hw hsum⟩
      | error fault => exact ⟨_, _, _, .noSum hx hy hv hw hsum⟩
  · exact ⟨_, _, _, .noExpression fun e he => h ⟨e, he⟩⟩

/-- A text is evaluated to what it means, and its mistakes are what is reported. -/
theorem Means.evaluate (h : symbols.Means t v causes uses) (s : Statement) :
    ∃ errors, evaluate symbols s t = ⟨v, { errors, uses }⟩ ∧ errors.map (·.cause) = causes := by
  have hcauses (text : Text) (causes : List Cause) :
      (causes.map fun cause => (⟨s.textCursor text, cause⟩ : Diagnostic)).map (·.cause) = causes := by
    rw [List.map_map]
    exact List.map_id causes
  cases h with
  | term hk hmeans =>
    refine ⟨_, ?_, hcauses t _⟩
    unfold Sigma16.evaluate
    rw [(Expression.Spelt.term hk).ofText?]
    exact hmeans.evaluateTerm hk s
  | @sum x y left right v w z causes causes' uses uses' hx hy hv hw hsum =>
    refine ⟨causes.map (fun cause => ⟨s.textCursor left, cause⟩) ++
      causes'.map (fun cause => ⟨s.textCursor right, cause⟩), ?_, by rw [List.map_append, hcauses, hcauses]⟩
    unfold Sigma16.evaluate
    rw [(Expression.Spelt.sum hx hy).ofText?]
    simp only [hv.evaluateTerm hx, hw.evaluateTerm hy]
    refine Outcome.ext ?_ ?_ <;> simp [hsum, Effects.append_eq]
  | @noSum x y left right v w fault causes causes' uses uses' hx hy hv hw hsum =>
    refine ⟨causes.map (fun cause => ⟨s.textCursor left, cause⟩) ++
      causes'.map (fun cause => ⟨s.textCursor right, cause⟩) ++
      [⟨s.textCursor (left ++ '+'.toUInt8 :: right), .arithmetic fault⟩], ?_,
      by rw [List.map_append, List.map_append, hcauses, hcauses]; rfl⟩
    unfold Sigma16.evaluate
    rw [(Expression.Spelt.sum hx hy).ofText?]
    simp only [hv.evaluateTerm hx, hw.evaluateTerm hy]
    refine Outcome.ext ?_ ?_ <;> simp [hsum, Effects.append_eq]
  | noExpression hnone =>
    refine ⟨[⟨s.textCursor t, .invalidExpression t⟩], ?_, rfl⟩
    have hform : Expression.ofText? t = none := by
      rw [Option.eq_none_iff_forall_ne_some]
      exact fun e he => hnone e (Expression.spelt_of_ofText? he)
    unfold Sigma16.evaluate
    rw [hform]
    rfl

theorem TermMeans.notMem {k : Term} (h : symbols.TermMeans k v causes uses) :
    (∀ text, .invalidExpression text ∉ causes) ∧ ∀ fault, .arithmetic fault ∉ causes := by
  cases h <;> simp

/-- A text is refused exactly if it is no expression. -/
theorem Means.refused (h : symbols.Means t v causes uses) :
    (∃ text, .invalidExpression text ∈ causes) ↔ ∀ e : Expression, ¬ e.Spelt t := by
  cases h with
  | term hk hv =>
    constructor
    · rintro ⟨text, hmem⟩
      exact absurd hmem (hv.notMem.1 text)
    · intro hnone
      exact absurd (.term hk) (hnone _)
  | sum hx hy hv hw hsum =>
    constructor
    · rintro ⟨text, hmem⟩
      rcases List.mem_append.1 hmem with hmem | hmem
      · exact absurd hmem (hv.notMem.1 text)
      · exact absurd hmem (hw.notMem.1 text)
    · intro hnone
      exact absurd (.sum hx hy) (hnone _)
  | noSum hx hy hv hw hsum =>
    constructor
    · rintro ⟨text, hmem⟩
      rcases List.mem_append.1 hmem with hmem | hmem
      · rcases List.mem_append.1 hmem with hmem | hmem
        · exact absurd hmem (hv.notMem.1 text)
        · exact absurd hmem (hw.notMem.1 text)
      · cases List.mem_singleton.1 hmem
    · intro hnone
      exact absurd (.sum hx hy) (hnone _)
  | noExpression hnone => exact ⟨fun _ => hnone, fun _ => ⟨t, List.mem_singleton_self _⟩⟩

/-- What is no expression and what has no sum counts as zero. -/
theorem Means.zero (h : symbols.Means t v causes uses)
    (hc : (∃ text, .invalidExpression text ∈ causes) ∨ ∃ fault, .arithmetic fault ∈ causes) : v = .const 0 := by
  rcases hc with hc | ⟨fault, hmem⟩
  · have hnone := h.refused.1 hc
    cases h with
    | term hk _ => exact absurd (.term hk) (hnone _)
    | sum hx hy _ _ _ => exact absurd (.sum hx hy) (hnone _)
    | noSum _ _ _ _ _ => rfl
    | noExpression _ => rfl
  · cases h with
    | term _ hv => exact absurd hmem (hv.notMem.2 fault)
    | sum _ _ hv hw _ =>
      rcases List.mem_append.1 hmem with hmem | hmem
      · exact absurd hmem (hv.notMem.2 fault)
      · exact absurd hmem (hw.notMem.2 fault)
    | noSum _ _ _ _ _ => rfl
    | noExpression _ => rfl

end Means

end SymbolTable

/-! ## Sessions -/

namespace Session

variable {x : Session} {s : Statement}

/-- A part of the assembler that only reports and uses names changes nothing else. -/
theorem perform_eq {α : Type} (hs : x.statement? = some s) {f : SymbolTable → Statement → Outcome α} {result : α}
    {errors : List Diagnostic} {uses : List Text} (hf : f x.assembly.symbols s = ⟨result, { errors, uses }⟩) :
    x.perform f = ({ x with assembly := { x.assembly with
      symbols := x.assembly.symbols.useAll s.line uses
      statements := x.assembly.statements.modify x.selected (·.note errors) } }, some result) := by
  unfold perform absorb modify
  simp only [hs, hf, List.append_nil]

/-- Errors are counted where they are noted. -/
theorem errorCount_note (hs : x.statement? = some s) (errors : List Diagnostic) :
    ((x.assembly.statements.modify x.selected (·.note errors)).flatMap (·.errors)).length =
      x.assembly.errorCount + errors.length := by
  obtain ⟨hlt, hget⟩ := List.getElem?_eq_some_iff.1 hs
  have hsplit : x.assembly.statements = x.assembly.statements.take x.selected ++
      s :: x.assembly.statements.drop (x.selected + 1) := by
    rw [← hget, ← List.drop_eq_getElem_cons hlt, List.take_append_drop]
  have hcount : x.assembly.errorCount = ((x.assembly.statements.take x.selected).flatMap (·.errors)).length +
      (s.errors.length + ((x.assembly.statements.drop (x.selected + 1)).flatMap (·.errors)).length) := by
    unfold Assembly.errorCount Assembly.errors
    conv => lhs; rw [hsplit]
    rw [List.flatMap_append, List.flatMap_cons, List.length_append, List.length_append]
  rw [List.modify_eq_take_cons_drop hlt, hget, List.flatMap_append, List.flatMap_cons, List.length_append,
    List.length_append, Statement.note_errors, List.length_append]
  omega

/-- Evaluation accepts exactly the language of expressions, and gives every text the one meaning that it has under
the bindings of the session. A text is refused exactly if it is no expression, and it is one in one way at most; what
is no expression or has no sum counts as zero. The mistakes are reported at the statement and counted, the uses are
noted under the names, and nothing else of the session changes. -/
theorem perform_evaluate (x : Session) (s : Statement) (hs : x.statement? = some s) (text : Text) :
    ∃ (v : Value) (errors : List Diagnostic) (uses : List Text),
      (∀ v' causes' uses', x.assembly.symbols.Means text v' causes' uses' ↔
        v' = v ∧ causes' = errors.map (·.cause) ∧ uses' = uses) ∧
      ((∃ e ∈ errors, ∃ t, e.cause = .invalidExpression t) ↔ ∀ e : Expression, ¬ e.Spelt text) ∧
      (∀ e e' : Expression, e.Spelt text → e'.Spelt text → e = e') ∧
      ((∃ e ∈ errors, (∃ t, e.cause = .invalidExpression t) ∨ ∃ fault, e.cause = .arithmetic fault) → v = .const 0) ∧
      ∃ x' : Session, x.perform (fun symbols s => evaluate symbols s text) = (x', some v) ∧
        x' = { x with assembly := { x.assembly with
          symbols := x.assembly.symbols.useAll s.line uses
          statements := x.assembly.statements.modify x.selected (·.note errors) } } ∧
        x'.statement? = some (s.note errors) ∧
        x'.assembly.errorCount = x.assembly.errorCount + errors.length ∧
        ∀ name, x'.assembly.symbols.lookup name = (x.assembly.symbols.lookup name).map fun b =>
          { b with uses := b.uses ++ List.replicate (uses.count name) s.line } := by
  obtain ⟨v, causes, uses, hmeans⟩ := x.assembly.symbols.exists_means text
  obtain ⟨errors, heval, rfl⟩ := hmeans.evaluate s
  refine ⟨v, errors, uses, ?_, ?_, fun e e' => Expression.Spelt.unique, ?_, _, perform_eq hs heval, rfl, ?_,
    errorCount_note hs errors, ?_⟩
  · intro v' causes' uses'
    constructor
    · intro hmeans'
      obtain ⟨errors', heval', rfl⟩ := hmeans'.evaluate s
      rw [heval] at heval'
      cases heval'
      exact ⟨rfl, rfl, rfl⟩
    · rintro ⟨rfl, rfl, rfl⟩
      exact hmeans
  · rw [← hmeans.refused]
    constructor
    · rintro ⟨e, he, t, hcause⟩
      exact ⟨t, hcause ▸ List.mem_map_of_mem he⟩
    · rintro ⟨t, hmem⟩
      obtain ⟨e, he, hcause⟩ := List.mem_map.1 hmem
      exact ⟨e, he, t, hcause⟩
  · intro hc
    refine hmeans.zero ?_
    obtain ⟨e, he, ⟨t, hcause⟩ | ⟨fault, hcause⟩⟩ := hc
    · exact .inl ⟨t, hcause ▸ List.mem_map_of_mem he⟩
    · exact .inr ⟨fault, hcause ▸ List.mem_map_of_mem he⟩
  · show (x.assembly.statements.modify x.selected (·.note errors))[x.selected]? = _
    have hget : x.assembly.statements[x.selected]? = some s := hs
    rw [List.getElem?_modify, hget]
    simp
  · intro name
    rw [SymbolTable.lookup_useAll]
    cases hb : x.assembly.symbols.lookup name with
    | none => rfl
    | some b =>
      have hname : (b.name == name) = true := List.find?_some (p := fun b : Binding => b.name == name) hb
      simp [beq_iff_eq.1 hname]

set_option maxRecDepth 4000 in
/-- A sum of which one term is bound and the other too large. -/
theorem perform_evaluate_half : ∃ s : Statement,
    ((Session.start [] "a data 1\n data a+70000" none).select 1).statement? = some s ∧
    ∃ (x' : Session) (errors : List Diagnostic),
      ((Session.start [] "a data 1\n data a+70000" none).select 1).perform
        (fun symbols s => evaluate symbols s "a+70000") = (x', some (.relocatable 0)) ∧
      x'.statement? = some (s.note errors) ∧ errors.map (·.cause) = [.invalidLiteral "70000"] ∧
      (x'.assembly.symbols.lookup "a").map (·.uses) = some [2] := by
  generalize hx : (Session.start [] "a data 1\n data a+70000" none).select 1 = x
  have hrun : x.statement?.map (·.line) = some 2 ∧
      x.assembly.symbols.lookup "a" = some { name := "a", value := .relocatable 0, line := 1 } := by
    subst hx
    decide +kernel
  obtain ⟨⟨s, hs, hline⟩, ha⟩ := And.imp_left Option.map_eq_some_iff.1 hrun
  obtain ⟨v, errors, uses, hmeans, -, -, -, x', hperform, -, hstatement, -, huses⟩ :=
    perform_evaluate x s hs "a+70000"
  have hleft : (Term.name "a").Spelt "a" := Term.spelt_iff.2 ⟨by decide, rfl⟩
  have hright : (Term.decimal "70000").Spelt "70000" := Term.spelt_iff.2 ⟨by decide, rfl⟩
  have hsum : x.assembly.symbols.Means "a+70000" (.relocatable 0) [.invalidLiteral "70000"] ["a"] :=
    .sum hleft hright (.bound ha) (.outOfRange (n := 70000) (by decide) (by decide)) rfl
  obtain ⟨rfl, hcauses, rfl⟩ := (hmeans _ _ _).1 hsum
  refine ⟨s, hs, x', errors, hperform, hstatement, hcauses.symm, ?_⟩
  rw [huses, ha, hline]
  rfl

end Session

/-! ## Displacements -/

theorem Term.Spelt.displacementByte {k : Term} {t : Text} (h : k.Spelt t) (hminus : t.head? ≠ some '-'.toUInt8) :
    ∀ b ∈ t, isDisplacementByte b = true := by
  obtain ⟨b, s, rfl, hb, hs⟩ := h.bytes
  intro c hc
  unfold isDisplacementByte
  rcases List.mem_cons.1 hc with rfl | hc
  · rcases hb with ⟨rfl, -⟩ | rfl | hb
    · exact absurd rfl hminus
    · rfl
    · simp [hb]
  · simp [hs c hc]

/-- A term may stand before other bytes of a displacement, also with its minus sign. -/
theorem Term.Spelt.isDisplacement_append {k : Term} {t : Text} (h : k.Spelt t) (rest : Text) :
    isDisplacement (t ++ rest) = rest.all isDisplacementByte := by
  by_cases hminus : t.head? = some '-'.toUInt8
  · obtain ⟨b, s, rfl, hb, hs⟩ := h.bytes
    obtain rfl : b = '-'.toUInt8 := Option.some.inj hminus
    have hne : s ≠ [] := by
      rcases hb with ⟨-, hne⟩ | hb | hb
      · exact hne
      · cases hb
      · cases hb
    have hall : s.all isDisplacementByte = true := by
      rw [List.all_eq_true]
      exact fun c hc => by simp [isDisplacementByte, hs c hc]
    simp [isDisplacement, hne, hall]
  · obtain ⟨b, s, rfl, -, -⟩ := h.bytes
    have hall := List.all_eq_true.2 (h.displacementByte hminus)
    have hb : b ≠ '-'.toUInt8 := fun hb => hminus (congrArg some hb)
    unfold isDisplacement
    simp only [List.cons_append, List.head?_cons, Option.some_beq_some, beq_eq_false_iff_ne.2 hb, Bool.false_eq_true,
      if_false, List.isEmpty_cons, Bool.not_false, Bool.true_and]
    rw [← List.cons_append, List.all_append, hall, Bool.true_and]

/-- What has one plus sign has a minus sign behind it only after that one. -/
theorem Text.infix_plus_minus {left right : Text} (hl : '+'.toUInt8 ∉ left) (hr : '+'.toUInt8 ∉ right) :
    ['+'.toUInt8, '-'.toUInt8] <:+: left ++ '+'.toUInt8 :: right ↔ right.head? = some '-'.toUInt8 := by
  constructor
  · rintro ⟨before, after, h⟩
    rw [List.append_assoc, List.cons_append, List.cons_append, List.nil_append] at h
    rcases List.append_eq_append_iff.1 h with ⟨extra, hleft, hrest⟩ | ⟨extra, -, hrest⟩
    · cases extra with
      | nil =>
        cases hrest
        rfl
      | cons b extra =>
        obtain ⟨rfl, -⟩ := List.cons.inj hrest
        exact absurd (hleft ▸ List.mem_append_right _ List.mem_cons_self) hl
    · cases extra with
      | nil =>
        cases hrest
        rfl
      | cons b extra =>
        cases hrest
        exact absurd (List.mem_append_right _ List.mem_cons_self) hr
  · intro h
    cases right with
    | nil => cases h
    | cons b right =>
      cases h
      exact ⟨left, right, by simp⟩

/-- An expression has the form of a displacement unless its second term is negative. -/
theorem Expression.Spelt.isDisplacement {e : Expression} {t : Text} (h : e.Spelt t) :
    isDisplacement t = true ↔ ¬ ['+'.toUInt8, '-'.toUInt8] <:+: t := by
  cases h with
  | term hk =>
    have hform := hk.isDisplacement_append []
    rw [List.append_nil] at hform
    refine iff_of_true hform fun hinfix => hk.plus_notMem ?_
    exact hinfix.subset List.mem_cons_self
  | @sum x y left right hx hy =>
    have hbyte : isDisplacementByte '+'.toUInt8 = true := by decide
    rw [hx.isDisplacement_append, Text.infix_plus_minus hx.plus_notMem hy.plus_notMem, List.all_cons, hbyte,
      Bool.true_and]
    constructor
    · intro hall hminus
      rw [List.all_eq_true] at hall
      have hbad : isDisplacementByte '-'.toUInt8 = true := hall _ (List.mem_of_mem_head? hminus)
      exact absurd hbad (by decide)
    · intro hminus
      exact List.all_eq_true.2 (hy.displacementByte hminus)

theorem Expression.Spelt.notMem_bracket {e : Expression} {t : Text} (h : e.Spelt t) : '['.toUInt8 ∉ t := by
  have hterm {k : Term} {t : Text} (hk : k.Spelt t) : '['.toUInt8 ∉ t :=
    hk.notMem (by decide) (by decide) (by decide)
  cases h with
  | term hk => exact hterm hk
  | sum hx hy =>
    rw [List.mem_append, List.mem_cons, not_or, not_or]
    exact ⟨hterm hx, by decide, hterm hy⟩

theorem indexed?_eq {displacement index : Text} (h : '['.toUInt8 ∉ displacement) :
    indexed? (displacement ++ '['.toUInt8 :: (index ++ [']'.toUInt8])) =
      if isDisplacement displacement = true then (register? index).map (displacement, ·) else none := by
  unfold indexed?
  rw [Text.cut?_append h]
  have hlast : ((index ++ [']'.toUInt8]).getLast? == some ']'.toUInt8) = true := by simp
  rw [Option.bind_eq_bind, Option.bind_some]
  dsimp only
  rw [hlast, Bool.and_true, List.dropLast_concat]
  by_cases hform : isDisplacement displacement = true
  · rw [if_pos hform, hform]
    cases register? index <;> rfl
  · rw [if_neg hform, eq_false_of_ne_true hform]
    rfl

theorem register?_of_register {s : Statement} {text : Text} {n : Word} (h : register s text = pure n) :
    register? text = some n := by
  unfold register at h
  split at h
  · next hread => exact hread.trans (congrArg (fun x => some x.result) h)
  · exact absurd (congrArg (·.effects.errors) h) (by simp [report])

/-- An expression before a register is an indexed operand, and what it says is that of the expression alone, unless its
second term is negative: then the operand is refused. -/
theorem indexed_expression (s : Statement) (e r : Text) (n : Word) (he : ∃ x : Expression, x.Spelt e)
    (hr : register s ("R" ++ r) = pure n) :
    (¬ "+-" <:+: e → indexed s (e ++ "[R" ++ r ++ "]") = pure (e, n) ∧
      ∀ symbols index field, (placeOperand symbols s (.indexed index field) (e ++ "[R" ++ r ++ "]")).effects =
        (placeOperand symbols s (.value field) e).effects) ∧
    ("+-" <:+: e → indexed s (e ++ "[R" ++ r ++ "]") =
      report ⟨s.textCursor (e ++ "[R" ++ r ++ "]"), .invalidOperand "disp[Rn]" (e ++ "[R" ++ r ++ "]")⟩
        (("0" : Text), 0)) := by
  obtain ⟨x, hx⟩ := he
  have htext : e ++ "[R" ++ r ++ "]" = e ++ '['.toUInt8 :: ("R" ++ r ++ [']'.toUInt8]) := by
    rw [List.append_assoc, List.append_assoc]
    rfl
  have hindexed : indexed? (e ++ "[R" ++ r ++ "]") = if ¬ "+-" <:+: e then some (e, n) else none := by
    rw [htext, indexed?_eq hx.notMem_bracket, register?_of_register hr]
    by_cases hform : "+-" <:+: e
    · rw [if_neg fun h => hx.isDisplacement.1 h hform, if_neg (not_not_intro hform)]
    · rw [if_pos (hx.isDisplacement.2 hform), if_pos hform]
      rfl
  constructor
  · intro hform
    have hread : indexed s (e ++ "[R" ++ r ++ "]") = pure (e, n) := by
      rw [indexed, hindexed, if_pos hform]
    refine ⟨hread, fun symbols index field => ?_⟩
    simp only [placeOperand, hread, pure_bind_eq, bind_effects, pure_effects]
  · intro hform
    rw [indexed, hindexed, if_neg (not_not_intro hform)]

theorem indexed_expression_difference :
    register (Statement.read 1 (.relocatable 0) " load R1,-2+a[R15]") ("R" ++ "15") = pure 15 ∧
    indexed (Statement.read 1 (.relocatable 0) " load R1,-2+a[R15]") ("-2+a" ++ "[R" ++ "15" ++ "]") =
      pure (("-2+a" : Text), 15) := by
  have he : (Expression.sum "-2" "a").Spelt "-2+a" := Expression.spelt_iff.2 (by decide)
  have hr : register (Statement.read 1 (.relocatable 0) " load R1,-2+a[R15]") ("R" ++ "15") = pure 15 := by
    decide +kernel
  exact ⟨hr, ((indexed_expression _ _ _ 15 ⟨_, he⟩ hr).1 (by decide)).1⟩

/-- The word `1+-2` is -1 in a `data` statement, but does not stand before a register. -/
theorem indexed_negative_second : ∃ s : Statement,
    (Assembly.ofSource (.initial []) " load R1,1+-2[R0]").statements[0]? = some s ∧
    (Expression.sum "1" "-2").Spelt "1+-2" ∧ evaluate .empty s "1+-2" = pure (.const 0xffff) ∧
    register s "R0" = pure 0 ∧ (indexed s "1+-2[R0]").effects.errors.map (·.cause) =
      [.invalidOperand "disp[Rn]" "1+-2[R0]"] := by
  have hrun : (Assembly.ofSource (.initial []) " load R1,1+-2[R0]").statements[0]?.map (fun s =>
      (evaluate .empty s "1+-2", register s "R0", (indexed s "1+-2[R0]").effects.errors.map (·.cause))) =
      some (pure (.const 0xffff), pure 0, [.invalidOperand "disp[Rn]" "1+-2[R0]"]) := by
    decide +kernel
  obtain ⟨s, hs, h⟩ := Option.map_eq_some_iff.1 hrun
  obtain ⟨hvalue, hregister, herrors⟩ := by simpa only [Prod.mk.injEq] using h
  exact ⟨s, hs, Expression.spelt_iff.2 (by decide), hvalue, hregister, herrors⟩

end Sigma16
