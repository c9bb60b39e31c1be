/-
Instructions are decodable. A decoder that knows nothing of the source, only a table of opcodes with the
places of the operands, reads the mnemonic of an instruction and the values of its operands back from
its words: the patterns of the table exclude one another, the fields of a pattern are apart, and an
operand that is accepted fits its field.
-/
import Sigma16.Proofs.Packing
import Sigma16.Proofs.Persistence

namespace Sigma16

open Outcome

/-! ## What operands denote -/

inductive OperandForm where
  | register | control | constant | indexed
  deriving DecidableEq, Repr

/-- The operands that an addressing format asks for. -/
def AddressingFormat.operandForms : AddressingFormat → List OperandForm
  | .rrr => [.register, .register, .register]
  | .rr => [.register, .register]
  | .rx => [.register, .indexed]
  | .x => [.indexed]
  | .kx => [.constant, .indexed]
  | .rrx => [.register, .register, .indexed]
  | .rc => [.register, .control]
  | .rrk => [.register, .register, .constant]
  | .rrrk => [.register, .register, .register, .constant]
  | .rkkkk => [.register, .constant, .constant, .constant, .constant]
  | .rkkk => [.register, .constant, .constant, .constant]
  | .rkkrk => [.register, .constant, .constant, .register, .constant]
  | .rrkk => [.register, .register, .constant, .constant]
  | .rrrkk => [.register, .register, .register, .constant, .constant]
  | _ => []

inductive OperandValue where
  | register (number : Word)
  | control (number : Word)
  | constant (word : Word)
  | indexed (displacement index : Word)
  deriving DecidableEq, Repr

/-- The word of an expression; 0 stands for the word of another module until the linker supplies it. -/
def SymbolTable.word? (t : SymbolTable) (text : Text) : Option Word :=
  (t.value? text).map fun v => if v.isExternal then 0 else v.word

/-- The registers under all their names. What a name denotes is looked up, whichever way operands are read. -/
def registerNumbers : List (Text × Word) :=
  [ ("R0", 0), ("R1", 1), ("R2", 2), ("R3", 3), ("R4", 4), ("R5", 5), ("R6", 6), ("R7", 7), ("R8", 8), ("R9", 9),
    ("R10", 10), ("R11", 11), ("R12", 12), ("R13", 13), ("R14", 14), ("R15", 15),
    ("Ra", 10), ("Rb", 11), ("Rc", 12), ("Rd", 13), ("Re", 14), ("Rf", 15),
    ("RA", 10), ("RB", 11), ("RC", 12), ("RD", 13), ("RE", 14), ("RF", 15) ]

/-- The control registers. -/
def controlNumbers : List (Text × Word) :=
  [ ("status", 0), ("mask", 1), ("req", 2), ("rstat", 3), ("rpc", 4), ("iir", 5), ("iadr", 6), ("vect", 7),
    ("psegBeg", 8), ("psegEnd", 9), ("dsegBeg", 10), ("dsegEnd", 11) ]

/-- The number of the name that stands before an ending. -/
def numberOf? (numbers : List (Text × Word)) (ending text : Text) : Option Word :=
  (numbers.find? (·.1 ++ ending == text)).map (·.2)

def OperandForm.denotation? (t : SymbolTable) : OperandForm → Text → Option OperandValue
  | .register, text => (numberOf? registerNumbers [] text).map .register
  | .control, text => (numberOf? controlNumbers [] text).map .control
  | .constant, text => (t.word? text).map .constant
  | .indexed, text => (Text.cut? '['.toUInt8 text).bind fun (displacement, rest) =>
    (numberOf? registerNumbers "]" rest).bind fun n => (t.word? displacement).map (.indexed · n)

/-- What operands of the given forms denote, one by one. -/
def denotations? (t : SymbolTable) : List OperandForm → List Text → Option (List OperandValue)
  | [], [] => some []
  | form :: forms, text :: texts =>
    (form.denotation? t text).bind fun v => (denotations? t forms texts).map (v :: ·)
  | _, _ => none

/-! ## The decoder -/

/-- How an instruction looks in memory: the number of its words, the fields that tell it from others, and
the places of its operands. -/
structure Pattern where
  mnemonic : Text
  size : Nat
  opcode : Placement
  slots : List Slot
  deriving DecidableEq, Repr

namespace Pattern

def rrr (mnemonic : String) (op : Word) : Pattern :=
  ⟨mnemonic, 1, [(.op, op)], [.register .d, .register .a, .register .b]⟩

def rx (mnemonic : String) (b : Word) : Pattern :=
  ⟨mnemonic, 2, [(.op, 15), (.b, b)], [.register .d, .indexed .a .disp]⟩

def kx (mnemonic : String) (b : Word) : Pattern :=
  ⟨mnemonic, 2, [(.op, 15), (.b, b)], [.value .d, .indexed .a .disp]⟩

def exp (mnemonic : String) (ab : Word) (slots : List Slot) : Pattern :=
  ⟨mnemonic, 2, [(.op, 14), (.ab, ab)], slots⟩

/-- The instructions of the machine. -/
def all : List Pattern :=
  [ rrr "add" 0, rrr "sub" 1, rrr "mul" 2, rrr "div" 3,
    ⟨"cmp", 1, [(.op, 4)], [.register .a, .register .b]⟩,
    rrr "addc" 5, rrr "muln" 6, rrr "divn" 7, rrr "trap" 12,
    rx "lea" 0, rx "load" 1, rx "store" 2,
    ⟨"jump", 2, [(.op, 15), (.b, 3)], [.indexed .a .disp]⟩,
    kx "jumpc0" 4, kx "jumpc1" 5, rx "jal" 6, rx "jumpz" 7, rx "jumpnz" 8, rx "testset" 9,
    ⟨"resume", 1, [(.op, 14), (.ab, 0)], []⟩,
    exp "save" 1 [.register .d, .register .e, .indexed .f .gh],
    exp "restore" 2 [.register .d, .register .e, .indexed .f .gh],
    exp "getctl" 3 [.register .e, .control .f],
    exp "putctl" 4 [.register .e, .control .f],
    exp "shiftl" 5 [.register .d, .register .e, .value .f],
    exp "shiftr" 6 [.register .d, .register .e, .value .f],
    exp "logicw" 7 [.register .d, .register .e, .register .f, .value .h],
    exp "logicb" 8 [.register .d, .value .e, .value .f, .value .g, .value .h],
    exp "extract" 9 [.register .d, .value .e, .value .f, .register .g, .value .h],
    exp "getbits" 10 [.register .d, .register .e, .value .g, .value .h],
    exp "putbits" 11 [.register .d, .register .e, .register .f, .value .g, .value .h] ]

def admits (p : Pattern) (code : List Word) : Bool :=
  code.length == p.size && p.opcode.all fun part => part.1.readFrom code == part.2

end Pattern

/-- The value of the operand whose place is given. -/
def Slot.decode (code : List Word) : Slot → OperandValue
  | .register field => .register (field.readFrom code)
  | .control field => .control (field.readFrom code)
  | .value field => .constant (field.readFrom code)
  | .indexed index displacement => .indexed (displacement.readFrom code) (index.readFrom code)

/-- The mnemonic of an instruction and the values of its operands, read from its words. -/
def decode? (code : List Word) : Option (Text × List OperandValue) :=
  (Pattern.all.find? (·.admits code)).map fun p => (p.mnemonic, p.slots.map (·.decode code))

/-! ## Patterns and operations -/

/-- An instruction of the machine, not shorthand for one. -/
def Operation.isInstruction (op : Operation) : Bool :=
  !op.pseudo && (op.format == .rrr || op.format == .rx || op.format == .exp1 || op.format == .exp2)

def Slot.form : Slot → OperandForm
  | .register _ => .register
  | .control _ => .control
  | .value _ => .constant
  | .indexed _ _ => .indexed

/-- The pattern of an operation that is encoded in a shape. -/
def Shape.pattern (shape : Shape) (op : Operation) : Pattern :=
  ⟨op.mnemonic, shape.size, shape.opcode.zip op.opcode, shape.slots⟩

/-- The shape gives an operation one of the patterns, with opcodes that fit their fields, and takes the
operands that the addressing format asks for. -/
def Shape.Decodes (shape : Shape) (op : Operation) : Prop :=
  shape.pattern op ∈ Pattern.all ∧ shape.slots.map Slot.form = op.operands.operandForms ∧
    ∀ part ∈ shape.opcode.zip op.opcode, part.2 ≤ part.1.limit

instance (shape : Shape) (op : Operation) : Decidable (shape.Decodes op) := inferInstanceAs (Decidable (_ ∧ _))

def Encoding.shape? : Encoding → Option Shape
  | .words shape => some shape
  | .nothing | .origin | .exports => none

theorem Operation.decodes {op : Operation} (hm : op ∈ table) (hi : op.isInstruction = true) :
    ∃ shape, op.encoding? = some (.words shape) ∧ shape.Decodes op := by
  -- stated without naming a shape, so that it can be decided over the table
  have checked : ∀ op ∈ table, op.isInstruction = true →
      (op.encoding?.bind Encoding.shape?).any (fun shape => decide (shape.Decodes op)) = true := by decide +kernel
  have hop := checked op hm hi
  rw [Option.any_eq_true] at hop
  obtain ⟨shape, hs, hd⟩ := hop
  obtain ⟨encoding, he, hs⟩ := Option.bind_eq_some_iff.1 hs
  refine ⟨shape, ?_, of_decide_eq_true hd⟩
  cases encoding with
  | words shape' =>
    cases hs
    exact he
  | nothing | origin | exports => cases hs

/-- Two patterns differ in the value of a field that both fix. -/
def Pattern.Excludes (p q : Pattern) : Prop := ∃ x ∈ p.opcode, ∃ y ∈ q.opcode, x.1 = y.1 ∧ x.2 ≠ y.2

instance (p q : Pattern) : Decidable (p.Excludes q) := inferInstanceAs (Decidable (∃ x ∈ p.opcode, _))

theorem Pattern.all_exclude : ∀ p ∈ all, ∀ q ∈ all, p = q ∨ p.Excludes q := by decide +kernel

/-- Words that hold the opcode of a pattern are decoded by this pattern. -/
theorem Pattern.find?_admits {p : Pattern} (hp : p ∈ all) {code : List Word} (hsize : code.length = p.size)
    (hopcode : ∀ part ∈ p.opcode, part.1.readFrom code = part.2) : all.find? (·.admits code) = some p := by
  have hadmits : p.admits code = true := by
    unfold admits
    rw [hsize, beq_self_eq_true, Bool.true_and, List.all_eq_true]
    intro part hm
    exact beq_iff_eq.2 (hopcode part hm)
  have hsome : (all.find? (·.admits code)).isSome := List.find?_isSome.2 ⟨p, hp, hadmits⟩
  obtain ⟨q, hq⟩ := Option.isSome_iff_exists.1 hsome
  have hqm := List.mem_of_find?_eq_some hq
  rcases all_exclude p hp q hqm with rfl | ⟨x, hx, y, hy, hfield, hne⟩
  · exact hq
  · -- both patterns would read the same field, with different values
    have hqa := List.find?_some hq
    simp only [admits, Bool.and_eq_true, List.all_eq_true, beq_iff_eq] at hqa
    exact absurd ((hopcode x hx).symm.trans (hfield ▸ hqa.2 y hy)) hne

/-! ## Operands in their fields -/

/-- A property of bytes can be checked byte by byte. -/
theorem Text.forall_byte {P : UInt8 → Prop} (h : ∀ n < 256, P (.ofNat n)) (b : UInt8) : P b := by
  have hb := h b.toNat b.toNat_lt
  rwa [UInt8.ofNat_toNat] at hb

theorem Text.hexValue_lt : ∀ b : UInt8, hexValue b < 16 := forall_byte (by decide +kernel)

theorem registerNumber?_mem {t : Text} {n : Word} (h : registerNumber? t = some n) :
    ('R'.toUInt8 :: t, n) ∈ registerNumbers := by
  unfold registerNumber? at h
  split at h
  · rename_i x
    split at h
    · rename_i hx
      cases h
      have checked : ∀ x : UInt8, Text.isHexDigit x = true →
          (['R'.toUInt8, x], (.ofNat (Text.hexValue x) : Word)) ∈ registerNumbers :=
        Text.forall_byte (by decide +kernel)
      exact checked x hx
    · cases h
  · rename_i x y
    split at h
    · rename_i hxy
      cases h
      rw [Bool.and_assoc, Bool.and_eq_true, beq_iff_eq] at hxy
      obtain ⟨rfl, hy⟩ := hxy
      have checked : ∀ y : UInt8, ('0'.toUInt8 ≤ y && y ≤ '5'.toUInt8) = true →
          (['R'.toUInt8, '1'.toUInt8, y], (.ofNat (10 + Text.hexValue y) : Word)) ∈ registerNumbers :=
        Text.forall_byte (by decide +kernel)
      exact checked y hy
    · cases h
  · cases h

theorem register?_mem {t : Text} {n : Word} (h : register? t = some n) : (t, n) ∈ registerNumbers := by
  unfold register? at h
  split at h
  · cases h
  · split at h
    · rename_i hr
      rw [eq_of_beq hr]
      exact registerNumber?_mem h
    · cases h

theorem controlRegister?_mem {t : Text} {n : Word} (h : controlRegister? t = some n) : (t, n) ∈ controlNumbers := by
  unfold controlRegister? at h
  obtain ⟨i, hi, rfl⟩ := Option.map_eq_some_iff.1 h
  obtain ⟨hlt, rfl, -⟩ := List.idxOf?_eq_some_iff.1 hi
  have checked : ∀ i (hlt : i < controlRegisters.length),
      (controlRegisters[i], (.ofNat i : Word)) ∈ controlNumbers := by decide +kernel
  exact checked i hlt

theorem registerNumbers_le : ∀ x ∈ registerNumbers, x.2 ≤ 15 := by decide +kernel

theorem controlNumbers_le : ∀ x ∈ controlNumbers, x.2 ≤ 15 := by decide +kernel

/-- A reader of names that knows the names of a table and no others reads them as the table does. -/
theorem numberOf?_eq {numbers : List (Text × Word)} {read? : Text → Option Word}
    (hsound : ∀ x ∈ numbers, read? x.1 = some x.2) (hcomplete : ∀ {t n}, read? t = some n → (t, n) ∈ numbers)
    (t ending : Text) : numberOf? numbers ending (t ++ ending) = read? t := by
  unfold numberOf?
  cases hfind : numbers.find? (·.1 ++ ending == t ++ ending) with
  | none =>
    cases hread : read? t with
    | none => rfl
    | some n => exact absurd (beq_self_eq_true _) (List.find?_eq_none.1 hfind (t, n) (hcomplete hread))
  | some x =>
    have hname := List.find?_some hfind
    rw [← List.append_cancel_right (eq_of_beq hname), hsound x (List.mem_of_find?_eq_some hfind)]
    rfl

theorem numberOf?_register (t ending : Text) : numberOf? registerNumbers ending (t ++ ending) = register? t :=
  numberOf?_eq (by decide +kernel) register?_mem t ending

theorem numberOf?_controlRegister (t ending : Text) :
    numberOf? controlNumbers ending (t ++ ending) = controlRegister? t :=
  numberOf?_eq (by decide +kernel) controlRegister?_mem t ending

/-- An indexed operand is a displacement, a bracket and the name of a register before the other bracket. -/
theorem numberOf?_indexed {t displacement : Text} {n : Word} (h : indexed? t = some (displacement, n)) :
    ∃ rest, Text.cut? '['.toUInt8 t = some (displacement, rest) ∧ numberOf? registerNumbers "]" rest = some n ∧
      n ≤ 15 := by
  unfold indexed? at h
  obtain ⟨⟨left, rest⟩, hcut, h⟩ := Option.bind_eq_some_iff.1 h
  obtain ⟨_, hguard, h⟩ := Option.bind_eq_some_iff.1 h
  obtain ⟨number, hnumber, h⟩ := Option.bind_eq_some_iff.1 h
  cases h
  have hlast : rest.getLast? = some ']'.toUInt8 := by
    unfold guard at hguard
    split at hguard
    · rename_i hform
      exact eq_of_beq (Bool.and_eq_true_iff.1 hform).2
    · cases hguard
  obtain ⟨name, rfl⟩ := List.getLast?_eq_some_iff.1 hlast
  rw [List.dropLast_concat] at hnumber
  refine ⟨_, hcut, ?_, registerNumbers_le _ (register?_mem hnumber)⟩
  exact (numberOf?_register name "]").trans hnumber

theorem Field.fifteen_le_limit (x : Field) : (15 : Word) ≤ x.limit := by
  cases x <;> decide

theorem Field.le_limit_of_isWhole {x : Field} (h : x.isWhole = true) (w : Word) : w ≤ x.limit := by
  have hlimit : x.limit = 0xFFFF := by simpa [isWhole] using h
  have hw := w.toNat_lt
  rw [hlimit, UInt16.le_iff_toNat_le]
  show w.toNat ≤ 65535
  omega

/-- A small field takes 0 for the word of another module, and else a word within its limit that does not
move. -/
theorem constant_denotes {symbols : SymbolTable} {s : Statement} {address : Word} {field text : Text} {limit : Word}
    (he : (constant symbols s address field text limit).effects.errors = []) :
    symbols.word? text = some (constant symbols s address field text limit).result ∧
    (constant symbols s address field text limit).result ≤ limit := by
  unfold constant at he ⊢
  simp only [bind_effects, bind_result, Effects.append_errors, List.append_eq_nil_iff] at he ⊢
  obtain ⟨hvalue, he⟩ := he
  unfold SymbolTable.word?
  rw [SymbolTable.value?_of_errors hvalue]
  generalize (evaluate symbols s text).result = v at he
  cases hext : v.isExternal with
  | true => simp [hext, UInt16.zero_le]
  | false =>
    cases hrel : v.isRelocatable with
    | true => simp [hext, hrel] at he
    | false =>
      by_cases hlimit : limit < v.word
      · simp [hext, hrel, hlimit] at he
      · simp [hext, hlimit, UInt16.not_lt.1 hlimit]

/-- A field that takes the value of an expression without an error has the word of the expression, all of
it. -/
theorem fieldValue_denotes {symbols : SymbolTable} (hw : symbols.WF) {s : Statement} {field : Field} {text : Text}
    (he : (fieldValue symbols s field text).effects.errors = []) :
    symbols.word? text = some (fieldValue symbols s field text).result ∧
    (fieldValue symbols s field text).result ≤ field.limit := by
  unfold fieldValue at he ⊢
  simp only at he ⊢
  by_cases hwhole : field.isWhole = true
  · simp only [hwhole, if_true] at he ⊢
    unfold wholeWord at he ⊢
    simp only [bind_effects, Effects.append_errors, List.append_eq_nil_iff] at he
    refine ⟨?_, field.le_limit_of_isWhole hwhole _⟩
    unfold SymbolTable.word?
    rw [SymbolTable.value?_of_errors he.1]
    -- the placeholder of another module's word is zero already
    rcases evaluate_proper hw s text with hlocal | hexternal
    · simp [hlocal.not_external]
    · simp [hexternal, Value.external]
  · simp only [hwhole] at he ⊢
    exact constant_denotes he

/-- The fields of operands, filled with values that fit and stand for `values`. -/
structure Placement.Holds (parts : Placement) (slots : List Slot) (values : List OperandValue) : Prop where
  fields : parts.map Prod.fst = slots.flatMap Slot.fields
  fits : ∀ part ∈ parts, part.2 ≤ part.1.limit
  decode : ∀ code, (∀ part ∈ parts, part.1.readFrom code = part.2) → slots.map (·.decode code) = values

theorem Placement.Holds.append {parts parts' : Placement} {slots slots' : List Slot}
    {values values' : List OperandValue} (h : parts.Holds slots values) (h' : parts'.Holds slots' values') :
    Placement.Holds (parts ++ parts') (slots ++ slots') (values ++ values') where
  fields := by rw [List.map_append, List.flatMap_append, h.fields, h'.fields]
  fits := fun part hp => (List.mem_append.1 hp).elim (h.fits part) (h'.fits part)
  decode := fun code hcode => by
    rw [List.map_append, h.decode code fun part hp => hcode part (List.mem_append_left _ hp),
      h'.decode code fun part hp => hcode part (List.mem_append_right _ hp)]

theorem register_denotes {s : Statement} {text : Text} (he : (register s text).effects.errors = []) :
    numberOf? registerNumbers [] text = some (register s text).result ∧ (register s text).result ≤ 15 := by
  unfold register at he ⊢
  cases hn : register? text with
  | none => rw [hn] at he; cases he
  | some n =>
    refine ⟨?_, registerNumbers_le _ (register?_mem hn)⟩
    rw [← List.append_nil text, numberOf?_register, hn]
    rfl

theorem controlRegister_denotes {s : Statement} {text : Text} (he : (controlRegister s text).effects.errors = []) :
    numberOf? controlNumbers [] text = some (controlRegister s text).result ∧
    (controlRegister s text).result ≤ 15 := by
  unfold controlRegister at he ⊢
  cases hn : controlRegister? text with
  | none => rw [hn] at he; cases he
  | some n =>
    refine ⟨?_, controlNumbers_le _ (controlRegister?_mem hn)⟩
    rw [← List.append_nil text, numberOf?_controlRegister, hn]
    rfl

theorem indexed_denotes {s : Statement} {text : Text} (he : (indexed s text).effects.errors = []) :
    ∃ rest, Text.cut? '['.toUInt8 text = some ((indexed s text).result.1, rest) ∧
      numberOf? registerNumbers "]" rest = some (indexed s text).result.2 ∧ (indexed s text).result.2 ≤ 15 := by
  unfold indexed at he ⊢
  cases hx : indexed? text with
  | none => rw [hx] at he; cases he
  | some x => exact numberOf?_indexed hx

/-- An operand that is accepted fills its fields with what it denotes. -/
theorem placeOperand_denotes {symbols : SymbolTable} (hw : symbols.WF) {s : Statement} {slot : Slot} {text : Text}
    (he : (placeOperand symbols s slot text).effects.errors = []) : ∃ v, slot.form.denotation? symbols text = some v ∧
      (placeOperand symbols s slot text).result.Holds [slot] [v] := by
  cases slot with
  | register field =>
    simp only [placeOperand, bind_effects, pure_effects, Effects.append_empty] at he
    obtain ⟨hn, hle⟩ := register_denotes he
    refine ⟨.register (register s text).result, by simp [Slot.form, OperandForm.denotation?, hn], rfl, ?_, ?_⟩
    · simpa [placeOperand] using UInt16.le_trans hle field.fifteen_le_limit
    · simp [placeOperand, Slot.decode]
  | control field =>
    simp only [placeOperand, bind_effects, pure_effects, Effects.append_empty] at he
    obtain ⟨hn, hle⟩ := controlRegister_denotes he
    refine ⟨.control (controlRegister s text).result, by simp [Slot.form, OperandForm.denotation?, hn], rfl, ?_, ?_⟩
    · simpa [placeOperand] using UInt16.le_trans hle field.fifteen_le_limit
    · simp [placeOperand, Slot.decode]
  | value field =>
    simp only [placeOperand, bind_effects, pure_effects, Effects.append_empty] at he
    obtain ⟨hv, hle⟩ := fieldValue_denotes hw he
    refine ⟨.constant (fieldValue symbols s field text).result, ?_, rfl, ?_, ?_⟩
    · simp [Slot.form, OperandForm.denotation?, hv]
    · simpa [placeOperand] using hle
    · simp [placeOperand, Slot.decode]
  | indexed index field =>
    simp only [placeOperand, bind_effects, pure_effects, Effects.append_empty, Effects.append_errors,
      List.append_eq_nil_iff] at he
    obtain ⟨rest, hcut, hnumber, hn⟩ := indexed_denotes he.1
    obtain ⟨hv, hle⟩ := fieldValue_denotes hw he.2
    refine ⟨.indexed (fieldValue symbols s field (indexed s text).result.1).result (indexed s text).result.2,
      ?_, rfl, ?_, ?_⟩
    · simp [Slot.form, OperandForm.denotation?, hcut, hnumber, hv]
    · simpa [placeOperand] using ⟨UInt16.le_trans hn index.fifteen_le_limit, hle⟩
    · simpa [placeOperand, Slot.decode] using fun code hindex hfield => ⟨hfield, hindex⟩

theorem placeOperands_denotes {symbols : SymbolTable} (hw : symbols.WF) {s : Statement} : ∀ {slots : List Slot}
    {texts : List Text}, slots.length = texts.length → (placeOperands symbols s slots texts).effects.errors = [] →
    ∃ values, denotations? symbols (slots.map Slot.form) texts = some values ∧
      (placeOperands symbols s slots texts).result.Holds slots values
  | [], [], _, _ => ⟨[], rfl, rfl, by simp [placeOperands], by simp⟩
  | slot :: slots, text :: texts, hlength, he => by
    simp only [placeOperands, bind_effects, pure_effects, Effects.append_empty, Effects.append_errors,
      List.append_eq_nil_iff] at he
    obtain ⟨v, hv, hholds⟩ := placeOperand_denotes hw he.1
    obtain ⟨values, hvalues, hrest⟩ := placeOperands_denotes hw (Nat.succ.inj hlength) he.2
    exact ⟨v :: values, by simp [denotations?, hv, hvalues], hholds.append hrest⟩

/-! ## Words that are decoded -/

/-- Opcodes and operands are read back from the words they are packed into. -/
theorem Shape.decode?_words {shape : Shape} {op : Operation} (hd : shape.Decodes op) (hs : shape.Separate)
    (hlength : shape.opcode.length = op.opcode.length) {parts : Placement} {values : List OperandValue}
    (hp : parts.Holds shape.slots values) : decode? (shape.words op.opcode parts) = some (op.mnemonic, values) := by
  obtain ⟨hpattern, -, hopcode⟩ := hd
  -- opcode and operands fill the fields of the shape, each of them once
  have hfields : (shape.opcode.zip op.opcode ++ parts).map Prod.fst = shape.fields := by
    rw [List.map_append, List.map_fst_zip (Nat.le_of_eq hlength), hp.fields]
    rfl
  have hread : ∀ part ∈ shape.opcode.zip op.opcode ++ parts,
      part.1.readFrom (shape.words op.opcode parts) = part.2 := by
    intro part hm
    apply Field.readFrom_packAll (hfields ▸ hs.1) hm
    · exact hs.2 part.1 (hfields ▸ List.mem_map_of_mem hm)
    · exact (List.mem_append.1 hm).elim (hopcode part) (hp.fits part)
  unfold decode?
  rw [Pattern.find?_admits hpattern (shape.length_words _ _) fun part hm => hread part (List.mem_append_left _ hm)]
  exact congrArg some (Prod.ext rfl (hp.decode _ fun part hm => hread part (List.mem_append_right _ hm)))

/-- The words of an instruction that is encoded without an error are decoded to its mnemonic and to what
its operands denote. -/
theorem encode_decode? {symbols : SymbolTable} (hw : symbols.WF) {s : Statement} (hm : s.operation ∈ Operation.table)
    (hi : s.operation.isInstruction = true) (he : (encode symbols s).effects.errors = []) :
    ∃ values, denotations? symbols s.operation.operands.operandForms s.operands = some values ∧
      decode? (encode symbols s).result = some (s.operation.mnemonic, values) := by
  obtain ⟨shape, hshape, hd⟩ := Operation.decodes hm hi
  have hknown : s.operation.Known := List.mem_cons_of_mem _ hm
  obtain ⟨-, -, hlength, hs⟩ := hknown.fits hshape
  unfold encode at he ⊢
  rw [hshape] at he ⊢
  simp only [encodeWords] at he ⊢
  split at he
  · rename_i hcount
    simp only [bind_effects, pure_effects, Effects.append_empty] at he
    obtain ⟨values, hvalues, hparts⟩ := placeOperands_denotes hw hcount.symm he
    rw [hd.2.1] at hvalues
    rw [if_pos hcount, bind_result, pure_result]
    exact ⟨values, hvalues, Shape.decode?_words hd hs hlength hparts⟩
  · -- a wrong number of operands is reported
    cases he

/-! ## Assembled instructions -/

theorem SymbolTable.Extends.word? {t t' : SymbolTable} (h : t.Extends t') {text : Text} {w : Word}
    (hw : t.word? text = some w) : t'.word? text = some w := by
  unfold SymbolTable.word? at hw ⊢
  obtain ⟨v, hv, rfl⟩ := Option.map_eq_some_iff.1 hw
  rw [h.value? hv, Option.map_some]

theorem SymbolTable.Extends.denotation? {t t' : SymbolTable} (h : t.Extends t') {form : OperandForm} {text : Text}
    {v : OperandValue} (hv : form.denotation? t text = some v) : form.denotation? t' text = some v := by
  cases form with
  | register | control => exact hv
  | constant =>
    obtain ⟨w, hw, rfl⟩ := Option.map_eq_some_iff.1 hv
    simp [OperandForm.denotation?, h.word? hw]
  | indexed =>
    obtain ⟨x, hcut, hv⟩ := Option.bind_eq_some_iff.1 hv
    obtain ⟨n, hn, hv⟩ := Option.bind_eq_some_iff.1 hv
    obtain ⟨w, hw, rfl⟩ := Option.map_eq_some_iff.1 hv
    simp [OperandForm.denotation?, hcut, hn, h.word? hw]

theorem SymbolTable.Extends.denotations? {t t' : SymbolTable} (h : t.Extends t') : ∀ {forms : List OperandForm}
    {texts : List Text} {values : List OperandValue}, denotations? t forms texts = some values →
      Sigma16.denotations? t' forms texts = some values
  | [], [], _, hv => hv
  | form :: forms, text :: texts, _, hvalues => by
    obtain ⟨v, hv, hrest⟩ := Option.bind_eq_some_iff.1 hvalues
    obtain ⟨values, hvs, rfl⟩ := Option.map_eq_some_iff.1 hrest
    simp [Sigma16.denotations?, h.denotation? hv, h.denotations? hvs]

/-- The operation of a statement is the one that its mnemonic names. -/
def Statement.Named (s : Statement) : Prop :=
  s.operation = .empty ∨ Operation.lookup s.parts.mnemonic = some s.operation

theorem Statement.withOperation_named {s : Statement} (h : s.operation = .empty) : s.withOperation.Named := by
  unfold withOperation
  split
  · exact Or.inl h
  · split
    · rename_i op hop
      exact Or.inr hop
    · exact Or.inl h

theorem Statement.read_named (line : Int) (address : Value) (source : Text) : (read line address source).Named := by
  unfold read
  split
  · exact withOperation_named rfl
  · exact Or.inl rfl

theorem layOutLine_named (c : Context) (line : Int) (source : Text) : (layOutLine c line source).2.Named := by
  obtain ⟨-, hparts, hoperation⟩ := layOutLine_read c line source
  unfold Statement.Named
  rw [hparts, hoperation]
  exact Statement.read_named line c.counter source

theorem ofSource_named (c : Context) (source : Text) : ∀ s ∈ (Assembly.ofSource c source).statements, s.Named :=
  (layOut_run (I := fun _ => True) (P := Statement.Named)
    (fun c line source _ _ => ⟨trivial, layOutLine_named c line source⟩)
    (Text.sourceLines source) c 1 (Text.sourceLines_notMem source) trivial).2

theorem Statement.Named.instruction {s : Statement} (h : s.Named) (hi : s.operation.isInstruction = true) :
    s.operation ∈ Operation.table ∧ s.operation.mnemonic = s.parts.mnemonic := by
  rcases h with h | h
  · rw [h] at hi
    cases hi
  · have hmnemonic := List.find?_some h
    exact ⟨List.mem_of_find?_eq_some h, eq_of_beq hmnemonic⟩

theorem ofSource_extends_assemble (name source : Text) :
    (Assembly.ofSource (.initial name) source).symbols.Extends (assemble name source).symbols := by
  have hlaid := tableAfter_layout name source (Nat.le_refl _)
  rw [contextAfter_all name source (Nat.le_refl _)] at hlaid
  rw [← hlaid, ← tableAfter_end name source (Nat.le_refl _)]
  exact tableAfter_extends name source (by omega)

/-- Instructions are decodable. The words of an instruction without an error, in any module, are decoded to
its mnemonic and to what its operands denote under the bindings of the module; and no other mnemonic, in
whatever module, has the same words. -/
theorem assemble_decode? (name source : Text) : ∀ s ∈ (assemble name source).statements,
    s.operation.isInstruction = true → s.errors = [] →
    (∃ values, denotations? (assemble name source).symbols s.operation.operands.operandForms s.operands = some values ∧
      decode? s.code = some (s.parts.mnemonic, values)) ∧
    ∀ name' source', ∀ s' ∈ (assemble name' source').statements, s'.operation.isInstruction = true → s'.errors = [] →
      s'.code = s.code → s'.parts.mnemonic = s.parts.mnemonic := by
  have decoded : ∀ name source, ∀ s ∈ (assemble name source).statements, s.operation.isInstruction = true →
      s.errors = [] → ∃ values,
        denotations? (assemble name source).symbols s.operation.operands.operandForms s.operands = some values ∧
        decode? s.code = some (s.parts.mnemonic, values) := by
    intro name source t ht hi he
    obtain ⟨s, hs, rfl⟩ := Assembly.mem_generate_statements.1 ht
    have hlaid := ofSource_laidOut (Context.initial_wf name) source
    obtain ⟨hm, hmnemonic⟩ := (ofSource_named (.initial name) source s hs).instruction hi
    -- the reports of layout come first, those of the encoding after them
    have hencode := (List.append_eq_nil_iff.1 he).2
    obtain ⟨values, hvalues, hdecode⟩ := encode_decode? hlaid.wf.symbols hm hi hencode
    rw [hlaid.code_eq hs, hdecode, hmnemonic]
    exact ⟨values, (ofSource_extends_assemble name source).denotations? hvalues, rfl⟩
  intro s hs hi he
  refine ⟨decoded name source s hs hi he, fun name' source' s' hs' hi' he' hcode => ?_⟩
  -- one decoder reads both
  obtain ⟨values, -, hdecode⟩ := decoded name source s hs hi he
  obtain ⟨values', -, hdecode'⟩ := decoded name' source' s' hs' hi' he'
  rw [hcode, hdecode] at hdecode'
  exact (congrArg Prod.fst (Option.some.inj hdecode')).symm

def extraction : Text := "x import m,f\n extract R1,x,b,R3,4\nb equ 15"

set_option maxRecDepth 4000 in
/-- A field that another module fills, and one with a name that is bound further down. -/
theorem assemble_decode?_extract : ∃ s ∈ (assemble [] extraction).statements,
    s.operation.isInstruction = true ∧ s.errors = [] ∧ decode? s.code =
      some (Text.ofString "extract", [.register 1, .constant 0, .constant 15, .register 3, .constant 4]) := by
  have hrun : (assemble [] extraction).statements[1]?.map (fun s =>
      (s.operation.isInstruction, s.errors, s.parts.mnemonic,
        denotations? (assemble [] extraction).symbols s.operation.operands.operandForms s.operands)) =
        some (true, [], Text.ofString "extract",
          some [.register 1, .constant 0, .constant 15, .register 3, .constant 4]) := by decide +kernel
  obtain ⟨s, hs, h⟩ := Option.map_eq_some_iff.1 hrun
  simp only [Prod.mk.injEq] at h
  obtain ⟨hi, he, hmnemonic, hvalues⟩ := h
  have hm := List.mem_of_getElem? hs
  obtain ⟨⟨values, hvalues', hdecode⟩, -⟩ := assemble_decode? _ _ s hm hi he
  rw [hvalues] at hvalues'
  cases hvalues'
  exact ⟨s, hm, hi, he, hmnemonic ▸ hdecode⟩

end Sigma16
