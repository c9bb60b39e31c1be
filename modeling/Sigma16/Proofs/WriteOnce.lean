/-
The symbol table as a map that is written once, with a log of uses. Calls on a new table define names, look them up and
note their uses, in any order and for any names. What a name is bound to then follows from the calls alone: the first
binding that was defined under it, with the lines of the uses that were noted since. Later definitions fail, uses of
names without a binding are lost, and no call touches another name. The sorted bindings are the bound names, once each.
-/
import Sigma16.Proofs.Binding

namespace Sigma16

/-- A binding with further uses. -/
def Binding.usedAt (b : Binding) (lines : List Int) : Binding := { b with uses := b.uses ++ lines }

@[simp] theorem Binding.usedAt_nil (b : Binding) : b.usedAt [] = b := by
  unfold usedAt
  rw [List.append_nil]

@[simp] theorem Binding.usedAt_usedAt (b : Binding) (xs ys : List Int) :
    (b.usedAt xs).usedAt ys = b.usedAt (xs ++ ys) := by
  unfold usedAt
  rw [List.append_assoc]

/-! ## Calls -/

/-- A call on a symbol table. -/
inductive SymbolCall where
  | define (b : Binding)
  | lookup (name : Text)
  | use (name : Text) (line : Int)
  deriving DecidableEq, Repr

/-- What a call answers. -/
inductive SymbolAnswer where
  /-- The message if the name is bound already. -/
  | defined (failure : Option Text)
  | found (binding : Option Binding)
  /-- Whether the name is bound. -/
  | used (bound : Bool)
  deriving DecidableEq, Repr

namespace SymbolCall

/-- The name that a call is about. -/
def name : SymbolCall → Text
  | .define b => b.name
  | .lookup name | .use name _ => name

/-- The binding that a call asks for under a name. -/
def definition? (n : Text) : SymbolCall → Option Binding
  | .define b => if b.name = n then some b else none
  | _ => none

/-- The line at which a call uses a name, if it does. -/
def useOf (n : Text) : SymbolCall → List Int
  | .use name line => if name = n then [line] else []
  | _ => []

/-- The lines at which calls use a name, in order. -/
def usesOf (n : Text) (calls : List SymbolCall) : List Int := calls.flatMap (useOf n)

/-- Do calls define a name? -/
def Defines (calls : List SymbolCall) (n : Text) : Prop := ∃ b, define b ∈ calls ∧ b.name = n

theorem definition?_eq_some {n : Text} {c : SymbolCall} {b : Binding} :
    definition? n c = some b ↔ c = define b ∧ b.name = n := by
  unfold definition?
  split
  · rename_i new
    constructor
    · intro h
      split at h
      · cases h
        exact ⟨rfl, ‹_›⟩
      · cases h
    · rintro ⟨h, hname⟩
      cases h
      rw [if_pos hname]
  · rename_i hne
    constructor
    · intro h
      cases h
    · rintro ⟨rfl, -⟩
      exact absurd rfl (hne b)

theorem definition?_eq_none {calls : List SymbolCall} {n : Text} (h : ¬ Defines calls n) :
    ∀ c ∈ calls, definition? n c = none := by
  intro c hc
  rw [Option.eq_none_iff_forall_ne_some]
  intro b hb
  obtain ⟨rfl, hname⟩ := definition?_eq_some.1 hb
  exact h ⟨b, hc, hname⟩

/-- Of the calls that define a name one is the first. -/
theorem Defines.first {calls : List SymbolCall} {n : Text} (h : Defines calls n) :
    ∃ before d later, calls = before ++ define d :: later ∧ ¬ Defines before n ∧ d.name = n := by
  obtain ⟨b, hb, hname⟩ := h
  have hfound : (calls.find? fun c => (definition? n c).isSome).isSome = true := by
    rw [List.find?_isSome]
    exact ⟨define b, hb, Option.isSome_iff_exists.2 ⟨b, definition?_eq_some.2 ⟨rfl, hname⟩⟩⟩
  obtain ⟨c, hc⟩ := Option.isSome_iff_exists.1 hfound
  obtain ⟨hfirst, before, later, hcalls, hbefore⟩ := List.find?_eq_some_iff_append.1 hc
  obtain ⟨d, hd⟩ := Option.isSome_iff_exists.1 hfirst
  obtain ⟨rfl, hname⟩ := definition?_eq_some.1 hd
  refine ⟨before, d, later, hcalls, ?_, hname⟩
  rintro ⟨d', hd', hname'⟩
  have hnone := hbefore _ hd'
  rw [definition?_eq_some.2 ⟨rfl, hname'⟩] at hnone
  cases hnone

end SymbolCall

namespace SymbolTable

open SymbolCall

/-- The table after a call, and the answer. -/
def call (t : SymbolTable) : SymbolCall → SymbolTable × SymbolAnswer
  | .define b =>
    match t.define? b with
    | some t' => (t', .defined none)
    | none => (t, .defined (some duplicateMessage))
  | .lookup name => (t, .found (t.lookup name))
  | .use name line => (t.use line name, .used (t.contains name))

/-- The table after calls. -/
def run (t : SymbolTable) (calls : List SymbolCall) : SymbolTable := calls.foldl (fun t c => (t.call c).1) t

/-! ## One call -/

/-- A definition of a bound name fails and changes nothing. -/
theorem call_define_bound {t : SymbolTable} {b : Binding} (h : t.contains b.name = true) :
    t.call (.define b) = (t, .defined (some duplicateMessage)) := by
  simp only [call, define?, h, if_true]

theorem call_define_free {t : SymbolTable} {b : Binding} (h : t.contains b.name = false) :
    t.call (.define b) = (⟨t.bindings ++ [b]⟩, .defined none) := by
  simp only [call, define?_of_lookup (contains_eq_false.1 h)]

theorem lookup_use (t : SymbolTable) (line : Int) (name n : Text) :
    (t.use line name).lookup n = (t.lookup n).map (·.usedAt (useOf n (.use name line))) := by
  have huse : (t.use line name).lookup n = (t.useAll line [name]).lookup n := rfl
  rw [huse, lookup_useAll]
  cases hb : t.lookup n with
  | none => rfl
  | some b =>
    have hname := lookup_name hb
    by_cases h : name = n
    · simp [useOf, Binding.usedAt, hname, h]
    · have hne : ¬ name = b.name := fun e => h (e.trans hname)
      simp [useOf, h, hne]

/-- Noting the use of a name that is not bound changes nothing. -/
theorem use_of_free {t : SymbolTable} {name : Text} (h : t.contains name = false) (line : Int) :
    t.use line name = t := by
  have hfree := List.find?_eq_none.1 (contains_eq_false.1 h)
  have hsame : (t.use line name).bindings = t.bindings := by
    rw [use_bindings]
    conv => rhs; rw [← List.map_id t.bindings]
    exact List.map_congr_left fun b hb => if_neg (hfree b hb)
  exact congrArg SymbolTable.mk hsame

/-- What one call does to a name: a bound name keeps its binding but for further uses, and a free name is bound by a
definition only. -/
theorem lookup_call (t : SymbolTable) (c : SymbolCall) (n : Text) :
    (t.call c).1.lookup n = ((t.lookup n).map (·.usedAt (useOf n c))).or (definition? n c) := by
  cases c with
  | lookup name => simp [call, useOf, definition?]
  | use name line => simp [call, lookup_use, definition?]
  | define new =>
    cases hbound : t.contains new.name with
    | true =>
      rw [call_define_bound hbound]
      obtain ⟨b, hb⟩ := contains_eq_true.1 hbound
      by_cases h : new.name = n
      · simp [← h, hb, useOf]
      · simp [useOf, definition?, h]
    | false =>
      rw [call_define_free hbound]
      unfold lookup
      rw [List.find?_append]
      by_cases h : new.name = n
      · simp [useOf, definition?, h]
      · simp [useOf, definition?, h]

/-- A call about another name changes nothing. -/
theorem lookup_call_of_ne (t : SymbolTable) {c : SymbolCall} {n : Text} (h : c.name ≠ n) :
    (t.call c).1.lookup n = t.lookup n := by
  have huses : useOf n c = [] := by
    cases c with
    | use name line => exact if_neg h
    | _ => rfl
  have hdefinition : definition? n c = none := by
    cases c with
    | define b => exact if_neg h
    | _ => rfl
  rw [lookup_call, huses, hdefinition]
  simp

/-! ## All calls -/

theorem run_cons (t : SymbolTable) (c : SymbolCall) (calls : List SymbolCall) :
    t.run (c :: calls) = (t.call c).1.run calls := rfl

theorem run_append (t : SymbolTable) (xs ys : List SymbolCall) : t.run (xs ++ ys) = (t.run xs).run ys :=
  List.foldl_append

/-- A bound name stays bound, with the uses that are noted. -/
theorem lookup_run_bound {n : Text} : ∀ {calls : List SymbolCall} {t : SymbolTable} {b : Binding},
    t.lookup n = some b → (t.run calls).lookup n = some (b.usedAt (usesOf n calls))
  | [], t, b, h => by rw [usesOf, List.flatMap_nil, Binding.usedAt_nil]; exact h
  | c :: calls, t, b, h => by
    have hstep : (t.call c).1.lookup n = some (b.usedAt (useOf n c)) := by
      rw [lookup_call, h]
      rfl
    rw [run_cons, lookup_run_bound hstep, Binding.usedAt_usedAt]
    rfl

/-- A name that is free and not defined stays free. -/
theorem lookup_run_free {n : Text} : ∀ {calls : List SymbolCall} {t : SymbolTable},
    (∀ c ∈ calls, definition? n c = none) → t.lookup n = none → (t.run calls).lookup n = none
  | [], _, _, h => h
  | c :: calls, t, hnone, h => by
    have hstep : (t.call c).1.lookup n = none := by
      rw [lookup_call, h, hnone c List.mem_cons_self]
      rfl
    rw [run_cons]
    exact lookup_run_free (fun c' hc' => hnone c' (List.mem_cons_of_mem c hc')) hstep

theorem lookup_run_of_first {n : Text} {before later : List SymbolCall} {d : Binding} (hbefore : ¬ Defines before n)
    (hname : d.name = n) :
    (empty.run (before ++ .define d :: later)).lookup n = some (d.usedAt (usesOf n later)) := by
  have hfree : (empty.run before).lookup n = none := lookup_run_free (definition?_eq_none hbefore) rfl
  have hbound : ((empty.run before).call (.define d)).1.lookup n = some d := by
    rw [lookup_call, hfree, definition?_eq_some.2 ⟨rfl, hname⟩]
    rfl
  rw [run_append, run_cons]
  exact lookup_run_bound hbound

/-- What a name is bound to after calls on a new table. -/
theorem lookup_run {n : Text} {calls : List SymbolCall} {b : Binding} : (empty.run calls).lookup n = some b ↔
    ∃ before d later, calls = before ++ .define d :: later ∧ ¬ Defines before n ∧ d.name = n ∧
      b = d.usedAt (usesOf n later) := by
  constructor
  · intro h
    by_cases hdefines : Defines calls n
    · obtain ⟨before, d, later, rfl, hbefore, hname⟩ := hdefines.first
      rw [lookup_run_of_first hbefore hname] at h
      exact ⟨before, d, later, rfl, hbefore, hname, (Option.some.inj h).symm⟩
    · rw [lookup_run_free (definition?_eq_none hdefines) rfl] at h
      cases h
  · rintro ⟨before, d, later, rfl, hbefore, hname, rfl⟩
    exact lookup_run_of_first hbefore hname

theorem contains_run {n : Text} {calls : List SymbolCall} : (empty.run calls).contains n = true ↔ Defines calls n := by
  rw [contains_eq_true]
  constructor
  · rintro ⟨b, hb⟩
    obtain ⟨before, d, later, rfl, -, hname, -⟩ := lookup_run.1 hb
    exact ⟨d, List.mem_append_right _ List.mem_cons_self, hname⟩
  · intro h
    obtain ⟨before, d, later, rfl, hbefore, hname⟩ := h.first
    exact ⟨_, lookup_run_of_first hbefore hname⟩

/-! ## The sorted bindings -/

/-- No name is bound twice. -/
def Distinct (t : SymbolTable) : Prop := (t.bindings.map (·.name)).Nodup

theorem Distinct.call {t : SymbolTable} (h : t.Distinct) (c : SymbolCall) : (t.call c).1.Distinct := by
  cases c with
  | lookup name => exact h
  | use name line =>
    show ((t.use line name).bindings.map (·.name)).Nodup
    have hnames : (t.use line name).bindings.map (·.name) = t.bindings.map (·.name) := by
      rw [use_bindings, List.map_map]
      apply List.map_congr_left
      intro b _
      show (if _ then _ else _ : Binding).name = b.name
      split <;> rfl
    rw [hnames]
    exact h
  | define b =>
    cases hbound : t.contains b.name with
    | true =>
      rw [call_define_bound hbound]
      exact h
    | false =>
      rw [call_define_free hbound]
      have hfree := List.find?_eq_none.1 (contains_eq_false.1 hbound)
      unfold Distinct
      rw [List.map_append, List.nodup_append]
      refine ⟨h, by simp, ?_⟩
      intro x hx y hy
      obtain ⟨b', hb', rfl⟩ := List.mem_map.1 hx
      rw [List.map_singleton, List.mem_singleton] at hy
      rw [hy]
      exact fun heq => hfree b' hb' (beq_iff_eq.2 heq)

theorem run_distinct : ∀ (calls : List SymbolCall) {t : SymbolTable}, t.Distinct → (t.run calls).Distinct
  | [], _, h => h
  | c :: calls, _, h => run_distinct calls (h.call c)

/-- A binding of a table is found under its name. -/
theorem Distinct.lookup {t : SymbolTable} (h : t.Distinct) {b : Binding} :
    b ∈ t.bindings ↔ t.lookup b.name = some b := by
  constructor
  · intro hb
    obtain ⟨before, later, hsplit⟩ := List.append_of_mem hb
    unfold Distinct at h
    rw [hsplit, List.map_append, List.map_cons, List.nodup_append] at h
    unfold SymbolTable.lookup
    rw [List.find?_eq_some_iff_append]
    refine ⟨beq_self_eq_true _, before, later, hsplit, fun b' hb' => ?_⟩
    have hne := h.2.2 _ (List.mem_map_of_mem hb') _ List.mem_cons_self
    simpa using hne
  · exact lookup_mem

/-- The names are sorted byte by byte, and none of them stands there twice. -/
theorem Distinct.sorted {t : SymbolTable} (h : t.Distinct) : (t.sorted.map (·.name)).Pairwise (· < ·) := by
  have hle : t.sorted.Pairwise fun x y => decide (x.name ≤ y.name) = true := by
    refine List.pairwise_mergeSort (fun x y z hxy hyz => ?_) (fun x y => ?_) _
    · exact decide_eq_true (List.le_trans (of_decide_eq_true hxy) (of_decide_eq_true hyz))
    · rw [Bool.or_eq_true, decide_eq_true_eq, decide_eq_true_eq]
      exact List.le_total _ _
  have hne : t.sorted.Pairwise fun x y => x.name ≠ y.name := by
    rw [← List.pairwise_map]
    exact ((List.mergeSort_perm t.bindings _).map _).nodup_iff.2 h
  rw [List.pairwise_map]
  exact (hle.and hne).imp fun hxy => Std.lt_of_le_of_ne (of_decide_eq_true hxy.1) hxy.2

/-! ## Any sequence of calls -/

/-- A symbol table is a map that is written once, with a log of uses. After any calls on a new table, a name is bound
exactly if a call defined it, and then to the first binding that was defined under it, whose uses are those that it was
defined with and the lines of all later uses in order. A definition of a bound name fails with a message and changes
nothing, and any other definition succeeds; noting a use answers whether the name is bound, and changes nothing if it is
not; looking a name up changes nothing; and a call about another name leaves the name as it is. The sorted bindings are
those that can be looked up, as many as the size of the table says, strictly increasing by the bytes of their names. -/
theorem run_write_once (calls : List SymbolCall) (n : Text) :
    let t := empty.run calls
    (∀ b, t.lookup n = some b ↔ ∃ before d later, calls = before ++ .define d :: later ∧ ¬ Defines before n ∧
      d.name = n ∧ b = { d with uses := d.uses ++ usesOf n later }) ∧
    (t.lookup n = none ↔ ¬ Defines calls n) ∧
    t.call (.lookup n) = (t, .found (t.lookup n)) ∧
    (∀ b, b.name = n →
      (Defines calls n → t.call (.define b) = (t, .defined (some duplicateMessage))) ∧
      (¬ Defines calls n → (t.call (.define b)).2 = .defined none ∧ (t.call (.define b)).1.lookup n = some b)) ∧
    (∀ line, ((t.call (.use n line)).2 = .used true ↔ Defines calls n) ∧
      (¬ Defines calls n → t.call (.use n line) = (t, .used false))) ∧
    (∀ c, c.name ≠ n → (t.call c).1.lookup n = t.lookup n) ∧
    (t.sorted.map (·.name)).Pairwise (· < ·) ∧ (n ∈ t.sorted.map (·.name) ↔ Defines calls n) ∧
    (∀ b, b ∈ t.sorted ↔ t.lookup b.name = some b) ∧ t.sorted.length = t.size := by
  intro t
  have hdistinct : t.Distinct := run_distinct calls List.nodup_nil
  have hbound : t.contains n = true ↔ Defines calls n := contains_run
  have hfree : t.contains n = false ↔ ¬ Defines calls n := by rw [← hbound, Bool.not_eq_true]
  have hmem (b : Binding) : b ∈ t.sorted ↔ t.lookup b.name = some b := mem_sorted.trans hdistinct.lookup
  refine ⟨fun b => lookup_run, contains_eq_false.symm.trans hfree, rfl, ?_, ?_, fun c hc => lookup_call_of_ne t hc,
    hdistinct.sorted, ?_, hmem, List.length_mergeSort _⟩
  · rintro b rfl
    refine ⟨fun h => call_define_bound (hbound.2 h), fun h => ?_⟩
    refine ⟨by rw [call_define_free (hfree.2 h)], ?_⟩
    rw [lookup_call, contains_eq_false.1 (hfree.2 h), definition?_eq_some.2 ⟨rfl, rfl⟩]
    rfl
  · intro line
    refine ⟨?_, fun h => ?_⟩
    · rw [← hbound]
      exact ⟨SymbolAnswer.used.inj, congrArg SymbolAnswer.used⟩
    · show (t.use line n, SymbolAnswer.used (t.contains n)) = _
      rw [use_of_free (hfree.2 h), hfree.2 h]
  · rw [← hbound, contains_eq_true, List.mem_map]
    constructor
    · rintro ⟨b, hb, rfl⟩
      exact ⟨b, (hmem b).1 hb⟩
    · rintro ⟨b, hb⟩
      have hname := lookup_name hb
      exact ⟨b, (hmem b).2 (hname ▸ hb), hname⟩

def defineTwice : List SymbolCall :=
  [.use "x" 1, .define ⟨"x", [], [], .const 5, 2, [9]⟩, .use "x" 3, .define ⟨"x", [], [], .const 6, 4, []⟩,
    .define ⟨"a", [], [], .const 7, 5, []⟩, .use "x" 6]

/-- A name that is used before it is defined, defined twice, and used again under another name's definition. -/
theorem run_write_once_twice : ∃ t : SymbolTable, t = empty.run defineTwice ∧
    t.lookup "x" = some ⟨"x", [], [], .const 5, 2, [9, 3, 6]⟩ ∧
    t.call (.define ⟨"x", [], [], .const 8, 7, []⟩) = (t, .defined (some duplicateMessage)) ∧
    t.call (.use "y" 8) = (t, .used false) ∧ t.sorted.length = 2 := by
  obtain ⟨hlookup, -, -, hdefine, -, -, -, -, -, hsize⟩ := run_write_once defineTwice "x"
  obtain ⟨-, -, -, -, huse, -⟩ := run_write_once defineTwice "y"
  refine ⟨_, rfl, (hlookup _).2 ⟨[.use "x" 1], _, _, rfl, ?_, rfl, ?_⟩, (hdefine _ rfl).1 ?_, (huse 8).2 ?_, hsize⟩
  · rintro ⟨b, hb, -⟩
    simp at hb
  · decide
  · exact ⟨⟨"x", [], [], .const 5, 2, [9]⟩, by simp [defineTwice], rfl⟩
  · rintro ⟨b, hb, hname⟩
    simp only [defineTwice, List.mem_cons, reduceCtorEq, false_or, SymbolCall.define.injEq, List.not_mem_nil,
      or_false] at hb
    rcases hb with rfl | rfl | rfl <;> exact absurd hname (by decide)

end SymbolTable

end Sigma16
