/-
Outcomes as logs: the result and the effects of a sequence come from those of its parts, and what
holds of the parts of a log holds of the whole. An outcome is sound when it reports no fault of the
assembler itself and when its notes for the linker hold nothing but names.
-/
import Sigma16.Field
import Sigma16.Line
import Sigma16.Outcome

namespace Sigma16

/-! ## Results and effects of a sequence -/

namespace Effects

theorem append_eq (x y : Effects) : x ++ y =
    ⟨x.errors ++ y.errors, x.uses ++ y.uses, x.relocations ++ y.relocations, x.imports ++ y.imports,
      x.exports ++ y.exports⟩ := rfl

@[simp] theorem append_errors (x y : Effects) : (x ++ y).errors = x.errors ++ y.errors := rfl

@[simp] theorem append_uses (x y : Effects) : (x ++ y).uses = x.uses ++ y.uses := rfl

@[simp] theorem append_relocations (x y : Effects) : (x ++ y).relocations = x.relocations ++ y.relocations := rfl

@[simp] theorem append_imports (x y : Effects) : (x ++ y).imports = x.imports ++ y.imports := rfl

@[simp] theorem append_exports (x y : Effects) : (x ++ y).exports = x.exports ++ y.exports := rfl

@[simp] theorem append_empty (x : Effects) : x ++ ({} : Effects) = x := by
  simp [append_eq]

@[simp] theorem empty_append (x : Effects) : ({} : Effects) ++ x = x := by
  simp [append_eq]

theorem append_assoc (x y z : Effects) : x ++ y ++ z = x ++ (y ++ z) := by
  simp [append_eq]

end Effects

namespace Outcome

variable {α β : Type}

@[simp] theorem pure_result (a : α) : (pure a : Outcome α).result = a := rfl

@[simp] theorem pure_effects (a : α) : (pure a : Outcome α).effects = {} := rfl

@[simp] theorem bind_result (x : Outcome α) (f : α → Outcome β) :
    (x >>= f).result = (f x.result).result := rfl

@[simp] theorem bind_effects (x : Outcome α) (f : α → Outcome β) :
    (x >>= f).effects = x.effects ++ (f x.result).effects := rfl

@[simp] theorem report_result (e : Diagnostic) (a : α) : (report e a).result = a := rfl

@[simp] theorem report_effects (e : Diagnostic) (a : α) : (report e a).effects = { errors := [e] } := rfl

@[simp] theorem use_effects (name : Text) : (use name).effects = { uses := [name] } := rfl

@[simp] theorem relocate_effects (address : Word) : (relocate address).effects = { relocations := [address] } := rfl

@[simp] theorem importField_effects (item : Import) : (importField item).effects = { imports := [item] } := rfl

@[simp] theorem offer_effects (item : Export) : (offer item).effects = { exports := [item] } := rfl

theorem ext {x y : Outcome α} (hr : x.result = y.result) (he : x.effects = y.effects) : x = y := by
  cases x; cases y; cases hr; cases he; rfl

theorem pure_bind_eq (a : α) (f : α → Outcome β) : (pure a >>= f) = f a := ext rfl (Effects.empty_append _)

theorem bind_assoc_eq {γ : Type} (x : Outcome α) (f : α → Outcome β) (g : β → Outcome γ) :
    (x >>= f >>= g) = (x >>= fun a => f a >>= g) := ext rfl (Effects.append_assoc _ _ _)

end Outcome

/-! ## Sound logs -/

/-- A diagnostic that blames the source, not the assembler. -/
def Diagnostic.BlamesSource (e : Diagnostic) : Prop := e.kind ≠ .internal

theorem Diagnostic.BlamesSource.of_kind {e : Diagnostic} (h : decide (e.kind = .internal) = false) :
    e.BlamesSource := of_decide_eq_false h

theorem Diagnostic.BlamesSource.single {e : Diagnostic} (h : decide (e.kind = .internal) = false) :
    ∀ d ∈ [e], d.BlamesSource := by
  intro d hd
  rw [List.mem_singleton.1 hd]
  exact .of_kind h

/-- A note for the linker made of names: of a module, of a symbol and of a field. -/
structure Import.Named (item : Import) : Prop where
  moduleName : Text.isName item.moduleName = true
  foreignName : Text.isName item.foreignName = true
  field : ∃ field : Field, item.field = field.name

/-- A log without internal errors whose records hold names only. -/
structure Effects.Sound (e : Effects) : Prop where
  errors : ∀ d ∈ e.errors, d.BlamesSource
  imports : ∀ i ∈ e.imports, i.Named
  exports : ∀ x ∈ e.exports, Text.isName x.name = true

namespace Effects.Sound

theorem empty : Sound {} := ⟨by simp, by simp, by simp⟩

theorem append {x y : Effects} (hx : x.Sound) (hy : y.Sound) : (x ++ y).Sound := by
  refine ⟨fun d hd => ?_, fun i hi => ?_, fun e he => ?_⟩
  · exact (List.mem_append.1 hd).elim (hx.errors d) (hy.errors d)
  · exact (List.mem_append.1 hi).elim (hx.imports i) (hy.imports i)
  · exact (List.mem_append.1 he).elim (hx.exports e) (hy.exports e)

theorem error {d : Diagnostic} (h : d.BlamesSource) : Sound { errors := [d] } :=
  ⟨by simpa using h, by simp, by simp⟩

theorem uses (names : List Text) : Sound { uses := names } := ⟨by simp, by simp, by simp⟩

theorem relocations (addresses : List Word) : Sound { relocations := addresses } :=
  ⟨by simp, by simp, by simp⟩

theorem imported {item : Import} (h : item.Named) : Sound { imports := [item] } :=
  ⟨by simp, by simpa using h, by simp⟩

theorem exported {item : Export} (h : Text.isName item.name = true) : Sound { exports := [item] } :=
  ⟨by simp, by simp, by simpa using h⟩

end Effects.Sound

namespace Outcome

variable {α β : Type}

/-- An outcome whose log is sound. -/
def Sound (o : Outcome α) : Prop := o.effects.Sound

theorem Sound.pure (a : α) : Sound (pure a : Outcome α) := Effects.Sound.empty

theorem Sound.bind {x : Outcome α} {f : α → Outcome β} (hx : x.Sound) (hf : (f x.result).Sound) :
    (x >>= f).Sound := Effects.Sound.append hx hf

theorem Sound.report {e : Diagnostic} (h : decide (e.kind = .internal) = false) (a : α) : (report e a).Sound :=
  Effects.Sound.error (.of_kind h)

end Outcome

end Sigma16
