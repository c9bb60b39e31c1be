/-
What a system documents about files. Reading changes no file; a write, if it succeeds, makes its file hold the new
content, and even if it fails half-way it changes no other file. Nothing is said about which paths lead to the same
file: paths may start at the root or outside the working directory, and links may join them. From one write follows
what a sequence of writes leaves behind.
-/
import Sigma16.CommandLine.Host

namespace Sigma16

variable {W File : Type}

/-! ## Files of a system -/

/-- How files are seen in the states of a system: the file to which a path leads, which need not be there yet, and
what a file holds if it is there. -/
structure FileView (W File : Type) where
  file : W → Text → File
  content : W → File → Option Text

namespace FileView

variable (view : FileView W File)

/-- Paths lead to the same files, and all but the given ones hold the same. -/
structure SameBut (paths : List Text) (before after : W) : Prop where
  file : ∀ path, view.file after path = view.file before path
  content : ∀ f, (∀ path ∈ paths, view.file before path ≠ f) → view.content after f = view.content before f

/-- No file is changed. -/
def Same (before after : W) : Prop := view.SameBut [] before after

/-- Every given path leads to a file that holds the content given with it, unless a later one leads to the same file.
Nothing else is changed. -/
structure Updated (before after : W) (files : List (Text × Text)) : Prop where
  same : view.SameBut (files.map (·.1)) before after
  holds : ∀ earlier path content later, files = earlier ++ (path, content) :: later →
    (∀ f ∈ later, view.file before f.1 ≠ view.file before path) →
    view.content after (view.file before path) = some content

variable {view} {before mid after : W}

theorem SameBut.refl (w : W) (paths : List Text) : view.SameBut paths w w := ⟨fun _ => rfl, fun _ _ => rfl⟩

theorem SameBut.trans {paths paths' : List Text} (h : view.SameBut paths before mid)
    (h' : view.SameBut paths' mid after) : view.SameBut (paths ++ paths') before after := by
  constructor
  · intro path
    rw [h'.file, h.file]
  · intro f hf
    rw [List.forall_mem_append] at hf
    rw [h'.content f fun path hpath => h.file path ▸ hf.2 path hpath, h.content f hf.1]

theorem SameBut.mono {paths paths' : List Text} (h : view.SameBut paths before after)
    (hsub : ∀ path ∈ paths, path ∈ paths') : view.SameBut paths' before after :=
  ⟨h.file, fun f hf => h.content f fun path hpath => hf path (hsub path hpath)⟩

theorem Same.sameBut (h : view.Same before after) (paths : List Text) : view.SameBut paths before after :=
  SameBut.mono h fun _ hpath => absurd hpath List.not_mem_nil

theorem Updated.of_same {files : List (Text × Text)} (h : view.Same before mid)
    (hupdated : view.Updated mid after files) : view.Updated before after files := by
  refine ⟨h.trans hupdated.same, fun earlier path content later hfiles hlater => ?_⟩
  simp only [← h.file] at hlater ⊢
  exact hupdated.holds earlier path content later hfiles hlater

end FileView

/-! ## Calls of the system -/

namespace Host

/-- The documented behaviour of the calls. -/
structure Documented (host : Host (StateM W)) (view : FileView W File) : Prop where
  readFile : ∀ path w, view.Same w ((host.readFile path).run w).2
  inputIsDevice : ∀ w, view.Same w (host.inputIsDevice.run w).2
  readInput : ∀ w, view.Same w (host.readInput.run w).2
  showsColor : ∀ w, view.Same w (host.showsColor.run w).2
  /-- A write may fail after it has emptied its own file. -/
  writeFile : ∀ path content w, view.SameBut [path] w ((host.writeFile path content).run w).2
  writeFile_ok : ∀ path content w, ((host.writeFile path content).run w).1 = .ok () →
    view.content ((host.writeFile path content).run w).2 (view.file w path) = some content

/-- Files are written one after the other: all of them, or up to one that cannot be written. -/
inductive Writes (host : Host (StateM W)) : W → List (Text × Text) → Option PathError → W → Prop where
  | done (w : W) : Writes host w [] none w
  | next {w mid after : W} {path content : Text} {files : List (Text × Text)} {failure : Option PathError}
    (h : (host.writeFile path content).run w = (.ok (), mid)) (hrest : Writes host mid files failure after) :
    Writes host w ((path, content) :: files) failure after
  | stop {w after : W} {path content : Text} {files : List (Text × Text)} {e : PathError}
    (h : (host.writeFile path content).run w = (.error e, after)) :
    Writes host w ((path, content) :: files) (some e) after

variable {host : Host (StateM W)} {view : FileView W File} {w after : W} {files : List (Text × Text)}
  {failure : Option PathError}

theorem Documented.read (hdoc : host.Documented view) {path : Text} {r : Except PathError Entry}
    (h : (host.readFile path).run w = (r, after)) : view.Same w after := by
  have hread := hdoc.readFile path w
  rwa [h] at hread

theorem Documented.written (hdoc : host.Documented view) {path content : Text} {r : Except PathError Unit}
    (h : (host.writeFile path content).run w = (r, after)) : view.SameBut [path] w after := by
  have hwrite := hdoc.writeFile path content w
  rwa [h] at hwrite

/-- What comes of the writes depends on nothing else. -/
theorem Writes.unique {after' : W} {failure' : Option PathError} (h : host.Writes w files failure after)
    (h' : host.Writes w files failure' after') : failure = failure' ∧ after = after' := by
  induction h with
  | done => cases h' with
    | done => exact ⟨rfl, rfl⟩
  | next h _ ih => cases h' with
    | next hwrite hrest =>
      cases h.symm.trans hwrite
      exact ih hrest
    | stop hwrite => cases h.symm.trans hwrite
  | stop h => cases h' with
    | next hwrite => cases h.symm.trans hwrite
    | stop hwrite =>
      cases h.symm.trans hwrite
      exact ⟨rfl, rfl⟩

/-- Whatever comes of the writes, only their own files change. -/
theorem Writes.sameBut (hdoc : host.Documented view) (h : host.Writes w files failure after) :
    view.SameBut (files.map (·.1)) w after := by
  induction h with
  | done w => exact .refl w []
  | next h _ ih => exact (hdoc.written h).trans ih
  | stop h => exact (hdoc.written h).mono fun p hp => List.mem_singleton.1 hp ▸ List.mem_cons_self

theorem Writes.updated (hdoc : host.Documented view) (h : host.Writes w files failure after) (hall : failure = none) :
    view.Updated w after files := by
  refine ⟨h.sameBut hdoc, ?_⟩
  induction h with
  | done w => exact fun earlier _ _ _ hfiles => absurd hfiles (by simp)
  | stop => cases hall
  | @next w mid after path content files failure h hrest ih =>
    have hwrite := hdoc.written h
    have hok := hdoc.writeFile_ok path content w
    rw [h] at hok
    intro earlier p c later hfiles hlater
    cases earlier with
    | nil =>
      -- no later write goes to the file, so it holds what the first one wrote
      cases hfiles
      have hkept := (hrest.sameBut hdoc).content (view.file w path) (by
        rw [List.forall_mem_map]
        intro f hf
        rw [hwrite.file]
        exact hlater f hf)
      rw [hkept, hok rfl]
    | cons f earlier =>
      obtain ⟨-, rfl⟩ := List.cons.inj hfiles
      simp only [← hwrite.file] at hlater ⊢
      exact ih hall earlier p c later rfl hlater

end Host

end Sigma16
