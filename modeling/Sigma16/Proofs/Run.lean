/-
What a run leaves behind, on every system that behaves as documented. A run with a valid mode for colours and a source
that it reads ends with status 0 if the module has no errors and all outputs are written, and with status 1 otherwise.
With errors or without, it writes the outputs up to the first that cannot be written, and reports every diagnostic.
A character device on the standard input is refused before it is read.
-/
import Sigma16.CommandLine.Run
import Sigma16.Proofs.FileTree
import Sigma16.Proofs.Report

namespace Sigma16

variable {W File : Type}

/-! ## What a run asks of the system -/

/-- The colour that a valid mode asks for. The system is asked only if the mode leaves it open. -/
def Host.color (host : Host (StateM W)) (mode : Text) (w : W) : Bool × W :=
  if mode = "auto" then host.showsColor.run w else (mode == "always", w)

/-- The source that arguments name is read: a file, or the standard input if that is no character device. -/
inductive Host.Reads (host : Host (StateM W)) : W → List Text → CommandLine.Source → W → Prop where
  | standardInput {w mid after : W} {content : Text} (hdevice : host.inputIsDevice.run w = (.ok false, mid))
    (h : host.readInput.run mid = (.ok content, after)) : Reads host w [] ⟨"out", "<stdin>:", content⟩ after
  | file {w after : W} {path content : Text} {rest : List Text}
    (h : (host.readFile path).run w = (.ok (.file content), after)) :
    Reads host w (path :: rest) ⟨Path.stem path, Path.baseName path ++ ":", content⟩ after

namespace Host

variable {host : Host (StateM W)} {view : FileView W File}

theorem Documented.color (hdoc : host.Documented view) (mode : Text) (w : W) : view.Same w (host.color mode w).2 := by
  unfold Host.color
  split
  · exact hdoc.showsColor w
  · exact .refl w []

theorem Documented.reads (hdoc : host.Documented view) {w after : W} {arguments : List Text}
    {source : CommandLine.Source} (h : host.Reads w arguments source after) : view.Same w after := by
  cases h with
  | @standardInput mid _ _ hdevice h =>
    have hasked := hdoc.inputIsDevice w
    have hread := hdoc.readInput mid
    rw [hdevice] at hasked
    rw [h] at hread
    exact hasked.trans hread
  | file h => exact hdoc.read h

end Host

namespace CommandLine

variable {host : Host (StateM W)}

/-! ## One part of a run after the other -/

theorem run_bind_of_run {α β : Type} {x : StateM W α} {w mid : W} {a : α} (h : x.run w = (a, mid))
    (f : α → StateM W β) : (x >>= f).run w = (f a).run mid := by
  rw [StateT.run_bind, h]
  rfl

theorem wantsColor_run {mode : Text} (h : mode = "always" ∨ mode = "never" ∨ mode = "auto") (w : W) :
    (wantsColor host mode).run w = pure (.ok (host.color mode w).1, (host.color mode w).2) := by
  rcases h with rfl | rfl | rfl <;> rfl

theorem readSource_run {w after : W} {arguments : List Text} {source : Source}
    (h : host.Reads w arguments source after) (color : Bool) :
    (readSource host color arguments).run w = pure (.ok source, after) := by
  cases h with
  | standardInput hdevice h =>
    unfold readSource readStandardInput
    rw [run_bind_of_run hdevice]
    exact run_bind_of_run h _
  | file h =>
    unfold readSource readSourceFile
    exact run_bind_of_run h _

theorem writeAll_writes : ∀ (files : List (Text × Text)) (w : W),
    host.Writes w files ((writeAll host files).run w).1 ((writeAll host files).run w).2
  | [], w => .done w
  | (path, content) :: files, w => by
    rcases hwrite : (host.writeFile path content).run w with ⟨written, mid⟩
    rw [writeAll, run_bind_of_run hwrite]
    cases written with
    | ok _ => exact .next hwrite (writeAll_writes files mid)
    | error e => exact .stop hwrite

/-! ## A whole run -/

/-- What is logged about a module, entry by entry. -/
theorem flatMap_reports (a : Assembly) (color : Bool) (entry : Text → Text) : (reports a color).flatMap entry =
    a.statements.flatMap (fun s => s.errors.flatMap fun e => entry (Report.diagnostic e s.source color)) ++
      if a.errorCount = 0 then [] else entry (Text.natural a.errorCount ++ " errors detected") := by
  have hcount : (if a.errorCount = 0 then [] else [Text.natural a.errorCount ++ " errors detected"]).flatMap entry =
      if a.errorCount = 0 then [] else entry (Text.natural a.errorCount ++ " errors detected") := by
    split
    · rfl
    · exact List.flatMap_singleton _ _
  unfold reports
  simp only [List.flatMap_append, List.flatMap_assoc, List.flatMap_map, hcount]

/-- The result of a run, by what came of writing the outputs. -/
def result (o : Options) (a : Assembly) (log : Text) (entry : Text → Text) : Option PathError → RunResult
  | some e => { status := 1, log := log ++ entry "Error writing output file" ++ entry e.message }
  | none => { status := if a.errorCount = 0 then 0 else 1, output := if o.symbols then a.symbolListing else [], log }

theorem result_status_le_one (o : Options) (a : Assembly) (log : Text) (entry : Text → Text)
    (failure : Option PathError) : (result o a log entry failure).status ≤ 1 := by
  cases failure with
  | none =>
    show (if a.errorCount = 0 then 0 else 1) ≤ 1
    split <;> decide
  | some => exact Nat.le_refl 1

theorem result_status_eq_zero {o : Options} {a : Assembly} {log : Text} {entry : Text → Text}
    {failure : Option PathError} :
    (result o a log entry failure).status = 0 ↔ a.errorCount = 0 ∧ failure = none := by
  cases failure <;> simp [result]

theorem process_run (o : Options) (color : Bool) (source : Source) (w : W) :
    let base := if o.out.isEmpty then source.base else o.out
    let a := assemble (Path.baseName base) source.content
    let dump := if o.dump then a.statements.flatMap fun s => logEntry [] (host.pretty color s) else []
    let entry := logEntry (Report.heading source.title color)
    (process host o color source).run w =
      pure (result o a (dump ++ (reports a color).flatMap entry) entry ((writeAll host (outputs o base a)).run w).1,
        ((writeAll host (outputs o base a)).run w).2) := by
  intro base a dump entry
  rcases hwritten : (writeAll host (outputs o base a)).run w with ⟨failure, after⟩
  unfold process
  rw [run_bind_of_run hwritten]
  cases failure <;> rfl

theorem run_eq {o : Options} (hmode : o.color = "always" ∨ o.color = "never" ∨ o.color = "auto") {w read : W}
    {source : Source} (hsource : host.Reads (host.color o.color w).2 o.arguments source read) :
    (run host o).run w = (process host o (host.color o.color w).1 source).run read := by
  unfold run
  rw [run_bind_of_run (wantsColor_run hmode w)]
  exact run_bind_of_run (readSource_run hsource _) _

theorem refuse_noInput : refuse 2 UsageError.noInput.message =
    { status := 2, output := [], log := "no source file given and stdin is a terminal\n" } := by decide +kernel

/-- A character device on the standard input is refused, whatever can be read from it. -/
theorem run_device {o : Options} (hmode : o.color = "always" ∨ o.color = "never" ∨ o.color = "auto") {w after : W}
    (harguments : o.arguments = []) (hdevice : host.inputIsDevice.run (host.color o.color w).2 = (.ok true, after)) :
    (run host o).run w =
      ({ status := 2, output := [], log := "no source file given and stdin is a terminal\n" }, after) := by
  rw [← refuse_noInput]
  have hrefused : (readSource host (host.color o.color w).1 o.arguments).run (host.color o.color w).2 =
      (.error (refuse 2 UsageError.noInput.message), after) := by
    rw [harguments, readSource, readStandardInput]
    exact run_bind_of_run hdevice _
  unfold run
  rw [run_bind_of_run (wantsColor_run hmode w)]
  exact run_bind_of_run hrefused _

/-- A run with a valid mode for colours. If it reads its source, its status is 0 if and only if the module has no
errors and every output is written, and else 1. It touches no file but the outputs. If all are written, with errors
or without, they hold the texts of the module, and the symbols are shown if they are wanted; if one cannot be
written, those behind it are not tried. The log has every diagnostic, in the order of the lines, and their number if
there are any. If there is no file to read and the standard input is a character device, be it a terminal or not, it is
not read, the status is 2 and nothing is written. -/
theorem run_outcome (host : Host (StateM W)) (view : FileView W File) (hdoc : host.Documented view) (o : Options)
    (w : W) (hmode : o.color = "always" ∨ o.color = "never" ∨ o.color = "auto") :
    (∀ source read, host.Reads (host.color o.color w).2 o.arguments source read →
      let color := (host.color o.color w).1
      let base := if o.out = [] then source.base else o.out
      let a := assemble (Path.baseName base) source.content
      let files := (base ++ ".obj.txt", a.objectText) ::
        (if o.metadata then [(base ++ ".md.txt", a.metadataText)] else []) ++
        if o.listing then [(base ++ ".lst.txt", a.listingText)] else []
      let entry (text : Text) : Text :=
        (if color then "\x1b[1m" ++ source.title ++ "\x1b[0m" else source.title) ++ text ++ "\n"
      let log (shown : Statement → Diagnostic → Text) : Text :=
        (if o.dump then a.statements.flatMap fun s => (host.pretty color s ++ "\n" : Text) else []) ++
        (a.statements.flatMap (fun s => s.errors.flatMap fun e => entry (shown s e)) ++
        if a.errorCount = 0 then [] else entry (Text.natural a.errorCount ++ " errors detected"))
      ∃ result after failure shown,
        (run host o).run w = (result, after) ∧ host.Writes read files failure after ∧
        (∀ s ∈ a.statements, ∀ e ∈ s.errors, Report.Shows e s.source color (shown s e)) ∧
        result.status ≤ 1 ∧ (result.status = 0 ↔ a.errorCount = 0 ∧ failure = none) ∧
        view.SameBut (files.map (·.1)) w after ∧
        (failure = none → view.Updated w after files ∧ result.log = log shown ∧
          result.output = if o.symbols then a.symbolListing else []) ∧
        ∀ e, failure = some e → result.output = [] ∧
          result.log = log shown ++ entry "Error writing output file" ++ entry e.message) ∧
    ∀ after, o.arguments = [] → host.inputIsDevice.run (host.color o.color w).2 = (.ok true, after) →
      view.Same w after ∧ (run host o).run w =
        ({ status := 2, output := [], log := "no source file given and stdin is a terminal\n" }, after) := by
  constructor
  · intro source read hsource color base a files entry log
    have hbase : (if o.out.isEmpty then source.base else o.out) = base := by simp only [base, List.isEmpty_iff]
    have hwrites : host.Writes read files _ _ := writeAll_writes files read
    have hrun : (run host o).run w = (result o a (log fun s e => Report.diagnostic e s.source color) entry
        ((writeAll host files).run read).1, ((writeAll host files).run read).2) := by
      rw [run_eq hmode hsource]
      refine (process_run o color source read).trans ?_
      rw [hbase, flatMap_reports, Report.heading_eq]
      rfl
    have hread : view.Same w read := (hdoc.color o.color w).trans (hdoc.reads hsource)
    generalize (writeAll host files).run read = r at hrun hwrites
    obtain ⟨failure, after⟩ := r
    refine ⟨_, _, failure, _, hrun, hwrites, fun s _ e _ => Report.diagnostic_shows e s.source color,
      result_status_le_one o a _ entry failure, result_status_eq_zero, hread.trans (hwrites.sameBut hdoc), ?_, ?_⟩
    · rintro rfl
      exact ⟨(hwrites.updated hdoc rfl).of_same hread, rfl, rfl⟩
    · rintro e rfl
      exact ⟨rfl, rfl⟩
  · intro after harguments hdevice
    have hasked := hdoc.inputIsDevice (host.color o.color w).2
    rw [hdevice] at hasked
    exact ⟨(hdoc.color o.color w).trans hasked, run_device hmode harguments hdevice⟩

set_option maxRecDepth 4000 in
/-- A module with an error, outside the working directory, is written and listed beside its source. -/
theorem run_outcome_error :
    let tree : FileTree := {
      entries := [(["home"], .directory), (["src"], .directory), (["src", "a.asm.txt"], .file " data x")]
      workingDirectory := ["home"] }
    let a := assemble "a" " data x"
    ∃ result after,
      (run (FileTree.host {} false fun _ _ => []) { listing := true, arguments := ["../src/a.asm.txt"] }).run tree =
        (result, after) ∧
      result.status = 1 ∧ result.output = [] ∧ a.errorCount = 1 ∧
      FileTree.view.content after (some ["src", "a.obj.txt"]) = some a.objectText ∧
      FileTree.view.content after (some ["src", "a.md.txt"]) = some a.metadataText ∧
      FileTree.view.content after (some ["src", "a.lst.txt"]) = some a.listingText ∧
      FileTree.view.content after (some ["src", "a.asm.txt"]) = some " data x" := by
  intro tree a
  let host := FileTree.host {} false fun _ _ => []
  let files : List (Text × Text) := [("../src/a.obj.txt", a.objectText), ("../src/a.md.txt", a.metadataText),
    ("../src/a.lst.txt", a.listingText)]
  have herrors : a.errorCount = 1 := by decide +kernel
  obtain ⟨result, after, failure, _, hrun, hwrites, -, hstatus, hzero, -, hwritten, -⟩ :=
    (run_outcome host FileTree.view (FileTree.host_documented {} false _)
      { listing := true, arguments := ["../src/a.asm.txt"] } tree (Or.inr (Or.inr rfl))).1 _ _ (.file rfl)
  have hall : ∃ last, host.Writes tree files none last := ⟨_, .next rfl (.next rfl (.next rfl (.done _)))⟩
  obtain ⟨last, hlast⟩ := hall
  have hnone : failure = none := (Host.Writes.unique hwrites hlast).1
  have hone : result.status ≠ 0 := by
    intro h
    have hzero : a.errorCount = 0 := (hzero.1 h).1
    rw [herrors] at hzero
    cases hzero
  have hupdated : FileTree.view.Updated tree after files := (hwritten hnone).1
  have houtput : result.output = [] := (hwritten hnone).2.2
  refine ⟨result, after, hrun, by omega, houtput, herrors, ?_, ?_, ?_, ?_⟩
  · exact hupdated.holds [] _ _ _ rfl (by decide)
  · exact hupdated.holds [_] _ _ _ rfl (by decide)
  · exact hupdated.holds [_, _] _ _ _ rfl (by decide)
  · exact hupdated.same.content (some ["src", "a.asm.txt"]) (by decide)

/-- The null device is no terminal and reads as an empty source, which assembles without an error, and is refused as
a terminal all the same. -/
theorem run_null_device :
    (FileTree.host .null false fun _ _ => []).readInput.run {} = (.ok [], {}) ∧ (assemble "out" []).errorCount = 0 ∧
    (run (FileTree.host .null false fun _ _ => []) {}).run {} =
      ({ status := 2, log := "no source file given and stdin is a terminal\n" }, {}) :=
  ⟨rfl, by decide +kernel, run_device (Or.inr (Or.inr rfl)) rfl rfl⟩

end CommandLine

end Sigma16
