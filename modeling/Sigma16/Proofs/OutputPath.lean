/-
Where outputs are written. The base of their paths is the path of the source without an ending, and an ending reaches
neither over a slash nor, unless it is that of sources, over a second dot. So the outputs stand in the directory of
the source, none of them under its name, and unless a link leads from one of them to it, the source holds after a run
what it held before.
-/
import Sigma16.Proofs.Line
import Sigma16.Proofs.Run

namespace Sigma16

/-! ## The ending of a path -/

namespace Path

/-- What a path loses to become the base of outputs: the extension of sources, or the last dot of its last name and
what follows. -/
inductive IsEnding : Text → Prop where
  | source : IsEnding sourceSuffix
  | nothing : IsEnding []
  | extension {t : Text} : '.'.toUInt8 ∉ t → '/'.toUInt8 ∉ t → IsEnding ('.'.toUInt8 :: t)

theorem IsEnding.notMem_slash {t : Text} (h : IsEnding t) : '/'.toUInt8 ∉ t := by
  cases h with
  | source => decide
  | nothing => exact List.not_mem_nil
  | extension _ hslash => exact fun h => (List.mem_cons.1 h).elim (by decide) hslash

/-- A path ends in its last name. -/
theorem lastPart_suffix (p : Text) : lastPart p <:+ p ∧ '/'.toUInt8 ∉ lastPart p := by
  unfold lastPart
  constructor
  · rw [← List.reverse_prefix, List.reverse_reverse]
    exact List.takeWhile_prefix _
  · rw [List.mem_reverse]
    intro h
    exact absurd (Text.mem_takeWhile _ h) (by simp)

theorem extension_suffix (p : Text) : extension p <:+ p ∧ IsEnding (extension p) := by
  obtain ⟨hsuffix, hslash⟩ := lastPart_suffix p
  unfold extension
  dsimp only
  split
  · rename_i hdot
    -- the last dot is the first one from behind
    have hmem : '.'.toUInt8 ∈ (lastPart p).reverse := List.mem_reverse.2 (List.contains_iff_mem.1 hdot)
    obtain ⟨after, before, hname, hafter⟩ := List.eq_append_cons_of_mem hmem
    have hlast : lastPart p = before.reverse ++ '.'.toUInt8 :: after.reverse := by
      rw [← List.reverse_reverse (lastPart p), hname]
      simp
    rw [hname, Text.takeWhile_append_stops (Text.bne_of_notMem hafter) (Text.stops_bne _ _)]
    rw [hlast] at hsuffix hslash
    refine ⟨(List.suffix_append _ _).trans hsuffix, .extension ?_ ?_⟩
    · exact fun h => hafter (List.mem_reverse.1 h)
    · exact fun h => hslash (List.mem_append_right _ (List.mem_cons_of_mem _ h))
  · exact ⟨List.nil_suffix, .nothing⟩

/-- A path is its stem and an ending. -/
theorem exists_ending (p : Text) : ∃ ending, IsEnding ending ∧ p = stem p ++ ending := by
  unfold stem
  dsimp only
  split
  · rename_i h
    exact ⟨_, .source, (List.suffix_iff_eq_append.1 (List.isSuffixOf_iff_suffix.1 h)).symm⟩
  · obtain ⟨hsuffix, hending⟩ := extension_suffix p
    exact ⟨_, hending, (List.suffix_iff_eq_append.1 hsuffix).symm⟩

/-- The extension of sources is taken off as a whole, whatever stands before it. -/
theorem stem_source (p : Text) : stem (p ++ sourceSuffix) = p := by
  have h : sourceSuffix.isSuffixOf (p ++ sourceSuffix) = true :=
    List.isSuffixOf_iff_suffix.2 (List.suffix_append _ _)
  unfold stem
  simp only [h, if_true, List.length_append, Nat.add_sub_cancel]
  exact List.take_left

example : stem "lib.v2/main" = "lib.v2/main" := by decide

end Path

/-! ## Outputs -/

namespace CommandLine

/-- What follows the base in the paths of the outputs. -/
def outputSuffixes : List Text := [".obj.txt", ".md.txt", ".lst.txt"]

/-- The outputs of a run are among those with these suffixes, in this order. -/
theorem outputs_sublist (o : Options) (base : Text) (a : Assembly) :
    ((outputs o base a).map (·.1)).Sublist (outputSuffixes.map (base ++ ·)) := by
  unfold outputs
  cases o.metadata <;> cases o.listing <;> simp [outputSuffixes]

/-- The suffix of an output is never an ending: each has two dots, and none is that of sources. -/
theorem ne_ending {suffix ending : Text} (h : suffix ∈ outputSuffixes) (hending : Path.IsEnding ending) :
    suffix ≠ ending := by
  rintro rfl
  have htwice : ∀ suffix ∈ outputSuffixes, '.'.toUInt8 ∈ suffix.tail := by decide
  cases hending with
  | source => exact absurd h (by decide)
  | nothing => exact absurd h (by decide)
  | extension hdot _ => exact hdot (htwice _ h)

/-! ## Files that a run touches -/

section Touched

variable {W File : Type} {host : Host (StateM W)} {view : FileView W File}

theorem wantsColor_same (hdoc : host.Documented view) (mode : Text) (w : W) :
    ∃ r after, (wantsColor host mode).run w = (r, after) ∧ view.Same w after := by
  unfold wantsColor
  split
  · exact ⟨_, w, rfl, .refl w []⟩
  · split
    · exact ⟨_, w, rfl, .refl w []⟩
    · split
      · exact ⟨_, _, rfl, hdoc.showsColor w⟩
      · exact ⟨_, w, rfl, .refl w []⟩

theorem readSourceFile_same (hdoc : host.Documented view) (color : Bool) (path : Text) (w : W) :
    ∃ r after, (readSourceFile host color path).run w = (r, after) ∧ view.Same w after ∧
      ∀ source, r = .ok source → source.base = Path.stem path := by
  rcases hfile : (host.readFile path).run w with ⟨r, after⟩
  have hread := hdoc.read hfile
  unfold readSourceFile
  rw [run_bind_of_run hfile]
  cases r with
  | error e => exact ⟨_, after, rfl, hread, nofun⟩
  | ok entry =>
    cases entry with
    | directory => exact ⟨_, after, rfl, hread, nofun⟩
    | file content =>
      refine ⟨_, after, rfl, hread, ?_⟩
      rintro source ⟨⟩
      rfl

theorem process_sameBut (hdoc : host.Documented view) {o : Options} (hout : o.out = []) (color : Bool)
    (source : Source) (w : W) :
    view.SameBut (outputSuffixes.map (source.base ++ ·)) w ((process host o color source).run w).2 := by
  rw [process_run]
  simp only [hout, List.isEmpty_nil, if_true]
  exact ((writeAll_writes _ w).sameBut hdoc).mono fun _ hpath => (outputs_sublist o _ _).subset hpath

/-- Whatever comes of a run that names its outputs after its source, it touches no file but these outputs. -/
theorem run_sameBut (hdoc : host.Documented view) {o : Options} {p : Text} (hp : o.arguments = [p]) (hout : o.out = [])
    (w : W) : view.SameBut (outputSuffixes.map (Path.stem p ++ ·)) w ((run host o).run w).2 := by
  obtain ⟨color, ready, hcolor, hready⟩ := wantsColor_same hdoc o.color w
  unfold run
  rw [run_bind_of_run hcolor]
  cases color with
  | error r => exact hready.sameBut _
  | ok color =>
    obtain ⟨source, read, hsource, hread, hbase⟩ := readSourceFile_same hdoc color p ready
    have hsame : view.Same w read := hready.trans hread
    dsimp only
    rw [hp, readSource, run_bind_of_run hsource]
    cases source with
    | error r => exact hsame.sameBut _
    | ok source =>
      have hwritten := process_sameBut hdoc hout color source read
      rw [hbase source rfl] at hwritten
      exact hsame.trans hwritten

end Touched

/-- Outputs stand beside the source and never in its place. The base of their paths is the path of the source without
an ending that has no slash, so it keeps the directory, and the extension of sources is all that a source loses. No
output path is that of the source, and no two are the same. So a run that names its outputs after its source leaves the
source as it was, whatever the run was asked for and whatever came of it, on every system that behaves as documented,
unless the system has linked an output path with the source. -/
theorem outputs_beside_source (p q : Text) :
    (∃ ending, p = Path.stem p ++ ending ∧ '/'.toUInt8 ∉ ending) ∧
    (∀ suffix ∈ outputSuffixes, Path.stem p ++ suffix ≠ p ∧ '/'.toUInt8 ∉ suffix) ∧
    (outputSuffixes.map (Path.stem p ++ ·)).Nodup ∧
    Path.stem (q ++ ".asm.txt") = q ∧
    (∀ (o : Options) (a : Assembly),
      ((outputs o (Path.stem p) a).map (·.1)).Sublist (outputSuffixes.map (Path.stem p ++ ·))) ∧
    ∀ {W File : Type} (host : Host (StateM W)) (view : FileView W File) (o : Options) (w : W),
      host.Documented view → o.arguments = [p] → o.out = [] →
      (∀ suffix ∈ outputSuffixes, view.file w (Path.stem p ++ suffix) ≠ view.file w p) →
        view.content ((run host o).run w).2 (view.file w p) = view.content w (view.file w p) := by
  obtain ⟨ending, hending, hp⟩ := Path.exists_ending p
  refine ⟨⟨ending, hp, hending.notMem_slash⟩, ?_, ?_, Path.stem_source q, fun o a => outputs_sublist o _ a, ?_⟩
  · intro suffix hsuffix
    have hslash : ∀ suffix ∈ outputSuffixes, '/'.toUInt8 ∉ suffix := by decide
    refine ⟨fun hsame => ?_, hslash suffix hsuffix⟩
    exact ne_ending hsuffix hending (List.append_cancel_left (hsame.trans hp))
  · have hnodup : outputSuffixes.Nodup := by decide
    exact List.pairwise_map.2 (hnodup.imp fun hne hsame => hne (List.append_cancel_left hsame))
  · intro W File host view o w hdoc hargument hout hlinks
    apply (run_sameBut hdoc hargument hout w).content
    rw [List.forall_mem_map]
    exact hlinks

set_option maxRecDepth 4000 in
/-- A source that has the name of an output. -/
theorem outputs_beside_source_object :
    let tree : FileTree := { entries := [(["d.d"], .directory), (["d.d", "x.obj.txt"], .file " data 1")] }
    let after := ((run (FileTree.host {} false fun _ _ => [])
      { listing := true, arguments := ["d.d/x.obj.txt"] }).run tree).2
    FileTree.view.content after (some ["d.d", "x.obj.txt"]) = some " data 1" ∧
    FileTree.view.content after (some ["d.d", "x.obj.obj.txt"]) = some (assemble "x.obj" " data 1").objectText := by
  intro tree after
  obtain ⟨-, -, -, -, -, hkept⟩ := outputs_beside_source "d.d/x.obj.txt" []
  exact ⟨hkept (FileTree.host {} false fun _ _ => []) FileTree.view _ tree (FileTree.host_documented {} false _) rfl rfl
    (by decide), by decide +kernel⟩

end CommandLine

end Sigma16
