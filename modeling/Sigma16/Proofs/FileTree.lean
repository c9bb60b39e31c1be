/-
A file system in memory behaves as systems document. Paths are followed through directories only, so a file that is
written changes neither where paths lead nor what other files hold.
-/
import Sigma16.CommandLine.FileTree
import Sigma16.Proofs.System

namespace Sigma16

def Entry.content? : Entry → Option Text
  | .file content => some content
  | .directory => none

namespace FileTree

/-! ## Entries -/

theorem find?_put_self (tree : FileTree) (names : List Text) (entry : Entry) :
    (tree.put names entry).find? names = some entry := by
  have hnone : (tree.entries.filter (·.1 != names)).find? (·.1 == names) = none := by
    rw [List.find?_eq_none]
    intro item hitem
    simpa using (List.mem_filter.1 hitem).2
  unfold find? put
  rw [List.find?_append, hnone]
  simp

theorem find?_put_of_ne {names other : List Text} (h : other ≠ names) (tree : FileTree) (entry : Entry) :
    (tree.put names entry).find? other = tree.find? other := by
  have hkept : (tree.entries.filter (·.1 != names)).find? (·.1 == other) = tree.entries.find? (·.1 == other) := by
    rw [List.find?_filter]
    congr 1
    funext item
    by_cases hitem : item.1 = other
    · simp [hitem, h]
    · simp [hitem]
  have hlast : [(names, entry)].find? (·.1 == other) = none := by simp [Ne.symm h]
  unfold find? put
  rw [List.find?_append, hkept, hlast, Option.or_none]

/-! ## Where paths lead -/

/-- The place of a file, which may be vacant. -/
def Place.names? : Place → Option (List Text)
  | .file names _ | .vacant names => some names
  | .directory => none

/-- Files by their names from the root; a path that leads nowhere or to a directory has none. -/
def view : FileView FileTree (Option (List Text)) where
  file tree path := (tree.resolve path).toOption.bind Place.names?
  content tree file := file.bind fun names => (tree.find? names).bind Entry.content?

theorem content_some (tree : FileTree) (names : List Text) :
    view.content tree (some names) = (tree.find? names).bind Entry.content? := rfl

theorem follow_cons (tree : FileTree) (here : List Text) (name : Text) (rest : List Text) :
    tree.follow here (name :: rest) =
      if name.isEmpty || name == "." then tree.follow here rest
      else if name == ".." then tree.follow here.dropLast rest
      else if maxName < name.length then .error .nameTooLong
      else
        match tree.find? (here ++ [name]) with
        | some .directory => tree.follow (here ++ [name]) rest
        | some (.file content) =>
          if rest.isEmpty then .ok (.file (here ++ [name]) content) else .error .notDirectory
        | none => if rest.isEmpty then .ok (.vacant (here ++ [name])) else .error .noEntry :=
  follow.eq_def tree here (name :: rest)

/-- Where a path leads to a file there is no directory. -/
theorem follow_names {tree : FileTree} {names : List Text} : ∀ {here parts : List Text},
    (tree.follow here parts).toOption.bind Place.names? = some names → tree.find? names ≠ some .directory
  | here, [], h => nomatch h
  | here, name :: rest, h => by
    rw [follow_cons] at h
    split at h
    · exact follow_names h
    · split at h
      · exact follow_names h
      · split at h
        · cases h
        · split at h
          · exact follow_names h
          · rename_i hfind
            split at h
            · cases h
              rw [hfind]
              exact nofun
            · cases h
          · rename_i hfind
            split at h
            · cases h
              rw [hfind]
              exact nofun
            · cases h

/-- A file in the place of anything but a directory does not change where paths lead. -/
theorem follow_put {tree : FileTree} {names : List Text} (hn : tree.find? names ≠ some .directory) (content : Text) :
    ∀ here parts, ((tree.put names (.file content)).follow here parts).toOption.bind Place.names? =
      (tree.follow here parts).toOption.bind Place.names?
  | here, [] => rfl
  | here, name :: rest => by
    rw [follow_cons, follow_cons]
    split
    · exact follow_put hn content here rest
    · split
      · exact follow_put hn content here.dropLast rest
      · split
        · rfl
        · by_cases hplace : here ++ [name] = names
          · rw [hplace, find?_put_self]
            -- an entry is there afterwards, and its name may have been vacant
            cases hfind : tree.find? names with
            | none => cases rest <;> rfl
            | some entry =>
              cases entry with
              | file => cases rest <;> rfl
              | directory => exact absurd hfind hn
          · rw [find?_put_of_ne hplace]
            cases tree.find? (here ++ [name]) with
            | none => rfl
            | some entry =>
              cases entry with
              | file => rfl
              | directory => exact follow_put hn content (here ++ [name]) rest

theorem file_eq_some {tree : FileTree} {path : Text} {names : List Text} (h : view.file tree path = some names) :
    tree.find? names ≠ some .directory := by
  unfold view resolve at h
  dsimp only at h
  split at h
  · cases h
  · split at h
    · cases h
    · split at h
      · cases h
      · exact follow_names h

theorem file_put {tree : FileTree} {names : List Text} (hn : tree.find? names ≠ some .directory) (content path : Text) :
    view.file (tree.put names (.file content)) path = view.file tree path := by
  unfold view resolve
  dsimp only
  split
  · rfl
  · split
    · rfl
    · split
      · rfl
      · exact follow_put hn content _ _

theorem content_put_self (tree : FileTree) (names : List Text) (content : Text) :
    view.content (tree.put names (.file content)) (some names) = some content := by
  rw [content_some, find?_put_self]
  rfl

theorem content_put_of_ne {names : List Text} {file : Option (List Text)} (h : some names ≠ file) (tree : FileTree)
    (content : Text) : view.content (tree.put names (.file content)) file = view.content tree file := by
  cases file with
  | none => rfl
  | some other =>
    have hne : other ≠ names := fun hsame => h (hsame ▸ rfl)
    rw [content_some, content_some, find?_put_of_ne hne]

/-! ## The system with these files -/

/-- A write goes to the file to which its path leads, and fails if there is none. -/
theorem write_cases (tree : FileTree) (path content : Text) :
    (∃ names, view.file tree path = some names ∧ tree.write path content = .ok (tree.put names (.file content))) ∨
      ∃ e, tree.write path content = .error e := by
  unfold write view
  dsimp only
  cases tree.resolve path with
  | error e => exact Or.inr ⟨e, rfl⟩
  | ok place =>
    cases place with
    | file names _ => exact Or.inl ⟨names, rfl, rfl⟩
    | vacant names => exact Or.inl ⟨names, rfl, rfl⟩
    | directory => exact Or.inr ⟨.isDirectory, rfl⟩

variable (input : StandardInput) (terminal : Bool) (pretty : Bool → Statement → Text)

theorem host_writeFile (path content : Text) (tree : FileTree) :
    ((host input terminal pretty).writeFile path content).run tree =
      pure (match tree.write path content with
        | .ok after => (.ok (), after)
        | .error e => (.error ⟨.opening, path, e⟩, tree)) := by
  unfold host
  rw [StateT.run_bind, StateT.run_get, pure_bind]
  cases tree.write path content <;> rfl

theorem host_documented : (host input terminal pretty).Documented view where
  readFile path tree := .refl tree []
  inputIsDevice tree := .refl tree []
  readInput tree := .refl tree []
  showsColor tree := .refl tree []
  writeFile path content tree := by
    rw [host_writeFile]
    rcases write_cases tree path content with ⟨names, hfile, hwrite⟩ | ⟨e, hwrite⟩
    · rw [hwrite]
      refine ⟨file_put (file_eq_some hfile) content, fun file hne => ?_⟩
      exact content_put_of_ne (hfile ▸ hne path List.mem_cons_self) tree content
    · rw [hwrite]
      exact .refl tree [path]
  writeFile_ok path content tree hok := by
    rw [host_writeFile] at hok ⊢
    rcases write_cases tree path content with ⟨names, hfile, hwrite⟩ | ⟨e, hwrite⟩
    · rw [hwrite, hfile]
      exact content_put_self tree names content
    · rw [hwrite] at hok
      cases hok

end FileTree

end Sigma16
