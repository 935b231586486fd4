import JackTokens.Proofs.Paving
import JackTokens.Proofs.Restoring

/-!
# What the init command touches

The command `init` writes one file, the settings file of its target, and makes the directories that are missing on
the way there. This module says that it touches nothing else, however it ends (`InitRequest.execute_touches`).

**Saving.** A save makes directories and then writes. If either fails, the tree is paved and no more
(`Settings.paves_of_save_error`); otherwise it is filled with the settings (`Settings.fills_of_save`). A settings file
that has a second name shows the new settings under that name too.

**Leaving alone.** Without force, a settings file that the path leads to is left alone, with a warning
(`InitRequest.execute_skips`). The path leads to a settings file in the target exactly if the target may be searched
and the path is not too long (`FileTree.pathExists_join_iff`). If it does not, the file is not seen, but it cannot be
written either: it is left alone with an error, force or not (`InitRequest.execute_of_unseen`). What counts is where
the path leads before the run. A path that goes through a missing directory and back leads nowhere, so no settings
file is seen behind it; the directory is made, and then the path leads to a file that may have been there before.

**Permission.** A location is denied as a whole: what may be written may be read. So settings that were saved load;
with a file that may be written but not read, only what is in the file would follow.
-/

namespace JackTokens

/-! ## Directories above -/

namespace FileTree

variable {tree : FileTree} {path longer name : String} {location : Location}

theorem pathExists_iff : tree.pathExists path = true ↔ ∃ location, tree.locate path = .ok location := by
  unfold pathExists
  cases tree.locate path with
  | error cause => simp
  | ok location => simp

/-- Before the end of a path that leads to a directory, every slash stands behind a directory. -/
theorem isDirectory_above (directory : tree.isDirectory longer = true) (text : path.toList <+: longer.toList)
    (first : Path.names path <+: Path.names longer) (same : Path.isAbsolute path = Path.isAbsolute longer)
    (nonempty : path ≠ "") : tree.isDirectory path = true := by
  obtain ⟨location, located, found⟩ := isDirectory_iff.mp directory
  obtain ⟨checked, walked⟩ := walk_of_locate located
  obtain ⟨noNul, short, -⟩ := checkPath_eq_ok_iff.mp checked
  obtain ⟨more, whole⟩ := text
  obtain ⟨rest, names⟩ := first
  have passes : checkPath path = .ok () := by
    rw [← whole, Utf8.size_append] at short
    refine checkPath_eq_ok_iff.mpr ⟨fun nul => noNul ?_, by omega, ?_⟩
    · rw [← whole]
      exact List.mem_append_left _ nul
    · intro empty
      exact nonempty (String.toList_eq_nil_iff.mp empty)
  have start : tree.start path = tree.start longer := by
    unfold FileTree.start
    rw [same]
  rw [← names, walk_append] at walked
  obtain ⟨reached, walked, behind⟩ := bind_eq_ok_iff.mp walked
  have above : tree.entry? reached = some .directory := by
    cases rest with
    | nil =>
      cases behind
      exact found
    | cons name rest =>
      rw [walk] at behind
      exact (enter_eq_ok_iff.mp (check_bind_eq_ok_iff.mp behind).1).1
  refine isDirectory_iff.mpr ⟨reached, ?_, above⟩
  exact locate_eq_ok_iff.mpr ⟨passes, start ▸ walked, _, above, fun _ => rfl⟩

/-- A name is found only in a directory that may be searched. -/
theorem enter_of_pathExists_join (named : Path.IsName name) (located : tree.locate path = .ok location)
    (found : tree.pathExists (Path.join path name) = true) : tree.enter location = .ok () := by
  obtain ⟨place, below⟩ := pathExists_iff.mp found
  obtain ⟨checked, walked⟩ := walk_of_locate located
  have nonempty := (checkPath_eq_ok_iff.mp checked).2.2
  have joined := (walk_of_locate below).2
  rw [start_join named nonempty, Path.names_join named nonempty, walk_append, walked] at joined
  exact (walk_singleton_eq_ok_iff.mp joined).1

/-- **When a path leads to what is in a directory**: the directory may be searched, and the path is not too long. -/
theorem pathExists_join_iff (named : Path.IsName name) (located : tree.locate path = .ok location)
    (directory : tree.entry? location = some .directory) (there : tree.entry? (location ++ [name]) ≠ none) :
    tree.pathExists (Path.join path name) = true ↔
      tree.isDenied location = false ∧ Utf8.size (Path.join path name).toList ≤ longestPath := by
  obtain ⟨entry, found⟩ := Option.ne_none_iff_exists'.mp there
  have joined : tree.enter location = .ok () → (tree.pathExists (Path.join path name) = true ↔
      Utf8.size (Path.join path name).toList ≤ longestPath) := by
    intro entered
    rw [pathExists_iff, locate_join named located entered found]
    split
    · simp [*]
    · simp [Nat.not_lt.mp ‹_›]
  constructor
  · intro seen
    have entered := enter_of_pathExists_join named located seen
    exact ⟨(enter_eq_ok_iff.mp entered).2, (joined entered).mp seen⟩
  · rintro ⟨allowed, short⟩
    exact (joined (enter_eq_ok_iff.mpr ⟨directory, allowed⟩)).mpr short

end FileTree

/-! ## Saving -/

namespace Settings

variable {tree saved : FileTree} {path target : String} {settings : Settings} {result : Except CommandError Unit}
  {location : Location}

/-- **How a save goes**: the directory is made first, and then the file is written; what fails leaves the
directories that were made. -/
theorem save_cases (saving : save tree path settings = (saved, result)) :
    ∃ between, (∀ directory, Path.parent? path = some directory → between = (tree.makeDirectories directory).1) ∧
      (Path.parent? path = none → between = tree) ∧
      ((saved = between ∧ ∃ cause, result = .error cause) ∨
        result = .ok () ∧ between.write path (Utf8.encode settings.render) = .ok saved) := by
  unfold save at saving
  cases above : Path.parent? path with
  | none =>
    refine ⟨tree, by simp, fun _ => rfl, ?_⟩
    rw [above] at saving
    cases written : tree.write path (Utf8.encode settings.render) with
    | error cause =>
      simp only [written, Prod.mk.injEq] at saving
      exact .inl ⟨saving.1.symm, _, saving.2.symm⟩
    | ok grown =>
      simp only [written, Prod.mk.injEq] at saving
      exact .inr ⟨saving.2.symm, saving.1 ▸ rfl⟩
  | some directory =>
    refine ⟨(tree.makeDirectories directory).1, by simp, by simp, ?_⟩
    rw [above] at saving
    rcases made : tree.makeDirectories directory with ⟨between, cause | _⟩
    · simp only [made, Prod.mk.injEq] at saving
      exact .inl ⟨saving.1.symm, _, saving.2.symm⟩
    · cases written : between.write path (Utf8.encode settings.render) with
      | error cause =>
        simp only [made, written, Prod.mk.injEq] at saving
        exact .inl ⟨saving.1.symm, _, saving.2.symm⟩
      | ok grown =>
        simp only [made, written, Prod.mk.injEq] at saving
        exact .inr ⟨saving.2.symm, saving.1 ▸ rfl⟩

/-- The directories for the settings file of a target are on the way of the target. -/
theorem paves_save (saving : save tree (Path.join target fileName) settings = (saved, result)) :
    ∃ between, tree.Paves between target ∧
      ((saved = between ∧ ∃ cause, result = .error cause) ∨
        result = .ok () ∧ between.write (Path.join target fileName) (Utf8.encode settings.render) = .ok saved) := by
  obtain ⟨between, made, unmade, ends⟩ := save_cases saving
  refine ⟨between, ?_, ends⟩
  cases above : Path.parent? (Path.join target fileName) with
  | none =>
    rw [unmade above]
    exact .refl tree target
  | some directory =>
    obtain ⟨-, first, same⟩ := Path.parent?_join isName_fileName above
    rw [made directory above]
    exact (tree.paves_makeDirectories directory).extend first same

/-- **A save that fails only paves the tree.** -/
theorem paves_of_save_error {cause : CommandError}
    (failed : save tree (Path.join target fileName) settings = (saved, .error cause)) : tree.Paves saved target := by
  obtain ⟨between, paves, ⟨rfl, -⟩ | ⟨success, -⟩⟩ := paves_save failed
  · exact paves
  · cases success

/-- **A save that succeeds** fills the tree: it makes directories on the way of the target and writes the settings
file. -/
theorem fills_of_save (backed : tree.Backed)
    (success : save tree (Path.join target fileName) settings = (saved, .ok ())) :
    ∃ location, saved.locate (Path.join target fileName) = .ok location ∧
      tree.Fills saved target location (Utf8.encode settings.render) := by
  obtain ⟨between, paves, ⟨-, cause, failed⟩ | ⟨-, written⟩⟩ := paves_save success
  · cases failed
  obtain ⟨location, located, fills⟩ := (paves.grows.backed backed).fills_write written target
  exact ⟨location, located, paves.fills fills⟩

/-- **A settings file that is there but cannot be seen cannot be saved**, and then nothing is changed. -/
theorem save_of_unseen (directory : tree.isDirectory target = true) (located : tree.locate target = .ok location)
    (there : tree.entry? (location ++ [fileName]) ≠ none)
    (unseen : tree.pathExists (Path.join target fileName) = false) (settings : Settings) :
    ∃ cause, save tree (Path.join target fileName) settings = (tree, .error cause) := by
  rcases saving : save tree (Path.join target fileName) settings with ⟨saved, result⟩
  obtain ⟨between, made, unmade, ends⟩ := save_cases saving
  -- The directory is there, so none is made.
  have same : between = tree := by
    cases above : Path.parent? (Path.join target fileName) with
    | none => exact unmade above
    | some parent =>
      rw [made parent above]
      by_cases empty : parent = ""
      · subst empty
        unfold FileTree.makeDirectories
        rfl
      · obtain ⟨text, first, same⟩ := Path.parent?_join isName_fileName above
        have parented := FileTree.isDirectory_above directory text first same empty
        rw [FileTree.makeDirectories_of_isDirectory parented]
  subst same
  rcases ends with ⟨rfl, cause, rfl⟩ | ⟨-, written⟩
  · exact ⟨cause, rfl⟩
  -- Where the file can be written, the path leads to it.
  · obtain ⟨checked, walked⟩ := FileTree.walk_of_locate located
    have nonempty := (FileTree.checkPath_eq_ok_iff.mp checked).2.2
    obtain ⟨noSlash, parent, name, targets, file⟩ := FileTree.write_eq_ok_iff.mp written
    obtain ⟨-, ⟨front, names, behind⟩, -⟩ := FileTree.locateParent_eq_ok_iff.mp targets.located
    rw [Path.names_join isName_fileName nonempty] at names
    obtain ⟨rfl, last⟩ := List.append_inj' names rfl
    cases last
    rw [FileTree.start_join isName_fileName nonempty, walked] at behind
    cases behind
    rcases file with ⟨slot, found, -⟩ | ⟨new, -⟩
    · have seen := targets.locate_of_noSlash found noSlash
      rw [FileTree.pathExists_iff.mpr ⟨_, seen⟩] at unseen
      cases unseen
    · exact absurd new there

end Settings

/-! ## The command -/

namespace InitRequest

variable {tree : FileTree} {request : InitRequest}

/-- The path of the settings file that a request is about. -/
def settingsPath (tree : FileTree) (request : InitRequest) : String :=
  Path.join (request.target tree) Settings.fileName

/-- The report of a run that left a settings file alone. -/
def skipped (path : String) : Report String :=
  { data := path, warnings := ["Configuration file already exists, skipping: " ++ path] }

/-- **How the command goes**: the target is no directory, or the settings file is left alone, or it is saved. -/
theorem execute_cases (tree : FileTree) (request : InitRequest) :
    (tree.isDirectory (request.target tree) = false ∧ tree.pathExists (request.settingsPath tree) = false ∧
        (request.execute tree).tree = tree ∧
        (request.execute tree).result = .error (.request (.notADirectory (request.target tree)))) ∨
      (request.force = false ∧ tree.pathExists (request.settingsPath tree) = true ∧
        (request.execute tree).tree = tree ∧
        (request.execute tree).result = .ok (skipped (request.settingsPath tree))) ∨
      (tree.pathExists (request.target tree) = true → tree.isDirectory (request.target tree) = true) ∧
        (request.force = false → tree.pathExists (request.settingsPath tree) = false) ∧
        ∃ saved result, Settings.save tree (request.settingsPath tree) {} = (saved, result) ∧
          (request.execute tree).tree = saved ∧
          (request.execute tree).result = result.map fun _ => { data := request.settingsPath tree, items := 1 } := by
  unfold execute
  simp only
  split
  · rename_i blocked
    rw [Bool.and_eq_true, Bool.not_eq_true'] at blocked
    refine .inl ⟨blocked.2, Bool.eq_false_iff.mpr fun found => ?_, rfl, rfl⟩
    obtain ⟨location, located⟩ := FileTree.pathExists_iff.mp blocked.1
    have entered := FileTree.enter_of_pathExists_join Settings.isName_fileName located found
    have directory := FileTree.isDirectory_iff.mpr ⟨location, located, (FileTree.enter_eq_ok_iff.mp entered).1⟩
    rw [blocked.2] at directory
    cases directory
  · rename_i clear
    split
    · rename_i found
      rw [Bool.and_eq_true, Bool.not_eq_true'] at found
      exact .inr (.inl ⟨found.2, found.1, rfl, rfl⟩)
    · rename_i wanted
      unfold settingsPath
      refine .inr (.inr ⟨?_, fun unforced => ?_, ?_⟩)
      · simpa using clear
      · simpa [unforced] using wanted
      · split
        · rename_i saved cause saving
          exact ⟨saved, .error cause, saving, rfl, rfl⟩
        · rename_i saved saving
          exact ⟨saved, .ok (), saving, rfl, rfl⟩

/-- **A settings file that the path leads to is left alone**, unless the request insists. -/
theorem execute_skips (unforced : request.force = false) (found : tree.pathExists (request.settingsPath tree) = true) :
    (request.execute tree).tree = tree ∧
      (request.execute tree).result = .ok (skipped (request.settingsPath tree)) := by
  rcases execute_cases tree request with ⟨-, missing, -⟩ | ⟨-, -, same⟩ | ⟨-, missing, -⟩
  · cases missing.symm.trans found
  · exact same
  · cases (missing unforced).symm.trans found

/-- A settings file in the directory of the target that cannot be seen is left alone in any case. -/
theorem execute_of_unseen {location : Location} (located : tree.locate (request.target tree) = .ok location)
    (there : tree.entry? (location ++ [Settings.fileName]) ≠ none)
    (unseen : tree.pathExists (request.settingsPath tree) = false) :
    (request.execute tree).tree = tree ∧ ∃ cause, (request.execute tree).result = .error cause := by
  rcases execute_cases tree request with ⟨-, -, same, told⟩ | ⟨-, seen, -⟩ |
    ⟨directory, -, saved, result, saving, same, told⟩
  · exact ⟨same, _, told⟩
  · cases unseen.symm.trans seen
  · have directory := directory (FileTree.pathExists_iff.mpr ⟨location, located⟩)
    obtain ⟨cause, failed⟩ := Settings.save_of_unseen directory located there unseen {}
    cases saving.symm.trans failed
    exact ⟨same, cause, told⟩

/-- **When the command succeeds**, it left the settings file alone, or it saved the defaults. -/
theorem execute_ok_cases {report : Report String} (success : (request.execute tree).result = .ok report) :
    (report = skipped (request.settingsPath tree) ∧ request.force = false ∧
        tree.pathExists (request.settingsPath tree) = true ∧ (request.execute tree).tree = tree) ∨
      report = { data := request.settingsPath tree, items := 1 } ∧
        Settings.save tree (request.settingsPath tree) {} = ((request.execute tree).tree, .ok ()) := by
  rcases execute_cases tree request with ⟨-, -, -, told⟩ | ⟨unforced, found, same, told⟩ |
    ⟨-, -, saved, result, saving, same, told⟩
  · cases told.symm.trans success
  · cases told.symm.trans success
    exact .inl ⟨rfl, unforced, found, same⟩
  · cases result with
    | error cause => cases told.symm.trans success
    | ok _ =>
      cases told.symm.trans success
      exact .inr ⟨rfl, same ▸ saving⟩

/-- **When the command fails**, directories on the way of the target are all that was added. -/
theorem paves_of_execute_error {cause : CommandError} (failed : (request.execute tree).result = .error cause) :
    tree.Paves (request.execute tree).tree (request.target tree) := by
  rcases execute_cases tree request with ⟨-, -, same, -⟩ | ⟨-, -, -, told⟩ |
    ⟨-, -, saved, result, saving, same, told⟩
  · rw [same]
    exact .refl _ _
  · cases told.symm.trans failed
  · cases result with
    | error cause =>
      rw [same]
      exact Settings.paves_of_save_error saving
    | ok _ => cases told.symm.trans failed

/-- **The tree grows**, however the command ends. -/
theorem grows_execute (backed : tree.Backed) (request : InitRequest) : tree.Grows (request.execute tree).tree := by
  cases ends : (request.execute tree).result with
  | error cause => exact (paves_of_execute_error ends).grows
  | ok report =>
    rcases execute_ok_cases ends with ⟨-, -, -, same⟩ | ⟨-, saving⟩
    · rw [same]
      exact .refl tree
    · obtain ⟨location, -, fills⟩ := Settings.fills_of_save backed saving
      exact fills.toGrows

/-- After a run that succeeds, the path of the settings file leads to it. -/
theorem pathExists_of_execute (backed : tree.Backed) {report : Report String}
    (success : (request.execute tree).result = .ok report) :
    (request.execute tree).tree.pathExists (request.settingsPath tree) = true := by
  rcases execute_ok_cases success with ⟨-, -, found, same⟩ | ⟨-, saving⟩
  · rwa [same]
  · obtain ⟨location, located, -⟩ := Settings.fills_of_save backed saving
    exact FileTree.pathExists_iff.mpr ⟨location, located⟩

/-- A second run without force changes nothing. -/
theorem execute_again (backed : tree.Backed) {report : Report String}
    (success : (request.execute tree).result = .ok report) {again : InitRequest} (same : again.path = request.path)
    (unforced : again.force = false) :
    (again.execute (request.execute tree).tree).tree = (request.execute tree).tree ∧
      (again.execute (request.execute tree).tree).result = .ok (skipped (request.settingsPath tree)) := by
  have found := pathExists_of_execute backed success
  have path : again.settingsPath (request.execute tree).tree = request.settingsPath tree := by
    unfold settingsPath target FileTree.workingPath
    rw [same, (grows_execute backed request).workingDirectory]
  rw [← path] at found ⊢
  exact execute_skips unforced found

/-- A path that leads nowhere before the run may lead to a settings file that was there. -/
example :
    let tree : FileTree :=
      { entries := [(["w"], .directory), (["w", "jackt.toml"], .file 0)]
        slots := #[Utf8.encode "verbose = true".toList]
        workingDirectory := ["w"] }
    (execute tree { path := some "new/.." }).tree.node? ["w", "jackt.toml"] =
      some (.file (Utf8.encode ({} : Settings).render)) := by
  decide +kernel

end InitRequest

end JackTokens
