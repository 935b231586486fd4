import JackTokens.Proofs.Encoding
import JackTokens.Proofs.Writing
import JackTokens.Proofs.WrittenSettings
import JackTokens.Settings.File

/-!
# Saved settings load back

Settings are saved in three steps: the directory for the file is made, the settings are rendered, and the
bytes of the text are written. Each step has an inverse, and loading takes them back: the path leads to the
file, its bytes are the text, and the text is read as the settings (`Settings.load_of_holds`).

What a save leaves behind is kept in one statement (`Settings.SavedAt`), from which both loading and saving
once more follow. The dots before an extension are the only thing that is lost, and they are lost once
(`Settings.undotted_undotted`).
-/

namespace JackTokens.Settings

variable {tree saved : FileTree} {path name : String} {location parent : Location} {settings : Settings}

/-! ## Extensions without dots -/

theorem bareExtension_eq_iff {extension : String} :
    bareExtension extension = extension ↔ extension.toList.head? ≠ some '.' := by
  unfold bareExtension
  rw [← String.toList_inj, String.toList_ofList]
  cases extension.toList with
  | nil => simp
  | cons c rest =>
    by_cases dot : c = '.'
    · subst dot
      simp only [List.dropWhile_cons, beq_self_eq_true, if_true, List.head?_cons, ne_eq, not_true_eq_false,
        iff_false]
      intro same
      have shorter := (List.dropWhile_suffix (· == '.') (l := rest)).length_le
      rw [same, List.length_cons] at shorter
      omega
    · simp [dot]

theorem undotted_eq_iff : settings.undotted = settings ↔ settings.tokenizer.extension.toList.head? ≠ some '.' := by
  rw [← bareExtension_eq_iff]
  obtain ⟨verbose, ⟨extension, numbering, identifiers⟩, output⟩ := settings
  simp [undotted, Policy.withExtension]

/-- The dots are lost once. -/
@[simp] theorem undotted_undotted : settings.undotted.undotted = settings.undotted := by
  rw [undotted_eq_iff]
  show (bareExtension settings.tokenizer.extension).toList.head? ≠ some '.'
  unfold bareExtension
  rw [String.toList_ofList]
  intro dot
  cases Text.StopsAt.dropWhile (· == '.') settings.tokenizer.extension.toList '.' dot

/-! ## Loading what was saved -/

/-- **A file that holds rendered settings loads as these settings**, without the dots before the extension. -/
theorem load_of_holds (holds : tree.Holds location (Utf8.encode settings.render))
    (located : tree.locate path = .ok location) : load tree path = .ok settings.undotted := by
  have there : tree.pathExists path = true := by
    unfold FileTree.pathExists
    rw [located]
  unfold load
  rw [if_pos there, holds.readText_eq located, Utf8.decode_encode]
  simp only [parse?_render]

/-- **A save succeeds** if the directory can be made, where the path has one, and the file can be written. -/
theorem save_eq_ok_iff :
    save tree path settings = (saved, .ok ()) ↔
      ∃ between, (∀ directory, Path.parent? path = some directory →
          tree.makeDirectories directory = (between, .ok ())) ∧
        (Path.parent? path = none → between = tree) ∧
        between.write path (Utf8.encode settings.render) = .ok saved := by
  unfold save
  cases Path.parent? path with
  | none =>
    cases written : tree.write path (Utf8.encode settings.render) with
    | error cause => simp [written]
    | ok grown => simp [written]
  | some directory =>
    rcases made : tree.makeDirectories directory with ⟨between, cause | _⟩
    · simp [made]
    · cases written : between.write path (Utf8.encode settings.render) with
      | error cause => simp [made, written]
      | ok grown => simp [made, written]

/-- **What a save leaves behind**: the path targets a file that holds the rendered settings, and the directory
that was made for it is there. -/
structure SavedAt (settings : Settings) (tree : FileTree) (path : String) (parent : Location) (name : String) :
    Prop where
  targets : tree.Targets path parent name
  noSlash : Path.endsInSlash path = false
  holds : tree.Holds (parent ++ [name]) (Utf8.encode settings.render)
  above : ∀ directory, Path.parent? path = some directory → directory ≠ "" → tree.isDirectory directory = true

theorem savedAt_of_save (backed : tree.Backed) (success : save tree path settings = (saved, .ok ())) :
    tree.Grows saved ∧ ∃ parent name, settings.SavedAt saved path parent name := by
  obtain ⟨between, made, unmade, written⟩ := save_eq_ok_iff.mp success
  have first : tree.Grows between := by
    cases above : Path.parent? path with
    | none =>
      rw [unmade above]
      exact .refl tree
    | some directory =>
      have grows := tree.grows_makeDirectories directory
      rw [made directory above] at grows
      exact grows
  obtain ⟨second, noSlash, parent, name, targets, holds⟩ := (first.backed backed).holds_of_write written
  refine ⟨first.trans second, parent, name, second.targets targets, noSlash, holds, ?_⟩
  intro directory above nonempty
  exact second.isDirectory_eq (FileTree.isDirectory_makeDirectories (made directory above) nonempty)

theorem SavedAt.load_eq (stored : settings.SavedAt tree path parent name) :
    load tree path = .ok settings.undotted := by
  obtain ⟨slot, found, -⟩ := stored.holds.stored
  exact load_of_holds stored.holds (stored.targets.locate_of_noSlash found stored.noSlash)

/-- Where settings have been saved, any can be saved. -/
theorem SavedAt.exists_save (stored : settings.SavedAt tree path parent name) (others : Settings) :
    ∃ again, save tree path others = (again, .ok ()) := by
  obtain ⟨again, written⟩ := stored.targets.write_of_holds stored.noSlash stored.holds (Utf8.encode others.render)
  refine ⟨again, save_eq_ok_iff.mpr ⟨tree, ?_, fun _ => rfl, written⟩⟩
  intro directory above
  by_cases empty : directory = ""
  · subst empty
    unfold FileTree.makeDirectories
    rfl
  · exact FileTree.makeDirectories_of_isDirectory (stored.above directory above empty)

/-- **Saved settings load back**, without the dots before the extension; so they load unchanged exactly if
there are none. Saving and loading once more changes nothing. Permission is given as a whole here: a file that may
be written may be read. -/
theorem load_save (backed : tree.Backed) (success : save tree path settings = (saved, .ok ())) :
    load saved path = .ok settings.undotted ∧
      (load saved path = .ok settings ↔ settings.tokenizer.extension.toList.head? ≠ some '.') ∧
      ∃ again, save saved path settings.undotted = (again, .ok ()) ∧ load again path = .ok settings.undotted := by
  obtain ⟨grows, parent, name, stored⟩ := savedAt_of_save backed success
  refine ⟨stored.load_eq, ?_, ?_⟩
  · rw [stored.load_eq, Except.ok.injEq]
    exact undotted_eq_iff
  · obtain ⟨again, success⟩ := stored.exists_save settings.undotted
    obtain ⟨-, parent, name, stored⟩ := savedAt_of_save (grows.backed backed) success
    refine ⟨again, success, ?_⟩
    rw [stored.load_eq, undotted_undotted]

/-- Settings with an extension that has dots, quotes of both kinds, a backslash, a line break, a control
character and a letter beyond ASCII, saved to a directory that has to be made. -/
theorem load_save_quotedExtension :
    let tree : FileTree := { entries := [(["a"], .directory)], workingDirectory := ["a"] }
    let settings : Settings :=
      { verbose := true
        tokenizer := { extension := "..\"\"\"'\\\n\x01é.", lineNumbering := .perFile, identifiers := .alphabetic }
        output := { format := .json, byFile := true } }
    let bare : Settings := { settings with tokenizer.extension := "\"\"\"'\\\n\x01é." }
    ∃ saved again, save tree "b/jackt.toml" settings = (saved, .ok ()) ∧ load saved "b/jackt.toml" = .ok bare ∧
      save saved "b/jackt.toml" bare = (again, .ok ()) ∧ load again "b/jackt.toml" = .ok bare := by
  intro tree settings bare
  have backed : tree.Backed := FileTree.backed_of_entries (by simp [tree]) (by simp [tree])
  let between : FileTree := { tree with entries := tree.entries ++ [(["a", "b"], .directory)] }
  have made : tree.makeDirectories "b" = (between, .ok ()) := by
    have last : tree.makeDirectory "b" = .ok between := rfl
    unfold FileTree.makeDirectories
    rw [last]
    rfl
  have above : Path.parent? "b/jackt.toml" = some "b" := rfl
  obtain ⟨saved, success⟩ : ∃ saved, save tree "b/jackt.toml" settings = (saved, .ok ()) := by
    refine ⟨_, save_eq_ok_iff.mpr ⟨between, ?_, ?_, rfl⟩⟩
    · intro directory found
      cases above.symm.trans found
      exact made
    · intro none
      cases above.symm.trans none
  have undotted : settings.undotted = bare := by
    have extension : bareExtension settings.tokenizer.extension = bare.tokenizer.extension := by decide +kernel
    unfold Settings.undotted Policy.withExtension
    rw [extension]
  obtain ⟨loaded, -, again, success', loaded'⟩ := load_save backed success
  rw [undotted] at loaded success' loaded'
  exact ⟨saved, again, success, loaded, success', loaded'⟩

end JackTokens.Settings
