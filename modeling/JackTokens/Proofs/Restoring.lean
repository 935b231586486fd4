import JackTokens.Program
import JackTokens.Proofs.Locations
import JackTokens.Proofs.Saving

/-!
# Restoring the default settings

The command `init` with `--force` is to put the defaults into the settings file of the working directory,
whatever the file held before. But the program loads its settings before it runs any command, and the first
place where it looks for them is that same file. So the defaults are restored exactly where the old content
loads (`Program.run_init_force`); a file that is broken ends the run before the command is reached, and stays
broken.

**Two paths.** The file is looked for by its name alone, from the working directory, but it is written by the
path of the working directory, from the root. On that way a directory may be denied, and the path may be too
long; otherwise the two paths lead to one file (`Settings.Reachable`).

**The command.** Where the file can be reached, and is missing or may be written, the defaults are saved, and
they load (`InitRequest.execute_force`).

**The run.** The arguments are read without fault unless the environment says something that is no truth value
(`CommandLine.parse_init_force`). Settings are found where the file loads, or where there is none in any place
(`Settings.exists_search_iff`), and nothing else is in the way (`Program.ending_init_force`).
-/

namespace JackTokens

/-! ## The settings file of the working directory -/

/-- **A tree in which the program runs**: it is nested, its files have bytes, and the working directory is a
directory that may be entered. -/
structure FileTree.Workplace (tree : FileTree) : Prop extends Nested tree, Backed tree where
  entered : tree.enter tree.workingDirectory = .ok ()

namespace FileTree.Workplace

variable {tree : FileTree} (workplace : tree.Workplace)
include workplace

theorem directory : tree.entry? tree.workingDirectory = some .directory :=
  (enter_eq_ok_iff.mp workplace.entered).1

theorem isName : ∀ name ∈ tree.workingDirectory, Path.IsName name :=
  workplace.isName_of_mem workplace.directory

end FileTree.Workplace

namespace Settings

variable {tree saved : FileTree} {settings : Settings}

theorem isName_fileName : Path.IsName fileName := by decide

/-- The location of the settings file in the working directory. -/
def ownLocation (tree : FileTree) : Location := tree.workingDirectory ++ [fileName]

/-- The path of the settings file in the working directory. -/
def ownPath (tree : FileTree) : String := Path.join tree.workingPath fileName

/-- **The settings file can be reached from the root**: no directory on the way is denied, and its path is not
too long. -/
structure Reachable (tree : FileTree) : Prop where
  clear : tree.Open tree.workingDirectory
  short : Utf8.size (ownPath tree).toList ≤ FileTree.longestPath

/-- **The settings file may be replaced**: it is missing, or it is a file that is not denied. -/
def Replaceable (tree : FileTree) : Prop :=
  ∀ entry, tree.entry? (ownLocation tree) = some entry →
    (∃ slot, entry = .file slot) ∧ tree.isDenied (ownLocation tree) = false

section

variable (workplace : tree.Workplace)
include workplace

theorem ownPath_eq : ownPath tree = Path.ofLocation (ownLocation tree) :=
  (Path.ofLocation_concat workplace.isName isName_fileName).symm

/-- The name of a settings file, as a path, targets the file in the working directory. -/
theorem targets_fileName : tree.Targets fileName tree.workingDirectory fileName := by
  refine ⟨?_, isName_fileName.noDot, isName_fileName.noDots, rfl⟩
  exact FileTree.locateParent_eq_ok_iff.mpr ⟨rfl, ⟨[], rfl, rfl⟩, workplace.entered⟩

/-- The name leads to whatever is at the location of the settings file. -/
theorem locate_fileName {entry : Entry} (found : tree.entry? (ownLocation tree) = some entry) :
    tree.locate fileName = .ok (ownLocation tree) ∧ tree.pathExists fileName = true := by
  have located := (targets_fileName workplace).locate_eq found fun slash => by cases slash
  refine ⟨located, ?_⟩
  unfold FileTree.pathExists
  rw [located]

/-- Settings that were saved to the path are at the location, and it can be reached. -/
theorem savedAt_ownPath (success : save tree (ownPath tree) settings = (saved, .ok ())) :
    tree.Grows saved ∧ settings.SavedAt saved (ownPath tree) tree.workingDirectory fileName ∧ Reachable tree := by
  obtain ⟨grows, parent, name, stored⟩ := savedAt_of_save workplace.toBacked success
  have targets := stored.targets
  rw [ownPath_eq workplace] at targets
  obtain ⟨rfl, rfl, clear, short⟩ := targets.open_of_ofLocation workplace.isName isName_fileName
  refine ⟨grows, stored, fun above within => ?_, ?_⟩
  · rw [← grows.isDenied_eq]
    exact clear above within
  · rw [ownPath_eq workplace]
    exact short

theorem Reachable.isDirectory_workingPath (reachable : Reachable tree) :
    tree.isDirectory tree.workingPath = true := by
  have part : Utf8.size tree.workingPath.toList + _ ≤ Utf8.size (ownPath tree).toList :=
    Path.size_le_join isName_fileName (Path.ofLocation_ne_nil _)
  have short : Utf8.size tree.workingPath.toList ≤ FileTree.longestPath :=
    Nat.le_trans (Nat.le_trans (Nat.le_add_right _ _) part) reachable.short
  have located := workplace.locate_ofLocation workplace.directory reachable.clear short
  exact FileTree.isDirectory_iff.mpr ⟨tree.workingDirectory, located, workplace.directory⟩

/-- A settings file that can be reached and may be replaced can be saved. -/
theorem Reachable.exists_save (reachable : Reachable tree) (replaceable : Replaceable tree) (settings : Settings) :
    ∃ saved, save tree (ownPath tree) settings = (saved, .ok ()) := by
  have path := ownPath_eq workplace
  have above : Path.parent? (ownPath tree) = some tree.workingPath := by
    rw [path]
    exact Path.parent?_ofLocation_concat workplace.isName isName_fileName
  have noSlash : Path.endsInSlash (ownPath tree) = false :=
    Path.endsInSlash_join isName_fileName (Path.ofLocation_ne_nil _)
  have targets : tree.Targets (ownPath tree) tree.workingDirectory fileName := by
    have short := reachable.short
    rw [path] at short ⊢
    exact workplace.targets_ofLocation isName_fileName workplace.directory reachable.clear short
  have writable : ∃ saved, tree.write (ownPath tree) (Utf8.encode settings.render) = .ok saved := by
    cases found : tree.entry? (ownLocation tree) with
    | none => exact ⟨_, FileTree.write_eq_ok_iff.mpr ⟨noSlash, _, _, targets, .inr ⟨found, rfl⟩⟩⟩
    | some entry =>
      obtain ⟨⟨slot, rfl⟩, allowed⟩ := replaceable entry found
      exact ⟨_, FileTree.write_eq_ok_iff.mpr ⟨noSlash, _, _, targets, .inl ⟨slot, found, allowed, rfl⟩⟩⟩
  obtain ⟨saved, written⟩ := writable
  refine ⟨saved, save_eq_ok_iff.mpr ⟨tree, ?_, fun _ => rfl, written⟩⟩
  intro directory found
  cases above.symm.trans found
  exact FileTree.makeDirectories_of_isDirectory (reachable.isDirectory_workingPath workplace)

end

end Settings

/-! ## The arguments -/

namespace CommandLine

/-- How the arguments are read, if the environment names no settings file. -/
theorem parse_init_force {environment : Environment} (unset : environment.configuration = none) :
    parse environment ["init", "--force"] =
      if environment.suits {} then
        .ok {
          verbose := environment.verbose == some "true"
          configuration := none
          noColor := environment.noColor == some "true"
          request := .init { force := true } }
      else .error .misuse := by
  have program : scan none {} ["init", "--force"] = .ok ({}, some (.command .init, ["--force"])) := by
    decide +kernel
  have command : scan (some .init) {} ["--force"] = .ok ({ switches := [.force] }, none) := by
    decide +kernel
  have same : environment.suits { switches := [.force] } = environment.suits {} := rfl
  have asked : ∀ told : Told, told.pending = .nothing →
      finish environment told = if environment.suits told then .ok told else .error .misuse := by
    intro told settled
    unfold finish Told.settle
    rw [settled]
    rfl
  unfold parse
  simp only [program, command, bind, Except.bind, asked { switches := [.force] } rfl, asked {} rfl, same, unset]
  cases environment.suits {} with
  | false => rfl
  | true => rfl

end CommandLine

/-! ## The command -/

namespace InitRequest

variable {tree : FileTree} {verbose : Bool}

/-- The command with force saves the defaults, unless something else than a directory stands at the path of the
working directory. -/
theorem execute_force_of_save (verbose : Bool) {saved : FileTree} {result : Except CommandError Unit}
    (saving : Settings.save tree (Settings.ownPath tree) {} = (saved, result)) :
    (Ending.ofResult (execute tree { force := true, verbose := verbose }).result = .success ↔
        (tree.pathExists tree.workingPath = true → tree.isDirectory tree.workingPath = true) ∧ result = .ok ()) ∧
      (Ending.ofResult (execute tree { force := true, verbose := verbose }).result = .success →
        (execute tree { force := true, verbose := verbose }).tree = saved) := by
  unfold Settings.ownPath at saving
  unfold execute target
  simp only [Option.getD_none, saving, Bool.not_true, Bool.and_false, Bool.false_eq_true, if_false]
  split
  · rename_i blocked
    simp only [Bool.and_eq_true, Bool.not_eq_true'] at blocked
    simp [Ending.ofResult, blocked]
  · rename_i clear
    simp only [Bool.and_eq_true, Bool.not_eq_true', not_and, Bool.not_eq_false] at clear
    cases result with
    | error cause => simp [Ending.ofResult]
    | ok _ => simpa [Ending.ofResult] using clear

/-- **When the command with force succeeds**, and that it leaves the defaults behind. -/
theorem execute_force (workplace : tree.Workplace) (replaceable : Settings.Replaceable tree) (verbose : Bool) :
    (Ending.ofResult (execute tree { force := true, verbose := verbose }).result = .success ↔
        Settings.Reachable tree) ∧
      (Ending.ofResult (execute tree { force := true, verbose := verbose }).result = .success →
        Settings.load (execute tree { force := true, verbose := verbose }).tree Settings.fileName = .ok {}) := by
  rcases saving : Settings.save tree (Settings.ownPath tree) {} with ⟨saved, result⟩
  obtain ⟨succeeds, behind⟩ := execute_force_of_save verbose saving
  refine ⟨⟨?_, ?_⟩, ?_⟩
  · intro success
    obtain ⟨-, rfl⟩ := succeeds.mp success
    exact (Settings.savedAt_ownPath workplace saving).2.2
  · intro reachable
    obtain ⟨saved', saving'⟩ := reachable.exists_save workplace replaceable {}
    rw [saving, Prod.mk.injEq] at saving'
    exact succeeds.mpr ⟨fun _ => reachable.isDirectory_workingPath workplace, saving'.2⟩
  · intro success
    obtain ⟨-, rfl⟩ := succeeds.mp success
    obtain ⟨grows, stored, -⟩ := Settings.savedAt_ownPath workplace saving
    obtain ⟨slot, found, -⟩ := stored.holds.stored
    rw [behind success]
    -- The file was written by its path from the root, and is read by its name.
    have targets := grows.targets (Settings.targets_fileName workplace)
    have located := targets.locate_eq found fun slash => by cases slash
    exact Settings.load_of_holds stored.holds located

end InitRequest

/-! ## The run -/

namespace Settings

variable {tree : FileTree} {content : List UInt8}

/-- Bytes that settings can be loaded from. -/
def Loadable (content : List UInt8) : Prop :=
  ∃ text settings, Utf8.decode content = some text ∧ parse? text = some settings

/-- **The settings file of the working directory is found first.** -/
theorem search_eq_load (surroundings : Surroundings) (found : tree.pathExists fileName = true) :
    search tree surroundings = load tree fileName := by
  unfold search places
  simp [found]

/-- **A settings file loads** if its bytes are those of settings. -/
theorem exists_search_iff (workplace : tree.Workplace) (holds : tree.Holds (ownLocation tree) content)
    (surroundings : Surroundings) : (∃ settings, search tree surroundings = .ok settings) ↔ Loadable content := by
  obtain ⟨slot, found, -⟩ := holds.stored
  obtain ⟨located, there⟩ := locate_fileName workplace found
  rw [search_eq_load surroundings there]
  unfold load Loadable
  rw [if_pos there, holds.readText_eq located]
  cases Utf8.decode content with
  | none => simp
  | some text =>
    cases parsed : parse? text with
    | none => simp [parsed]
    | some settings => simp [parsed]

/-- Where settings are found, the file in the working directory is missing or can be read, and may be
replaced. -/
theorem replaceable_of_search (workplace : tree.Workplace) {surroundings : Surroundings} {settings : Settings}
    (found : search tree surroundings = .ok settings) : Replaceable tree := by
  intro entry own
  obtain ⟨located, there⟩ := locate_fileName workplace own
  rw [search_eq_load surroundings there, load, if_pos there, FileTree.readText, located] at found
  simp only [bind, Except.bind, own] at found
  cases allowed : tree.isDenied (ownLocation tree) with
  | true => simp [allowed] at found
  | false =>
    cases entry with
    | directory => simp [allowed] at found
    | file slot => exact ⟨⟨slot, rfl⟩, rfl⟩

end Settings

namespace Program

variable {world : World} {tree : FileTree}

/-- How a run goes: the arguments are read, then the settings, and then the command runs. -/
theorem run_init_force_eq (unset : world.environment.configuration = none) (tree : FileTree) :
    run world tree ["init", "--force"] =
      if world.environment.suits {} then
        match Settings.search tree world.surroundings with
        | .error cause => { ending := .failure cause, tree := tree }
        | .ok settings =>
          perform tree settings (world.environment.verbose == some "true" || settings.verbose)
            (.init { force := true })
      else { ending := .misuse, tree := tree } := by
  unfold run
  rw [CommandLine.parse_init_force unset]
  cases world.environment.suits {} with
  | false => rfl
  | true => rfl

/-- **When `init --force` succeeds**: settings are found, and the file of the working directory can be
reached. Then the defaults are in it. -/
theorem ending_init_force (workplace : tree.Workplace) (unset : world.environment.configuration = none) :
    ((run world tree ["init", "--force"]).ending = .success ↔
        world.environment.suits {} = true ∧ (∃ settings, Settings.search tree world.surroundings = .ok settings) ∧
          Settings.Reachable tree) ∧
      ((run world tree ["init", "--force"]).ending = .success →
        Settings.load (run world tree ["init", "--force"]).tree Settings.fileName = .ok {}) := by
  rw [run_init_force_eq unset]
  cases world.environment.suits {} with
  | false => simp
  | true =>
    cases found : Settings.search tree world.surroundings with
    | error cause => simp
    | ok settings =>
      have outcome := InitRequest.execute_force workplace (Settings.replaceable_of_search workplace found)
        (world.environment.verbose == some "true" || settings.verbose)
      simpa [perform] using outcome

/-- **`init --force` restores the defaults exactly where the old settings load.** A settings file that does
not load ends the run before the command is reached, and nothing is changed. Where it loads, and also where
there is none in any place, the defaults are written if the file can be reached by the path of the working
directory. -/
theorem run_init_force (world : World) {tree : FileTree} (workplace : tree.Workplace)
    (unset : world.environment.configuration = none) :
    (∀ content, tree.Holds (Settings.ownLocation tree) content →
      ((run world tree ["init", "--force"]).ending = .success ↔
          world.environment.suits {} = true ∧ Settings.Loadable content ∧ Settings.Reachable tree) ∧
        (world.environment.suits {} = true → ¬ Settings.Loadable content →
          ∃ cause, Settings.load tree Settings.fileName = .error cause ∧
            run world tree ["init", "--force"] = { ending := .failure cause, tree := tree })) ∧
      ((∀ place ∈ Settings.places world.surroundings, tree.pathExists place = false) →
        ((run world tree ["init", "--force"]).ending = .success ↔
          world.environment.suits {} = true ∧ Settings.Reachable tree)) ∧
      ((run world tree ["init", "--force"]).ending = .success →
        Settings.load (run world tree ["init", "--force"]).tree Settings.fileName = .ok {}) := by
  obtain ⟨succeeds, restored⟩ := ending_init_force workplace unset
  refine ⟨fun content holds => ⟨?_, ?_⟩, ?_, restored⟩
  · rw [succeeds, Settings.exists_search_iff workplace holds]
  · intro suits broken
    obtain ⟨slot, found, -⟩ := holds.stored
    have same := Settings.search_eq_load world.surroundings (Settings.locate_fileName workplace found).2
    rw [run_init_force_eq unset, if_pos suits, same]
    cases loading : Settings.load tree Settings.fileName with
    | error cause => exact ⟨cause, rfl, rfl⟩
    | ok settings =>
      have loads := Settings.exists_search_iff workplace holds world.surroundings
      exact absurd (loads.mp ⟨settings, same.trans loading⟩) broken
  · intro nowhere
    have missing : (Settings.places world.surroundings).find? tree.pathExists = none := by
      rw [List.find?_eq_none]
      intro place member
      simp [nowhere place member]
    rw [succeeds]
    simp [Settings.search, missing]

/-- A settings file in which a value is missing stays as it is, and one that can be read is replaced. -/
theorem run_init_force_missingValue :
    let tree (text : String) : FileTree :=
      { entries := [(["w"], .directory), (["w", "jackt.toml"], .file 0)]
        slots := #[Utf8.encode text.toList]
        workingDirectory := ["w"] }
    run {} (tree "verbose =") ["init", "--force"] =
        { ending := .failure (.settings .malformed), tree := tree "verbose =" } ∧
      (run {} (tree "verbose = true") ["init", "--force"]).ending = .success ∧
      Settings.load (run {} (tree "verbose = true") ["init", "--force"]).tree "jackt.toml" = .ok {} := by
  intro tree
  have workplace : ∀ text, (tree text).Workplace := by
    have distinct : [["w"], ["w", "jackt.toml"]].Nodup := by decide
    have named : ∀ location ∈ [["w"], ["w", "jackt.toml"]], ∀ name ∈ location, Path.IsName name := by decide
    intro text
    refine ⟨⟨⟨distinct, fun below member => named below.1 (List.mem_map_of_mem member)⟩, ?_⟩,
      FileTree.backed_of_entries (by simp [tree]) (by simp [tree]), rfl⟩
    simp only [tree, List.forall_mem_cons]
    exact ⟨rfl, rfl, by simp⟩
  have holds : ∀ text : String, (tree text).Holds ["w", "jackt.toml"] (Utf8.encode text.toList) :=
    fun text => ⟨rfl, 0, rfl, rfl⟩
  have broken : ¬ Settings.Loadable (Utf8.encode "verbose =".toList) := by
    rintro ⟨text, settings, decoded, parsed⟩
    rw [Utf8.decode_encode] at decoded
    cases decoded
    have none : Settings.parse? "verbose =".toList = none := by decide +kernel
    rw [none] at parsed
    cases parsed
  have whole : Settings.Loadable (Utf8.encode "verbose = true".toList) :=
    ⟨_, { verbose := true }, Utf8.decode_encode _, by decide +kernel⟩
  have reachable : Settings.Reachable (tree "verbose = true") := ⟨fun above within => rfl, by decide +kernel⟩
  have malformed : Settings.load (tree "verbose =") Settings.fileName = .error (.settings .malformed) := by
    decide +kernel
  obtain ⟨cause, loading, unchanged⟩ := ((run_init_force {} (workplace "verbose =") rfl).1 _ (holds _)).2 rfl broken
  cases malformed.symm.trans loading
  obtain ⟨present, -, restored⟩ := run_init_force {} (workplace "verbose = true") rfl
  have success := (present _ (holds _)).1.mpr ⟨rfl, whole, reachable⟩
  exact ⟨unchanged, success, restored success⟩

end Program

end JackTokens
