import JackTokens.Proofs.Failure
import JackTokens.Proofs.Listing

/-!
# Units

A unit is what a path stands for: a file, or the sources of a directory, one after the other. What a run finds in it
depends on the texts, and on nothing else of the tree.

**Units that can be read** (`FileTree.HoldsUnit`). A run over one ends without a failure, and its stream is that of
the texts (`Tokenizer.exists_tokenizeAll_of_holdsUnit`).

**Units that are cut off** (`FileTree.CutsOffAt`), behind whole files, or behind the lines that a file hands out
before it breaks off. A run over one fails, and has found the stream of the texts before the failure
(`Tokenizer.tokenizeAll_of_cutsOffAt`); and a run fails in no other way (`Tokenizer.exists_cutsOffAt`).

**One unit in place of another** (`FileTree.CutsOffAt.exists_holdsUnit`). What is left of a unit that was cut off is
a unit that can be read: the texts are written out under the names that they had.
-/

namespace JackTokens

namespace Tokenizer

variable {tree : FileTree} {t start : Tokenizer} {unit : List (String × List Char)}

/-! ## Behind the readable files -/

/-- A run comes behind the readable files that its queue begins with, whatever is queued behind them. -/
theorem reaches_before {more : List String} (readable : ∀ file ∈ unit, tree.readText file.1 = .ok file.2)
    (idle : t.phase = .idle) (queued : t.queue = unit.map Prod.fst ++ more) {parts : List (List Token)}
    (before : t.Sections parts) :
    ∃ next, Reaches tree t next ∧ next.phase = .idle ∧ next.policy = t.policy ∧ next.queue = more ∧
      next.cursor.line = unitLine t.policy t.cursor.line (unit.map Prod.snd) ∧
      next.Sections (parts ++ unitSections t.policy t.cursor.line (unit.map Prod.snd)) := by
  -- The run over these files alone is known, and what is queued behind them makes no difference to it.
  let alone : Tokenizer := { t with queue := unit.map Prod.fst }
  have idle' : alone.phase = .idle := idle
  have before' : alone.Sections parts := before.congr rfl rfl
  obtain ⟨next, reached, between, policy, empty, line, sections⟩ := reaches_unit readable idle' rfl before'
  have busy : next.state ≠ .exhausted := by
    rw [state_of_idle between]
    intro done
    cases done
  have whole : alone.queueUp more = t := by
    show { t with queue := unit.map Prod.fst ++ more } = t
    rw [← queued]
  have longer := reached.queueUp busy more
  rw [whole] at longer
  refine ⟨next.queueUp more, longer, between, policy, ?_, line, sections.congr rfl rfl⟩
  show next.queue ++ more = more
  rw [empty, List.nil_append]

/-- The stream of a unit with the given texts. -/
def unitTokens (policy : Policy) (texts : List (List Char)) : List Token := (unitSections policy 0 texts).flatten

theorem Fresh.begins (fresh : start.Fresh) :
    start.phase = .idle ∧ start.cursor.line = 0 ∧ start.Sections [] := by
  rw [fresh.eq]
  exact ⟨rfl, rfl, rfl, rfl⟩

/-- **A run over files that can be read** ends without a failure, with the stream of their texts. -/
theorem Fresh.tokenizeAll_of_readable (fresh : start.Fresh) (queued : start.queue = unit.map Prod.fst)
    (readable : ∀ file ∈ unit, tree.readText file.1 = .ok file.2) :
    ∃ final, start.tokenizeAll tree = (final, .ok final.tokens) ∧
      final.tokens.toList = unitTokens start.policy (unit.map Prod.snd) := by
  obtain ⟨idle, line, nothing⟩ := fresh.begins
  obtain ⟨last, reached, between, -, empty, -, sections⟩ := reaches_unit readable idle queued nothing
  rw [line, List.nil_append] at sections
  exact ⟨_, reached.tokenizeAll_of_idle between empty, sections.tokens⟩

end Tokenizer

/-! ## Units that are cut off -/

namespace FileTree

variable {tree : FileTree} {numbering : LineNumbering} {queue : List String} {e : TokenizeError}
  {cut : List (String × List Char)}

/-- **A failure cuts a queue off** behind some files, which are all readable: at a path that cannot be opened, or
behind the lines that a path hands out before it breaks off. -/
inductive CutsOff (tree : FileTree) (numbering : LineNumbering) (queue : List String) :
    TokenizeError → List (String × List Char) → Prop where
  | unopened {unit : List (String × List Char)} {path : String} {later : List String} {cause : FileError} :
      queue = unit.map Prod.fst ++ path :: later → (∀ file ∈ unit, tree.readText file.1 = .ok file.2) →
      SourceFile.openAt tree path = .error cause →
      CutsOff tree numbering queue (.sourceNotFound path cause) unit
  | broken {unit : List (String × List Char)} {path : String} {later : List String} {lines : List (List Char)}
      {cause : FileError} :
      queue = unit.map Prod.fst ++ path :: later → (∀ file ∈ unit, tree.readText file.1 = .ok file.2) →
      SourceFile.BreaksOff tree path lines cause →
      CutsOff tree numbering queue
        (.unreadable (Path.displayName path)
          (UInt32.ofNat (Tokenizer.lineOffset numbering (unit.map Prod.snd) unit.length + lines.length + 1)) cause)
        (unit ++ [(path, lines.flatten)])

theorem CutsOff.exists_later (cutOff : tree.CutsOff numbering queue e cut) :
    ∃ later, queue = cut.map Prod.fst ++ later := by
  cases cutOff with
  | unopened queued readable fails => exact ⟨_, queued⟩
  | @broken unit path later lines cause queued readable fails =>
    refine ⟨later, ?_⟩
    rw [queued, List.map_append, List.append_assoc]
    rfl

end FileTree

namespace Tokenizer.Fresh

variable {tree : FileTree} {start final : Tokenizer} {e : TokenizeError} {cut : List (String × List Char)}

/-- **A run over a queue that is cut off** fails, and has found the stream of what is before the failure. -/
theorem tokenizeAll_of_cutsOff (fresh : start.Fresh)
    (cutOff : tree.CutsOff start.policy.lineNumbering start.queue e cut) :
    ∃ final, start.tokenizeAll tree = (final, .error e) ∧
      final.tokens.toList = unitTokens start.policy (cut.map Prod.snd) := by
  obtain ⟨idle, line, nothing⟩ := fresh.begins
  cases cutOff with
  | unopened queued readable unopened =>
    obtain ⟨next, reached, between, -, more, -, sections⟩ := reaches_before readable idle queued nothing
    rw [line, List.nil_append] at sections
    exact ⟨_, reached.tokenizeAll_of_failed (step_unopened between more unopened), sections.tokens⟩
  | @broken unit path later lines cause queued readable breaks =>
    obtain ⟨next, reached, between, policy, more, counter, sections⟩ :=
      reaches_before readable idle queued nothing
    rw [line, List.nil_append] at sections
    obtain ⟨last, final, count, further, stepped, -, -, -, parts⟩ := reaches_breaksOff between more breaks sections
    rw [policy, counter, line] at stepped parts
    refine ⟨final, ?_, ?_⟩
    · rw [lineBase_unitLine_zero, List.length_map] at stepped
      rw [(reached.trans further).tokenizeAll_of_failed stepped, UInt32.ofNat_add, UInt32.ofNat_add]
      rfl
    · rw [← unitSections_append_singleton] at parts
      rw [parts.tokens, unitTokens, List.map_append]
      rfl

/-- **A run that fails was cut off.** -/
theorem exists_cutsOff (fresh : start.Fresh) (failed : start.tokenizeAll tree = (final, .error e)) :
    ∃ cut, tree.CutsOff start.policy.lineNumbering start.queue e cut := by
  obtain ⟨unit, readable, queued | ⟨path, later, queued, ⟨cause, unopened⟩ | ⟨lines, cause, breaks⟩⟩⟩ :=
    queue_cases tree start.queue
  · obtain ⟨done, ran, -⟩ := fresh.tokenizeAll_of_readable queued readable
    cases failed.symm.trans ran
  · have cutOff : tree.CutsOff start.policy.lineNumbering start.queue _ _ := .unopened queued readable unopened
    obtain ⟨last, ran, -⟩ := fresh.tokenizeAll_of_cutsOff cutOff
    cases failed.symm.trans ran
    exact ⟨_, cutOff⟩
  · have cutOff : tree.CutsOff start.policy.lineNumbering start.queue _ _ := .broken queued readable breaks
    obtain ⟨last, ran, -⟩ := fresh.tokenizeAll_of_cutsOff cutOff
    cases failed.symm.trans ran
    exact ⟨_, cutOff⟩

end Tokenizer.Fresh

/-! ## Texts that are written out -/

/-- Sources that are listed in order stay in order, also if a name is listed twice. -/
theorem Source.select_eq_self {tree : FileTree} {path extension : String} {names : List String}
    (ordered : names.Pairwise fun a b => byteLE a b = true)
    (sources : ∀ name ∈ names, ('.' :: extension.toList) <:+ name.toList ∧
      tree.isDirectory (Path.join path name) = false) :
    select tree path extension names = names := by
  have all : names.filter (fun name => hasExtension extension name && !tree.isDirectory (Path.join path name)) =
      names := by
    rw [List.filter_eq_self]
    intro name member
    obtain ⟨suffix, file⟩ := sources name member
    have named : hasExtension extension name = true := List.isSuffixOf_iff_suffix.mpr suffix
    rw [named, file]
    rfl
  unfold select
  rw [all]
  exact List.mergeSort_of_pairwise ordered

namespace FileTree

variable {tree : FileTree} {numbering : LineNumbering} {queue : List String} {events : List Event}
  {e : TokenizeError} {cut files : List (String × List Char)} {path extension name : String} {text : List Char}

/-- **A path holds a unit with the given texts**: there is something at it, and it stands for files that can be
read and that have these texts, in this order. -/
def HoldsUnit (tree : FileTree) (path extension : String) (texts : List (List Char)) : Prop :=
  tree.pathExists path = true ∧ ∃ (unit : List (String × List Char)) (events : List Event),
    Source.collect tree path extension = .ok (unit.map Prod.fst, events) ∧
      (∀ file ∈ unit, tree.readText file.1 = .ok file.2) ∧ unit.map Prod.snd = texts

/-- A file that can be read is a unit. -/
theorem holdsUnit_of_readText (readable : tree.readText path = .ok text) (extension : String) :
    tree.HoldsUnit path extension [text] := by
  obtain ⟨present, other⟩ := isDirectory_of_readText readable
  exact ⟨present, [(path, text)], [], Source.collect_of_isDirectory_eq_false other extension,
    List.forall_mem_singleton.mpr readable, rfl⟩

@[simp] theorem map_fst_entries_ofTexts (files : List (String × List Char)) :
    (ofTexts files).entries.map Prod.fst = files.map fun file => [file.1] := by
  apply List.ext_getElem
  · simp [ofTexts]
  · intro i inside inside'
    simp [ofTexts]

theorem proper_ofTexts (named : ∀ file ∈ files, Path.IsName file.1) (distinct : (files.map Prod.fst).Nodup) :
    (ofTexts files).Proper where
  distinct := by
    have single : Function.Injective fun name : String => [name] := fun a b same => List.singleton_injective same
    rw [map_fst_entries_ofTexts]
    simpa [Function.comp_def] using distinct.map single
  named := by
    intro below member name inside
    have found : below.1 ∈ (ofTexts files).entries.map Prod.fst := List.mem_map_of_mem member
    rw [map_fst_entries_ofTexts] at found
    obtain ⟨file, listed, same⟩ := List.mem_map.mp found
    rw [← same, List.mem_singleton] at inside
    exact inside ▸ named file listed

theorem lists_ofTexts (files : List (String × List Char)) : (ofTexts files).Lists "/" [] := by
  have checked : checkPath "/" = .ok () := by decide
  have names : Path.names "/" = [] := by decide
  refine ⟨?_, rfl⟩
  unfold locate
  rw [checked, names]
  rfl

@[simp] theorem namesBelow_ofTexts (files : List (String × List Char)) :
    (ofTexts files).namesBelow [] = files.map Prod.fst := by
  have whole : (ofTexts files).namesBelow [] = ((ofTexts files).entries.map Prod.fst).filterMap fun below =>
      if below ≠ [] ∧ below.dropLast = [] then below.getLast? else none := by
    rw [List.filterMap_map]
    rfl
  rw [whole, map_fst_entries_ofTexts, List.filterMap_map]
  show files.filterMap (some ∘ Prod.fst) = files.map Prod.fst
  rw [List.filterMap_eq_map]

theorem size_join_root (named : Path.IsName name) : Utf8.size (Path.join "/" name).toList ≤ longestPath := by
  have nonempty : "/".toList ≠ [] := by decide
  obtain ⟨front, joined, slash⟩ := Path.toList_join named nonempty
  have short := named.short
  have root : Utf8.size "/".toList = 1 := rfl
  have led : Utf8.size front ≤ 1 := by
    rcases slash with same | same
    · rw [← same, root]
    · rw [same, Utf8.size_append] at root
      omega
  rw [joined, Utf8.size_append, Utf8.size_cons, longestPath]
  rw [longestName] at short
  have one : Char.utf8Size '/' = 1 := rfl
  omega

/-- **What is written out can be read back.** -/
theorem readText_ofTexts (named : ∀ file ∈ files, Path.IsName file.1) (distinct : (files.map Prod.fst).Nodup)
    {file : String × List Char} (member : file ∈ files) :
    (ofTexts files).readText (Path.join "/" file.1) = .ok file.2 := by
  have isName := named file member
  have listed := lists_ofTexts files
  obtain ⟨i, inside, same⟩ := List.getElem_of_mem member
  have found : entry? (ofTexts files) ([] ++ [file.1]) = some (.file i) := by
    refine (proper_ofTexts named distinct).entry?_eq_some_iff.mpr (List.mem_mapIdx.mpr ⟨i, inside, ?_⟩)
    rw [same]
    rfl
  have located := locate_join isName listed.located listed.entered found
  rw [if_neg (Nat.not_lt.mpr (size_join_root isName))] at located
  have bytes : (ofTexts files).bytes i = Utf8.encode file.2 := by
    simp [FileTree.bytes, ofTexts, inside, same]
  have allowed : (ofTexts files).isDenied ([] ++ [file.1]) = false := rfl
  exact readText_of_decode located allowed found (bytes ▸ Utf8.decode_encode file.2)

/-- **Files that are written out are a unit**, if they are named in order and with the extension. -/
theorem holdsUnit_ofTexts (named : ∀ file ∈ files, Path.IsName file.1)
    (ordered : (files.map Prod.fst).Pairwise fun a b => Utf8.encode a.toList < Utf8.encode b.toList)
    (suffixed : ∀ file ∈ files, ('.' :: extension.toList) <:+ file.1.toList) :
    (ofTexts files).HoldsUnit "/" extension (files.map Prod.snd) := by
  have distinct : (files.map Prod.fst).Nodup := by
    refine ordered.imp ?_
    rintro a b less rfl
    exact List.lt_irrefl _ less
  have listed := lists_ofTexts files
  have taken : Source.select (ofTexts files) "/" extension (files.map Prod.fst) = files.map Prod.fst := by
    refine Source.select_eq_self (ordered.imp fun less => decide_eq_true (List.le_of_lt less)) fun name member => ?_
    obtain ⟨file, inside, rfl⟩ := List.mem_map.mp member
    exact ⟨suffixed file inside, (isDirectory_of_readText (readText_ofTexts named distinct inside)).2⟩
  obtain ⟨event, collected⟩ := Source.collect_of_lists listed extension
  rw [namesBelow_ofTexts, taken] at collected
  have present : (ofTexts files).pathExists "/" = true := by
    unfold pathExists
    rw [listed.located]
  refine ⟨present, files.map fun file => (Path.join "/" file.1, file.2), [event], ?_, ?_, ?_⟩
  · rw [collected]
    simp
  · intro file member
    obtain ⟨named', inside, rfl⟩ := List.mem_map.mp member
    exact readText_ofTexts named distinct inside
  · simp

/-- Nothing is a unit, too. -/
theorem holdsUnit_nil (extension : String) : (ofTexts []).HoldsUnit "/" extension [] :=
  holdsUnit_ofTexts (List.forall_mem_nil _) .nil (List.forall_mem_nil _)

theorem exists_holdsUnit_single (text : List Char) (extension : String) :
    ∃ (other : FileTree) (path : String), other.HoldsUnit path extension [text] := by
  have named : ∀ file ∈ [("A", text)], Path.IsName file.1 := by
    refine List.forall_mem_singleton.mpr ?_
    show Path.IsName "A"
    decide
  exact ⟨_, _, holdsUnit_of_readText
    (readText_ofTexts named (List.nodup_singleton _) (List.mem_singleton_self _)) extension⟩

/-- A directory that has a queue can be listed, and the queue holds what it lists. -/
theorem exists_lists_of_collect (directory : tree.isDirectory path = true)
    (collected : Source.collect tree path extension = .ok (queue, events)) :
    ∃ location, tree.Lists path location ∧
      queue = (Source.select tree path extension (tree.namesBelow location)).map (Path.join path) := by
  obtain ⟨location, listed⟩ : ∃ location, tree.Lists path location := by
    unfold Source.collect FileTree.list at collected
    rw [if_pos directory] at collected
    cases located : tree.locate path with
    | error cause =>
      rw [located] at collected
      cases collected
    | ok location =>
      cases entered : tree.enter location with
      | error cause =>
        simp only [located, entered, bind, Except.bind] at collected
        cases collected
      | ok _ => exact ⟨location, located, entered⟩
  obtain ⟨event, queued⟩ := Source.collect_of_lists listed extension
  cases collected.symm.trans queued
  exact ⟨location, listed, rfl⟩

/-- **What is left of a unit that was cut off is a unit.** A single file is written out as one, and the files of a
directory are written out under the names that they had. -/
theorem CutsOff.exists_holdsUnit (cutOff : tree.CutsOff numbering queue e cut) (proper : tree.Proper)
    (collected : Source.collect tree path extension = .ok (queue, events)) :
    ∃ (other : FileTree) (path : String), other.HoldsUnit path extension (cut.map Prod.snd) := by
  obtain ⟨later, queued⟩ := cutOff.exists_later
  cases directory : tree.isDirectory path with
  | false =>
    rw [Source.collect_of_isDirectory_eq_false directory] at collected
    cases collected
    cases cut with
    | nil => exact ⟨_, _, holdsUnit_nil extension⟩
    | cons file rest =>
      -- The queue is the path alone, so there is at most one file before the failure.
      have alone : rest = [] := by simpa using (List.append_eq_nil_iff.mp (List.cons.inj queued).2.symm).1
      subst alone
      exact exists_holdsUnit_single file.2 extension
  | true =>
    obtain ⟨location, listed, selected⟩ := exists_lists_of_collect directory collected
    obtain ⟨names, rest, split, joined, -⟩ := List.map_eq_append_iff.mp (selected.symm.trans queued)
    have same : names.length = (cut.map Prod.snd).length := by
      have lengths := congrArg List.length joined
      rwa [List.length_map, List.length_map, ← List.length_map (f := Prod.snd)] at lengths
    let files := names.zip (cut.map Prod.snd)
    have first : files.map Prod.fst = names := List.map_fst_zip (Nat.le_of_eq same)
    have second : files.map Prod.snd = cut.map Prod.snd := List.map_snd_zip (Nat.le_of_eq same.symm)
    have taken : ∀ file ∈ files, file.1 ∈ Source.select tree path extension (tree.namesBelow location) := by
      intro file member
      rw [split]
      exact List.mem_append_left _ (List.of_mem_zip member).1
    refine ⟨ofTexts files, "/", second ▸ holdsUnit_ofTexts ?_ ?_ ?_⟩
    · intro file member
      obtain ⟨entry, below⟩ := mem_namesBelow.mp (Source.mem_select.mp (taken file member)).1
      exact proper.isName below
    · have ordered : (Source.select tree path extension (tree.namesBelow location)).Pairwise fun a b =>
          Utf8.encode a.toList < Utf8.encode b.toList := Source.pairwise_select proper.nodup_namesBelow
      rw [split] at ordered
      rw [first]
      exact ordered.sublist (List.sublist_append_left names rest)
    · intro file member
      exact (Source.mem_select.mp (taken file member)).2.1

/-! ## What a path stands for -/

/-- **A failure cuts off what a path stands for**: a directory that cannot be listed has nothing before the
failure, and otherwise the queue is cut off. -/
inductive CutsOffAt (tree : FileTree) (policy : Policy) (path : String) :
    TokenizeError → List (String × List Char) → Prop where
  | unlisted {cause : FileError} : tree.isDirectory path = true → tree.list path = .error cause →
      CutsOffAt tree policy path (.sourceNotFound path cause) []
  | queued {queue : List String} {events : List Event} {e : TokenizeError} {cut : List (String × List Char)} :
      Source.collect tree path policy.extension = .ok (queue, events) →
      tree.CutsOff policy.lineNumbering queue e cut → CutsOffAt tree policy path e cut

theorem CutsOffAt.exists_holdsUnit {policy : Policy} (cutOff : tree.CutsOffAt policy path e cut)
    (proper : tree.Proper) :
    ∃ (other : FileTree) (path : String), other.HoldsUnit path policy.extension (cut.map Prod.snd) := by
  cases cutOff with
  | unlisted directory fails => exact ⟨_, _, holdsUnit_nil policy.extension⟩
  | queued collected cutOff => exact cutOff.exists_holdsUnit proper collected

end FileTree

namespace Tokenizer

variable {tree : FileTree} {policy : Policy} {path : String} {start final : Tokenizer} {e : TokenizeError}
  {cut : List (String × List Char)}

theorem ofPath_eq_ok_iff :
    ofPath tree policy path = .ok start ↔
      ∃ queue events, Source.collect tree path policy.extension = .ok (queue, events) ∧
        start = { policy := policy, queue := queue, journal := events.toArray } := by
  unfold ofPath
  split
  · rename_i cause unlisted
    simp [unlisted]
  · rename_i queue events collected
    simp [collected, eq_comm]

/-- A path for which there is no tokenizer is that of a directory that cannot be listed. -/
theorem ofPath_eq_error_iff :
    ofPath tree policy path = .error e ↔
      tree.isDirectory path = true ∧ ∃ cause, tree.list path = .error cause ∧ e = .sourceNotFound path cause := by
  unfold ofPath Source.collect
  by_cases directory : tree.isDirectory path = true
  · rw [if_pos directory]
    cases listed : tree.list path with
    | error cause => simp [directory, eq_comm]
    | ok names => simp
  · rw [if_neg directory]
    simp [directory]

/-- **A failure to list cuts everything off**, and there is no other. -/
theorem cutsOffAt_iff_of_unlisted {cause : TokenizeError} (unlisted : ofPath tree policy path = .error cause) :
    tree.CutsOffAt policy path e cut ↔ e = cause ∧ cut = [] := by
  constructor
  · intro cutOff
    cases cutOff with
    | unlisted directory fails =>
      have same : ofPath tree policy path = .error _ := ofPath_eq_error_iff.mpr ⟨directory, _, fails, rfl⟩
      cases unlisted.symm.trans same
      exact ⟨rfl, rfl⟩
    | queued collected cutOff =>
      have made := ofPath_eq_ok_iff.mpr ⟨_, _, collected, rfl⟩
      cases unlisted.symm.trans made
  · rintro ⟨rfl, rfl⟩
    obtain ⟨directory, cause, fails, rfl⟩ := ofPath_eq_error_iff.mp unlisted
    exact .unlisted directory fails

/-- **A run that fails was cut off.** -/
theorem exists_cutsOffAt (made : ofPath tree policy path = .ok start)
    (failed : start.tokenizeAll tree = (final, .error e)) : ∃ cut, tree.CutsOffAt policy path e cut := by
  obtain ⟨cut, cutOff⟩ := Fresh.exists_cutsOff (.path made) failed
  obtain ⟨queue, events, collected, rfl⟩ := ofPath_eq_ok_iff.mp made
  exact ⟨cut, .queued collected cutOff⟩

/-- **A run over what is cut off** fails, and has found the stream of what is before the failure. -/
theorem tokenizeAll_of_cutsOffAt (made : ofPath tree policy path = .ok start)
    (cutOff : tree.CutsOffAt policy path e cut) :
    ∃ final, start.tokenizeAll tree = (final, .error e) ∧
      final.tokens.toList = unitTokens policy (cut.map Prod.snd) := by
  cases cutOff with
  | unlisted directory fails =>
    have unlisted : ofPath tree policy path = .error _ := ofPath_eq_error_iff.mpr ⟨directory, _, fails, rfl⟩
    cases made.symm.trans unlisted
  | queued collected cutOff =>
    have fresh : start.Fresh := .path made
    obtain ⟨queue, events, collected', rfl⟩ := ofPath_eq_ok_iff.mp made
    cases collected.symm.trans collected'
    exact fresh.tokenizeAll_of_cutsOff cutOff

/-- **A run over a unit that can be read** ends without a failure, with the stream of the texts. -/
theorem exists_tokenizeAll_of_holdsUnit {texts : List (List Char)}
    (holds : tree.HoldsUnit path policy.extension texts) :
    ∃ start final, ofPath tree policy path = .ok start ∧ start.tokenizeAll tree = (final, .ok final.tokens) ∧
      final.tokens.toList = unitTokens policy texts := by
  obtain ⟨-, unit, events, collected, readable, rfl⟩ := holds
  have made := ofPath_eq_ok_iff.mpr ⟨_, _, collected, rfl⟩
  obtain ⟨final, whole, stream⟩ := Fresh.tokenizeAll_of_readable (.path made) rfl readable
  exact ⟨_, final, made, whole, stream⟩

/-- A directory of which the second file breaks off. -/
theorem cutsOffAt_brokenSecond :
    brokenSecond.CutsOffAt {} "/" (.unreadable "B.jack" 3 .invalidData)
      [("/A.jack", "a\n".toList), ("/B.jack", "b; /* c\n".toList)] := by
  have listed : brokenSecond.Lists "/" [] := ⟨by decide +kernel, by decide +kernel⟩
  have below : brokenSecond.namesBelow [] = ["A.jack", "B.jack"] := by decide +kernel
  have taken : Source.select brokenSecond "/" "jack" ["A.jack", "B.jack"] = ["A.jack", "B.jack"] :=
    Source.select_eq_self (by decide +kernel) (by decide +kernel)
  obtain ⟨event, collected⟩ := Source.collect_of_lists listed "jack"
  rw [below, taken] at collected
  have readable : ∀ file ∈ [("/A.jack", "a\n".toList)], brokenSecond.readText file.1 = .ok file.2 :=
    List.forall_mem_singleton.mpr rfl
  have breaks : SourceFile.BreaksOff brokenSecond "/B.jack" ["b; /* c\n".toList] .invalidData := by
    let file : SourceFile := ⟨"B.jack", "/B.jack", .file 1 0 []⟩
    have left : file.Holds brokenSecond (brokenSecond.bytes 1) := ⟨1, 0, [], rfl, rfl⟩
    obtain ⟨last, read, holds, -⟩ := SourceFile.readLine_of_holds left
    obtain ⟨ended, fails, -⟩ := SourceFile.readLine_of_holds holds
    exact ⟨file, last, ended, rfl, .cons read (.nil last), fails⟩
  exact .queued collected (.broken rfl readable breaks)

end Tokenizer

end JackTokens
