import JackTokens.Proofs.FailedOutput

/-!
# What the tokenize command reports

A run that succeeds is summed up in a report: the number of tokens, the number of files, and warnings about files
without tokens and about a run without any. The same warnings are noted as events, those about files only if the
request asks for more to be told. This module compares the report with the journal, and the events of a request that
asks with those of the same request that does not.

**Counts.** The records of the files count the tokens of the sections (`Tokenizer.Sections.map_count`), so a record
that counts none is that of a file between whose opening and closing no token was noted
(`Tokenizer.Tells.emptyFileWarnings_eq`). The files that were opened are those of the queue
(`Tokenizer.map_source_of_tokenizeAll`).

**Events.** The tokenizer itself notes no warning of the command (`Tokenizer.Tells.filterMap_warningText?`), so the
warnings that were noted can be counted (`Event.count_warning`).

**The law** (`TokenizeRequest.execute_summary`): what is shown, and what is reported, is the same whether or not more
is to be told; and the events differ by the warnings about files, which are noted once each.
-/

namespace JackTokens

/-! ## Warnings among events -/

namespace Event

/-- The text of a warning of the command. -/
def warningText? : Event → Option String
  | warning text => some text
  | _ => none

@[simp] theorem filterMap_warning (texts : List String) : (texts.map warning).filterMap warningText? = texts := by
  rw [List.filterMap_map]
  exact List.filterMap_some

/-- Behind events without warnings, the warnings are those that follow. -/
theorem filterMap_append_warning {events later : List Event} (unwarned : events.filterMap warningText? = [])
    (unwarned' : later.filterMap warningText? = []) (texts : List String) :
    (events ++ texts.map warning ++ later).filterMap warningText? = texts := by
  rw [List.filterMap_append, List.filterMap_append, unwarned, unwarned', filterMap_warning, List.nil_append,
    List.append_nil]

@[simp] theorem warningText?_eq_some_iff {event : Event} {text : String} :
    event.warningText? = some text ↔ event = .warning text := by
  cases event <;> simp [warningText?]

/-- Warnings are counted by their texts. -/
theorem count_warning (events : List Event) (text : String) :
    events.count (.warning text) = (events.filterMap warningText?).count text := by
  rw [List.count_filterMap, List.count]
  refine List.countP_congr fun event _ => ?_
  rw [beq_iff_eq, beq_iff_eq, warningText?_eq_some_iff]

end Event

/-- A file is told of without a warning of the command. -/
theorem FileTrace.filterMap_warningText? {trace : FileTrace}
    (only : ∀ event ∈ trace.inside, event.isInside = true) : trace.events.filterMap Event.warningText? = [] := by
  rw [List.filterMap_eq_nil_iff]
  intro event member
  unfold events at member
  simp only [List.mem_cons, List.mem_append, List.mem_map, List.not_mem_nil, or_false] at member
  rcases member with rfl | (⟨name, -, rfl⟩ | inside) | rfl
  · rfl
  · rfl
  · have kind := only event inside
    cases event with
    | warning text => cases kind
    | _ => rfl
  · rfl

namespace Tokenizer

variable {tree : FileTree} {t start final : Tokenizer} {parts : List (List Token)} {traces : List FileTrace}
  {ending : List Event}

/-! ## Counts -/

@[simp] theorem map_snd_spans (first : Nat) (parts : List (List Token)) :
    (spans first parts).map Prod.snd = parts.map List.length := by
  induction parts generalizing first with
  | nil => rfl
  | cons part parts ih => rw [spans, List.map_cons, List.map_cons, ih]

/-- **The records count the tokens of the sections.** -/
theorem Sections.map_count (sections : t.Sections parts) :
    t.files.toList.map Provenance.count = parts.map List.length := by
  rw [← map_snd_spans 0, ← sections.files, List.map_map]
  rfl

/-- **A record that counts no token** is that of a file of which no token was noted. -/
theorem Tells.emptyFileWarnings_eq (tells : start.Tells tree final traces ending) (unopened : start.files = #[])
    (sections : final.Sections (traces.map FileTrace.tokens)) :
    final.emptyFileWarnings =
      (traces.filter (·.tokens.isEmpty)).map fun trace => "File produced no tokens: " ++ trace.name := by
  have names : final.files.toList.map Provenance.name = traces.map FileTrace.name := by
    have same := congrArg (List.map Prod.fst) tells.files
    rw [unopened, List.map_append, List.map_map, List.map_map, List.map_map] at same
    exact same
  have counts : final.files.toList.map Provenance.count = traces.map (·.tokens.length) := by
    rw [sections.map_count, List.map_map]
    rfl
  -- The warnings are made of the names and the counts, wherever these come from.
  let warnings (files : List (String × Nat)) : List String :=
    (files.filter (·.2 == 0)).map fun file => "File produced no tokens: " ++ file.1
  have recorded : final.emptyFileWarnings =
      warnings (final.files.toList.map fun record => (record.name, record.count)) := by
    unfold emptyFileWarnings warnings
    rw [List.filter_map, List.map_map]
    rfl
  have noted : (traces.filter (·.tokens.isEmpty)).map (fun trace => "File produced no tokens: " ++ trace.name) =
      warnings (traces.map fun trace => (trace.name, trace.tokens.length)) := by
    unfold warnings
    rw [List.filter_map, List.map_map]
    refine congrArg _ (List.filter_congr fun trace _ => ?_)
    show trace.tokens.isEmpty = (trace.tokens.length == 0)
    cases trace.tokens <;> rfl
  rw [recorded, noted, ← List.zip_map', ← List.zip_map', names, counts]

/-- **A run that does not fail opens the files of its queue**, in order, and names each by the last name of its
path. -/
theorem map_source_of_tokenizeAll (idle : t.phase = .idle) {stream : Array Token}
    (success : (t.tokenizeAll tree).2 = .ok stream) :
    (t.tokenizeAll tree).1.files.toList.map Provenance.source =
      t.files.toList.map Provenance.source ++ t.queue.map fun path => (Path.displayName path, path) := by
  induction queued : t.queue generalizing t with
  | nil =>
    rw [(Reaches.refl t).tokenizeAll_of_idle idle queued, List.map_nil, List.append_nil]
    rfl
  | cons path queue ih =>
    rcases SourceFile.read_cases tree path with
      ⟨text, readable⟩ | ⟨cause, unopened⟩ | ⟨lines, cause, file, last, ended, opened, reads, fails⟩
    · obtain ⟨next, trace, same, between, behind, traced, source, -⟩ :=
        exists_traces_of_readText idle queued readable
      rw [same] at success ⊢
      rw [ih between success behind, traced.files, source, List.append_assoc, List.map_cons, List.singleton_append]
    · rw [(Reaches.refl t).tokenizeAll_of_failed (step_unopened idle queued unopened)] at success
      cases success
    · have named := (SourceFile.name_of_readLine fails).trans reads.name
      obtain ⟨middle, trace, reached, phase, -⟩ := exists_traces idle queued opened reads named
      rw [reached.tokenizeAll_of_failed (step_unreadable phase fails)] at success
      cases success

/-! ## Events -/

theorem filterMap_warningText?_ofPath {policy : Policy} {path : String}
    (made : ofPath tree policy path = .ok start) : start.journal.toList.filterMap Event.warningText? = [] := by
  obtain ⟨queue, events, collected, rfl⟩ := ofPath_eq_ok_iff.mp made
  unfold Source.collect at collected
  split at collected
  · split at collected
    · cases collected
    · simp only [Except.ok.injEq, Prod.mk.injEq] at collected
      rw [← collected.2]
      split <;> rfl
  · cases collected
    rfl

/-- **The tokenizer notes no warning of the command.** -/
theorem Tells.filterMap_warningText? (tells : start.Tells tree final traces ending)
    (first : start.journal.toList.filterMap Event.warningText? = [])
    (last : ending.filterMap Event.warningText? = []) :
    final.journal.toList.filterMap Event.warningText? = [] := by
  have files : (traces.flatMap FileTrace.events).filterMap Event.warningText? = [] := by
    rw [List.filterMap_flatMap, List.flatMap_eq_nil_iff]
    exact fun trace member => FileTrace.filterMap_warningText? (tells.inside trace member)
  rw [tells.journal, List.filterMap_append, List.filterMap_append, first, files, last]
  rfl

/-- **What a run that does not fail has noted and recorded**: one trace for each file of its queue, without a warning
of the command. -/
theorem exists_traces_of_tokenizeAll {policy : Policy} {path : String} (made : ofPath tree policy path = .ok start)
    (whole : start.tokenizeAll tree = (final, .ok final.tokens)) :
    ∃ traces : List FileTrace,
      traces.map FileTrace.source = start.queue.map (fun path => (Path.displayName path, path)) ∧
      (∀ trace ∈ traces, ∀ event ∈ trace.inside, event.isInside = true) ∧
      traces.flatMap FileTrace.tokens = final.tokens.toList ∧ final.files.size = traces.length ∧
      final.journal.toList = start.journal.toList ++ traces.flatMap FileTrace.events ++
        [.completed traces.length final.tokens.size] ∧
      final.journal.toList.filterMap Event.warningText? = [] ∧
      final.emptyFileWarnings =
        (traces.filter (·.tokens.isEmpty)).map fun trace => "File produced no tokens: " ++ trace.name := by
  have fresh : start.Fresh := .path made
  obtain ⟨idle, -, nothing⟩ := fresh.begins
  have unopened : start.files = #[] := congrArg Tokenizer.files fresh.eq
  have sources := map_source_of_tokenizeAll idle (congrArg Prod.snd whole)
  obtain ⟨traces, tells⟩ := exists_tells tree idle
  rw [whole] at tells sources
  have sections : final.Sections (traces.map FileTrace.tokens) := tells.sections nothing
  have size : final.files.size = traces.length := by rw [sections.size_files, List.length_map]
  refine ⟨traces, ?_, tells.inside, ?_, size, ?_, ?_, tells.emptyFileWarnings_eq unopened sections⟩
  · have files := tells.files
    rw [sources] at files
    exact (List.append_cancel_left files).symm
  · rw [sections.tokens, List.flatMap_def]
  · rw [tells.journal, ← size]
    rfl
  · exact tells.filterMap_warningText? (filterMap_warningText?_ofPath made) rfl

end Tokenizer

/-! ## The command -/

namespace TokenizeRequest

variable {tree : FileTree} {settings : Settings} {request : TokenizeRequest} {sink : Sink}

/-- **What depends on whether more is to be told**: nothing but the events of a run that succeeds. -/
theorem execute_verbose_cases (tree : FileTree) (settings : Settings) (request : TokenizeRequest) (sink : Sink) :
    (∃ after events cause, ∀ verbose,
        execute tree settings { request with verbose := verbose } sink = ⟨after, events, .error cause⟩) ∨
      ∃ plan start final after, request.plan settings = .ok plan ∧
        Tokenizer.ofPath tree plan.policy request.path = .ok start ∧
        plan.run tree start sink = (final, after, .ok ()) ∧
        ∀ verbose, execute tree settings { request with verbose := verbose } sink =
          { sink := after
            events := .tokenizing request.path plan.policy plan.format :: final.journal.toList ++
              ((if verbose then final.emptyFileWarnings else []) ++
                (final.emptyRunWarning? request.path).toList).map .warning ++
              [.finished final.files.size final.tokens.size]
            result := .ok (final.report request.path) } := by
  unfold execute
  have same : ∀ verbose, plan settings { request with verbose := verbose } = request.plan settings := fun _ => rfl
  simp only [same]
  cases request.plan settings with
  | error cause => exact .inl ⟨sink, [], cause, fun _ => rfl⟩
  | ok plan =>
    simp only
    split
    · cases made : Tokenizer.ofPath tree plan.policy request.path with
      | error cause =>
        exact .inl ⟨sink, [.tokenizing request.path plan.policy plan.format], .tokenize cause, fun _ => rfl⟩
      | ok start =>
        rcases ran : plan.run tree start sink with ⟨final, after, cause | _⟩
        · exact .inl ⟨after, .tokenizing request.path plan.policy plan.format :: final.journal.toList, cause,
            fun _ => by simp only [ran]⟩
        · exact .inr ⟨plan, start, final, after, rfl, made, ran, fun _ => by simp only [ran]; rfl⟩
    · exact .inl ⟨sink, [], _, fun _ => rfl⟩

/-- A warning about a file is none about the run. -/
theorem count_emptyRun (traces : List FileTrace) (path : String) :
    (traces.map fun trace => "File produced no tokens: " ++ trace.name).count ("No tokens produced from " ++ path) =
      0 := by
  rw [List.count_eq_zero]
  intro member
  obtain ⟨trace, -, same⟩ := List.mem_map.mp member
  have first := congrArg (·.toList.head?) same
  simp at first

/-- **The report sums up the run, and asking for more changes nothing else.** A request that asks for more to be told
shows the same and reports the same as one that does not, or fails alike with the same events. The report of a run
that succeeds has the number of its tokens and of the files that it opened, and warns of each file of which no token
was noted, in the order in which they were opened, and behind that of a run without tokens. The events are those of
the tokenizer, among which there is no such warning, and then the warning about the run; in between, if more is to
be told, the warnings about the files. Around them the command notes that it begins and that it has finished. So each
warning is noted as often as it is reported. -/
theorem execute_summary (tree : FileTree) (settings : Settings) (request : TokenizeRequest) (sink : Sink) :
    let quiet := execute tree settings { request with verbose := false } sink
    let loud := execute tree settings { request with verbose := true } sink
    loud.sink = quiet.sink ∧ loud.result = quiet.result ∧
      (∀ cause, quiet.result = .error cause → loud.events = quiet.events) ∧
      ∀ report, quiet.result = .ok report →
        ∃ (plan : TokenizePlan) (start final : Tokenizer) (traces : List FileTrace),
          request.plan settings = .ok plan ∧
          Tokenizer.ofPath tree plan.policy request.path = .ok start ∧
          start.tokenizeAll tree = (final, .ok final.tokens) ∧
          traces.map FileTrace.source = start.queue.map (fun path => (Path.displayName path, path)) ∧
          (∀ trace ∈ traces, ∀ event ∈ trace.inside, event.isInside = true) ∧
          traces.flatMap FileTrace.tokens = final.tokens.toList ∧
          let journal := .tokenizing request.path plan.policy plan.format :: start.journal.toList ++
            traces.flatMap FileTrace.events ++ [.completed traces.length final.tokens.size]
          let finished := .finished traces.length final.tokens.size
          let emptyFiles := (traces.filter (·.tokens.isEmpty)).map fun trace =>
            "File produced no tokens: " ++ trace.name
          let emptyRun := if final.tokens.isEmpty then ["No tokens produced from " ++ request.path] else []
          report.data = final.tokens.size ∧ report.items = traces.length ∧
            report.warnings = emptyFiles ++ emptyRun ∧
            quiet.events = journal ++ emptyRun.map .warning ++ [finished] ∧
            loud.events = journal ++ emptyFiles.map .warning ++ emptyRun.map .warning ++ [finished] ∧
            (∀ text, quiet.events.count (.warning text) = emptyRun.count text ∧
              loud.events.count (.warning text) = report.warnings.count text) ∧
            report.warnings.count ("No tokens produced from " ++ request.path) = emptyRun.length := by
  intro quiet loud
  rcases execute_verbose_cases tree settings request sink with ⟨after, events, cause, same⟩ |
    ⟨plan, start, final, after, planned, made, ran, same⟩
  · have quietly : quiet = ⟨after, events, .error cause⟩ := same false
    have aloud : loud = ⟨after, events, .error cause⟩ := same true
    rw [quietly, aloud]
    refine ⟨rfl, rfl, fun _ _ => rfl, fun report success => ?_⟩
    cases success
  · have quietly : quiet = _ := same false
    have aloud : loud = _ := same true
    rw [quietly, aloud]
    refine ⟨rfl, rfl, fun cause failed => ?_, fun report success => ?_⟩
    · cases failed
    cases success
    have whole := Tokenizer.tokenizeAll_eq_ok_iff.mpr (TokenizePlan.run_ok (.path made) ran).1
    obtain ⟨traces, sources, inside, tokens, size, journal, unwarned, emptyFiles⟩ :=
      Tokenizer.exists_traces_of_tokenizeAll made whole
    have emptyRun : (final.emptyRunWarning? request.path).toList =
        if final.tokens.isEmpty then ["No tokens produced from " ++ request.path] else [] := by
      unfold Tokenizer.emptyRunWarning?
      split <;> rfl
    have warnings : (final.report request.path).warnings = final.emptyFileWarnings ++ _ := rfl
    rw [emptyRun, emptyFiles] at warnings
    simp only [emptyRun, emptyFiles, if_true, Bool.false_eq_true, if_false, List.nil_append]
    have began : (Event.tokenizing request.path plan.policy plan.format :: final.journal.toList).filterMap
        Event.warningText? = [] := (List.filterMap_cons_none rfl).trans unwarned
    refine ⟨plan, start, final, traces, planned, made, whole, sources, inside, tokens, rfl, size, warnings, ?_, ?_,
      fun text => ⟨?_, ?_⟩, ?_⟩
    · rw [journal, size]
      rfl
    · rw [journal, size, List.map_append]
      simp only [List.cons_append, List.append_assoc]
    · rw [Event.count_warning, Event.filterMap_append_warning began rfl]
    · rw [Event.count_warning, Event.filterMap_append_warning began rfl, warnings]
    · rw [warnings, List.count_append, count_emptyRun, Nat.zero_add]
      split
      · exact List.count_singleton_self
      · rfl

/-- A directory of two files, one with a comment and one without a line: three warnings are reported, and all of them
are noted if more is to be told; otherwise the last. -/
theorem execute_summary_withoutTokens :
    let tree := FileTree.ofTexts [("A.jack", "// a\n".toList), ("B.jack", [])]
    let quiet := execute tree {} { path := "/" } {}
    let loud := execute tree {} { path := "/", verbose := true } {}
    let emptyRun := "No tokens produced from /"
    ∃ report, quiet.result = .ok report ∧ loud.result = .ok report ∧ report.data = 0 ∧ report.items = 2 ∧
      report.warnings = ["File produced no tokens: A.jack", "File produced no tokens: B.jack", emptyRun] ∧
      quiet.events.count (.warning emptyRun) = 1 ∧ loud.events.count (.warning emptyRun) = 1 ∧
      quiet.events.count (.warning "File produced no tokens: A.jack") = 0 ∧
      loud.events.count (.warning "File produced no tokens: A.jack") = 1 := by
  intro tree quiet loud emptyRun
  have planned : plan {} { path := "/" } = .ok ⟨{}, .text, false⟩ := by decide +kernel
  have holds : tree.HoldsUnit "/" ({} : Policy).extension ["// a\n".toList, []] :=
    FileTree.holdsUnit_ofTexts (by decide +kernel) (by decide +kernel) (by decide +kernel)
  -- The queue, which the names of the files are taken from.
  have taken : Source.select tree "/" "jack" ["A.jack", "B.jack"] = ["A.jack", "B.jack"] :=
    Source.select_eq_self (by decide +kernel) (by decide +kernel)
  have joined : ["A.jack", "B.jack"].map (Path.join "/") = ["/A.jack", "/B.jack"] := by decide +kernel
  obtain ⟨event, collected⟩ : ∃ event, Source.collect tree "/" "jack" = .ok (["/A.jack", "/B.jack"], [event]) := by
    obtain ⟨event, collected⟩ := Source.collect_of_lists (FileTree.lists_ofTexts _ : tree.Lists "/" []) "jack"
    rw [FileTree.namesBelow_ofTexts] at collected
    refine ⟨event, collected.trans ?_⟩
    rw [← joined, ← taken]
    rfl
  -- The run, and what the law says of it.
  obtain ⟨start, final, made, whole, stream⟩ := Tokenizer.exists_tokenizeAll_of_holdsUnit holds
  have completes : Completes tree {} { path := "/" } ⟨{}, .text, false⟩ final :=
    ⟨planned, holds.1, start, made, whole⟩
  have success : quiet.result = .ok (final.report "/") := completes.execute rfl
  obtain ⟨-, same, -, sums⟩ := execute_summary tree {} { path := "/" } {}
  obtain ⟨plan', start', final', traces, planned', made', whole', sources, -, tokens, data, items, warnings, -, -,
    counts, -⟩ := sums _ success
  cases planned.symm.trans planned'
  cases made.symm.trans made'
  cases whole.symm.trans whole'
  have empty : final.tokens.toList = [] := stream.trans (by decide +kernel)
  have queue : start.queue = ["/A.jack", "/B.jack"] := by
    obtain ⟨queue, events, collected', rfl⟩ := Tokenizer.ofPath_eq_ok_iff.mp made
    cases collected.symm.trans collected'
    rfl
  have names : traces.map FileTrace.source = [("A.jack", "/A.jack"), ("B.jack", "/B.jack")] := by
    rw [sources, queue]
    decide +kernel
  have silent : traces.filter (·.tokens.isEmpty) = traces := by
    rw [List.filter_eq_self]
    rw [empty, List.flatMap_eq_nil_iff] at tokens
    intro trace member
    rw [tokens trace member]
    rfl
  have files : (traces.filter (·.tokens.isEmpty)).map (fun trace => "File produced no tokens: " ++ trace.name) =
      (traces.map FileTrace.source).map fun source => "File produced no tokens: " ++ source.1 := by
    rw [silent, List.map_map]
    rfl
  have none : final.tokens.isEmpty = true := by simpa using empty
  rw [files, names, none, if_pos rfl] at warnings
  rw [none, if_pos rfl] at counts
  refine ⟨_, success, same.trans success, ?_, items.trans ?_, warnings, ?_, ?_, ?_, ?_⟩
  · rw [data, ← Array.length_toList, empty]
    rfl
  · rw [← List.length_map FileTrace.source, names]
    rfl
  · exact (counts _).1.trans (by decide +kernel)
  · exact (counts _).2.trans (by rw [warnings]; decide +kernel)
  · exact (counts _).1.trans (by decide +kernel)
  · exact (counts _).2.trans (by rw [warnings]; decide +kernel)

end TokenizeRequest

end JackTokens
