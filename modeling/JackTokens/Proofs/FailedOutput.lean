import JackTokens.Proofs.Decoding
import JackTokens.Proofs.Journal
import JackTokens.Proofs.Layering
import JackTokens.Proofs.Units

/-!
# What a failed command has shown

A command that fails may have shown something by then. How much depends on when it fails and on the form of its
output: everything about the request is checked before anything is opened, plain lines are shown while the run goes
on, and the other forms not before it is over.

**What a command can do** (`TokenizeRequest.Executes`). There are five ends: the request is refused, its path leads
nowhere, the sources cannot be listed, the run fails, or the output is shown.

**Requests that are refused** have shown nothing and opened nothing: their outcome is the same in any other tree
where the path leads somewhere, or nowhere, as it does in this one.

**Runs that fail** have shown nothing if the output is to be grouped or a document. In plain lines they have shown
the tokens before the failure (`TokenizePlan.run_plain_failed`), which are those of the texts that are before it
(`FileTree.CutsOffAt`).

**The law** (`TokenizeRequest.execute_failure`) puts this together: what a failed command has shown is what the
command shows of any unit with the texts before the failure, and there is such a unit.
-/

namespace JackTokens

/-! ## Plans that are not carried out -/

/-- A failure that is neither that of a request nor that of a run, but of writing. -/
def CommandError.IsOfSink (e : CommandError) : Prop := (∃ cause, e = .document cause) ∨ ∃ cause, e = .file cause

theorem Sink.isOfSink_of_writeDocument {sink after : Sink} {document : Json} {e : CommandError}
    (written : sink.writeDocument document = (after, .error e)) : e.IsOfSink := by
  unfold writeDocument at written
  split at written
  · cases written
    exact .inl ⟨_, rfl⟩
  · split at written
    · cases written
      exact .inr ⟨_, rfl⟩
    · cases written

namespace Tokenizer

variable {tree : FileTree} {t start final : Tokenizer} {sink after : Sink} {e : TokenizeError}

/-- A run that is shown fails by itself or by writing. -/
theorem stream_error {cause : CommandError} (shown : t.stream tree sink = (final, after, .error cause)) :
    (∃ e, cause = .tokenize e) ∨ cause.IsOfSink := by
  fun_induction Tokenizer.stream tree t sink with
  | case1 t sink next stepped ih => exact ih shown
  | case2 t sink next token stepped room written ih => exact ih shown
  | case3 t sink next token stepped room cause written =>
    cases shown
    exact .inr (.inr ⟨cause, rfl⟩)
  | case4 t sink next stepped => cases shown
  | case5 t sink next e stepped =>
    cases shown
    exact .inl ⟨e, rfl⟩

theorem tokenizeAll_eq_error_iff :
    t.tokenizeAll tree = (final, .error e) ↔ t.drain tree = (final, .error e) := by
  unfold tokenizeAll
  constructor
  · intro failed
    split at failed
    · cases failed
    · rename_i last cause drained
      cases failed
      exact drained
  · intro drained
    rw [drained]

/-- The tokens that a run has noted are those of its stream. -/
theorem Fresh.filterMap_journal_tokenizeAll (fresh : start.Fresh) (tree : FileTree) :
    (start.tokenizeAll tree).1.journal.toList.filterMap Event.token? =
      (start.tokenizeAll tree).1.tokens.toList := by
  obtain ⟨idle, -, nothing⟩ := fresh.begins
  obtain ⟨traces, tells⟩ := exists_tells tree idle
  exact tells.filterMap_journal fresh (tells.sections nothing)

end Tokenizer

namespace TokenizePlan

variable {tree : FileTree} {plan : TokenizePlan} {start final : Tokenizer} {sink after : Sink} {e : TokenizeError}

theorem form_cases (plan : TokenizePlan) :
    (plan.format = .json ∨ plan.byFile = true) ∨ plan.format = .text ∧ plan.byFile = false := by
  cases plan.format with
  | json => exact .inl (.inl rfl)
  | text =>
    cases plan.byFile with
    | true => exact .inl (.inr rfl)
    | false => exact .inr ⟨rfl, rfl⟩

theorem run_plain (plain : plan.format = .text) (ungrouped : plan.byFile = false) :
    plan.run tree start sink = start.stream tree sink := by
  unfold run
  rw [plain, ungrouped]

/-- **Where the whole stream is needed**, a run that fails has shown nothing. -/
theorem run_whole_error {cause : CommandError} (whole : plan.format = .json ∨ plan.byFile = true)
    (ran : plan.run tree start sink = (final, after, .error cause)) :
    (∃ e, cause = .tokenize e ∧ start.tokenizeAll tree = (final, .error e) ∧ after = sink) ∨ cause.IsOfSink := by
  unfold run at ran
  split at ran
  · rename_i plain ungrouped
    rw [plain, ungrouped] at whole
    rcases whole with other | other
    · cases other
    · cases other
  · split at ran
    · rename_i last e drained
      cases ran
      exact .inl ⟨e, rfl, Tokenizer.tokenizeAll_eq_error_iff.mpr drained, rfl⟩
    · split at ran
      · split at ran
        · cases ran
          exact .inr (.inr ⟨_, rfl⟩)
        · cases ran
      · simp only [Prod.mk.injEq] at ran
        obtain ⟨-, -, shown⟩ := ran
        exact .inr (Sink.isOfSink_of_writeDocument (Prod.ext rfl shown))

/-- **In plain lines**, a run that fails has shown the tokens before the failure. -/
theorem run_plain_failed (fresh : start.Fresh) (plain : plan.format = .text) (ungrouped : plan.byFile = false)
    (ran : plan.run tree start sink = (final, after, .error (.tokenize e))) :
    start.tokenizeAll tree = (final, .error e) ∧ after.text = sink.text ++ Dump.lines final.tokens.toList ∧
      (sink.torn = [] → after.torn = []) := by
  rw [run_plain plain ungrouped] at ran
  have shown : start.stream tree sink = (final, after, (Except.error e).mapError .tokenize) := ran
  obtain ⟨drained, tokens, appended, text, torn⟩ := Tokenizer.drain_of_stream fresh.coherent shown
  have stream : final.tokens.toList = tokens := by
    rw [appended, fresh.eq]
    rfl
  rw [stream]
  exact ⟨Tokenizer.tokenizeAll_eq_error_iff.mpr drained, text, torn⟩

theorem run_whole_failed (whole : plan.format = .json ∨ plan.byFile = true)
    (ran : plan.run tree start sink = (final, after, .error (.tokenize e))) :
    start.tokenizeAll tree = (final, .error e) ∧ after = sink := by
  rcases run_whole_error whole ran with ⟨cause, same, failed, unchanged⟩ | ⟨cause, other⟩ | ⟨cause, other⟩
  · cases same
    exact ⟨failed, unchanged⟩
  · cases other
  · cases other

theorem tokenizeAll_of_run_failed (fresh : start.Fresh)
    (ran : plan.run tree start sink = (final, after, .error (.tokenize e))) :
    start.tokenizeAll tree = (final, .error e) := by
  rcases plan.form_cases with whole | ⟨plain, ungrouped⟩
  · exact (run_whole_failed whole ran).1
  · exact (run_plain_failed fresh plain ungrouped ran).1

/-- Carrying out a plan finds no fault with the request. -/
theorem run_ne_request {fault : RequestFault} :
    plan.run tree start sink ≠ (final, after, .error (.request fault)) := by
  intro ran
  have otherwise : (∃ e, CommandError.request fault = .tokenize e) ∨ (CommandError.request fault).IsOfSink := by
    rcases plan.form_cases with whole | ⟨plain, ungrouped⟩
    · exact (run_whole_error whole ran).imp_left fun ⟨e, same, _⟩ => ⟨e, same⟩
    · rw [run_plain plain ungrouped] at ran
      exact Tokenizer.stream_error ran
  rcases otherwise with ⟨e, same⟩ | ⟨cause, same⟩ | ⟨cause, same⟩
  · cases same
  · cases same
  · cases same

/-- Where room has no bound, a plan fails if the run does. -/
theorem run_of_failed (plan : TokenizePlan) (unbounded : sink.room = none)
    (failed : start.tokenizeAll tree = (final, .error e)) :
    ∃ after, plan.run tree start sink = (final, after, .error (.tokenize e)) := by
  have drained := Tokenizer.tokenizeAll_eq_error_iff.mp failed
  unfold run
  split
  · exact Tokenizer.stream_of_drain unbounded drained
  · rw [drained]
    exact ⟨sink, rfl⟩

end TokenizePlan

/-! ## What a command can do -/

namespace TokenizeRequest

variable {tree : FileTree} {settings : Settings} {request : TokenizeRequest} {sink : Sink} {plan : TokenizePlan}
  {cut : List (String × List Char)} {texts : List (List Char)} {e : TokenizeError}

/-- **What a command can do**, and what comes of it. -/
inductive Executes (tree : FileTree) (settings : Settings) (request : TokenizeRequest) (sink : Sink) :
    TokenizeOutcome → Prop where
  | refused {e : CommandError} : request.plan settings = .error e →
      Executes tree settings request sink ⟨sink, [], .error e⟩
  | missing {plan : TokenizePlan} : request.plan settings = .ok plan → tree.pathExists request.path = false →
      Executes tree settings request sink ⟨sink, [], .error (.request (.noInput request.path))⟩
  | unlisted {plan : TokenizePlan} {e : TokenizeError} : request.plan settings = .ok plan →
      tree.pathExists request.path = true → Tokenizer.ofPath tree plan.policy request.path = .error e →
      Executes tree settings request sink
        ⟨sink, [.tokenizing request.path plan.policy plan.format], .error (.tokenize e)⟩
  | failed {plan : TokenizePlan} {start final : Tokenizer} {after : Sink} {e : CommandError} :
      request.plan settings = .ok plan → tree.pathExists request.path = true →
      Tokenizer.ofPath tree plan.policy request.path = .ok start →
      plan.run tree start sink = (final, after, .error e) →
      Executes tree settings request sink
        ⟨after, .tokenizing request.path plan.policy plan.format :: final.journal.toList, .error e⟩
  | shown {plan : TokenizePlan} {start final : Tokenizer} {after : Sink} {events : List Event} {told : Report Nat} :
      request.plan settings = .ok plan → tree.pathExists request.path = true →
      Tokenizer.ofPath tree plan.policy request.path = .ok start →
      plan.run tree start sink = (final, after, .ok ()) →
      Executes tree settings request sink ⟨after, events, .ok told⟩

theorem executes_execute (tree : FileTree) (settings : Settings) (request : TokenizeRequest) (sink : Sink) :
    request.Executes tree settings sink (request.execute tree settings sink) := by
  unfold execute
  split
  · rename_i e refused
    exact .refused refused
  · rename_i plan planned
    split
    · rename_i present
      split
      · rename_i e unlisted
        exact .unlisted planned present unlisted
      · rename_i start made
        split
        · rename_i final after e ran
          exact .failed planned present made ran
        · rename_i final after ran
          exact .shown planned present made ran
    · rename_i missing
      rw [Bool.not_eq_true] at missing
      exact .missing planned missing

theorem execute_of_refused {e : CommandError} (refused : request.plan settings = .error e) :
    request.execute tree settings sink = ⟨sink, [], .error e⟩ := by
  unfold execute
  rw [refused]

theorem execute_of_missing (planned : request.plan settings = .ok plan)
    (missing : tree.pathExists request.path = false) :
    request.execute tree settings sink = ⟨sink, [], .error (.request (.noInput request.path))⟩ := by
  unfold execute
  rw [planned, missing]
  rfl

/-! ## Requests that are refused -/

/-- **Which requests are refused**: those without a plan, and those whose path leads nowhere. -/
theorem refused_cases {fault : RequestFault}
    (refused : (request.execute tree settings sink).result = .error (.request fault)) :
    request.plan settings = .error (.request fault) ∨
      (∃ plan, request.plan settings = .ok plan) ∧ tree.pathExists request.path = false ∧
        fault = .noInput request.path := by
  have executes := executes_execute tree settings request sink
  generalize request.execute tree settings sink = outcome at refused executes
  cases executes with
  | refused unplanned =>
    cases refused
    exact .inl unplanned
  | missing planned missing =>
    cases refused
    exact .inr ⟨⟨_, planned⟩, missing, rfl⟩
  | unlisted planned present unlisted => cases refused
  | @failed plan start final after e planned present made ran =>
    cases refused
    exact absurd ran TokenizePlan.run_ne_request
  | shown planned present made ran => cases refused

theorem result_eq_request_iff {fault : RequestFault} :
    (request.execute tree settings sink).result = .error (.request fault) ↔
      request.FirstFault settings fault ∨
        request.Sound settings ∧ tree.pathExists request.path = false ∧ fault = .noInput request.path := by
  constructor
  · intro refused
    rcases refused_cases refused with unplanned | ⟨planned, missing, same⟩
    · obtain ⟨first, faulty, same⟩ := plan_eq_error_iff.mp unplanned
      cases same
      exact .inl faulty
    · exact .inr ⟨exists_plan_iff.mp planned, missing, same⟩
  · rintro (faulty | ⟨sound, missing, rfl⟩)
    · rw [execute_of_refused (plan_eq_error_iff.mpr ⟨fault, faulty, rfl⟩)]
    · obtain ⟨plan, planned⟩ := exists_plan_iff.mpr sound
      rw [execute_of_missing planned missing]

/-- **A request that is refused has done nothing**, and asks nothing of the tree but whether its path leads
somewhere. -/
theorem execute_of_request {fault : RequestFault}
    (refused : (request.execute tree settings sink).result = .error (.request fault)) (other : FileTree)
    (same : other.pathExists request.path = tree.pathExists request.path) :
    request.execute other settings sink = ⟨sink, [], .error (.request fault)⟩ := by
  rcases refused_cases refused with unplanned | ⟨⟨plan, planned⟩, missing, rfl⟩
  · exact execute_of_refused unplanned
  · exact execute_of_missing planned (same.trans missing)

/-! ## Runs that fail -/

/-- **What a run that fails has shown**, by what is before the failure: the tokens were noted, and they have been
shown in plain lines or not at all. -/
theorem shown_of_failed {room : Option Nat}
    (failed : (request.execute tree settings { room := room }).result = .error (.tokenize e)) :
    ∃ plan, request.plan settings = .ok plan ∧ (∃ cut, tree.CutsOffAt plan.policy request.path e cut) ∧
      (plan.format = .json ∨ plan.byFile = true →
        (request.execute tree settings { room := room }).sink = { room := room }) ∧
      ∀ cut, tree.CutsOffAt plan.policy request.path e cut →
        (request.execute tree settings { room := room }).events.filterMap Event.token? =
            Tokenizer.unitTokens plan.policy (cut.map Prod.snd) ∧
        (plan.format = .text → plan.byFile = false →
          (request.execute tree settings { room := room }).sink.text =
              Dump.lines (Tokenizer.unitTokens plan.policy (cut.map Prod.snd)) ∧
            (request.execute tree settings { room := room }).sink.torn = []) := by
  have executes := executes_execute tree settings request { room := room }
  generalize request.execute tree settings { room := room } = outcome at failed executes
  cases executes with
  | refused unplanned =>
    cases failed
    obtain ⟨fault, -, other⟩ := plan_eq_error_iff.mp unplanned
    cases other
  | missing planned missing => cases failed
  | @unlisted plan cause planned present unlisted =>
    cases failed
    have nothing := (Tokenizer.cutsOffAt_iff_of_unlisted unlisted).mpr ⟨rfl, rfl⟩
    refine ⟨plan, planned, ⟨[], nothing⟩, fun _ => rfl, ?_⟩
    intro cut cutOff
    rw [((Tokenizer.cutsOffAt_iff_of_unlisted unlisted).mp cutOff).2]
    exact ⟨rfl, fun _ _ => ⟨rfl, rfl⟩⟩
  | @failed plan start final after cause planned present made ran =>
    cases failed
    have whole := TokenizePlan.tokenizeAll_of_run_failed (.path made) ran
    refine ⟨plan, planned, Tokenizer.exists_cutsOffAt made whole, ?_, ?_⟩
    · intro form
      exact (TokenizePlan.run_whole_failed form ran).2
    · intro cut cutOff
      -- The run over what is cut off is this run, so that both have the same stream.
      obtain ⟨last, again, stream⟩ := Tokenizer.tokenizeAll_of_cutsOffAt made cutOff
      cases whole.symm.trans again
      have noted := Tokenizer.Fresh.filterMap_journal_tokenizeAll (.path made) tree
      rw [whole, stream] at noted
      refine ⟨(List.filterMap_cons_none rfl).trans noted, fun plain ungrouped => ?_⟩
      obtain ⟨-, text, torn⟩ := TokenizePlan.run_plain_failed (.path made) plain ungrouped ran
      rw [stream] at text
      exact ⟨text.trans String.empty_append, torn rfl⟩
  | shown planned present made ran => cases failed

/-- Where room has no bound, a command fails if what its path stands for is cut off. -/
theorem result_of_cutsOffAt (unbounded : sink.room = none) (planned : request.plan settings = .ok plan)
    (present : tree.pathExists request.path = true) (cutOff : tree.CutsOffAt plan.policy request.path e cut) :
    (request.execute tree settings sink).result = .error (.tokenize e) := by
  unfold execute
  rw [planned]
  dsimp only
  rw [if_pos present]
  cases made : Tokenizer.ofPath tree plan.policy request.path with
  | error cause => rw [((Tokenizer.cutsOffAt_iff_of_unlisted made).mp cutOff).1]
  | ok start =>
    obtain ⟨final, failed, -⟩ := Tokenizer.tokenizeAll_of_cutsOffAt made cutOff
    obtain ⟨after, ran⟩ := plan.run_of_failed unbounded failed
    dsimp only
    rw [ran]

/-- **What is shown of a unit that can be read.** -/
theorem exists_text_of_holdsUnit (planned : request.plan settings = .ok plan) (plain : plan.format = .text)
    (ungrouped : plan.byFile = false) (holds : tree.HoldsUnit request.path plan.policy.extension texts) :
    ∃ told, (request.execute tree settings {}).result = .ok told ∧
      (request.execute tree settings {}).sink.text = Dump.lines (Tokenizer.unitTokens plan.policy texts) := by
  obtain ⟨start, final, made, whole, stream⟩ := Tokenizer.exists_tokenizeAll_of_holdsUnit holds
  have completes : request.Completes tree settings plan final := ⟨planned, holds.1, start, made, whole⟩
  have succeeded : (request.execute tree settings {}).result = .ok (final.report request.path) :=
    completes.execute rfl
  refine ⟨_, succeeded, ?_⟩
  rw [completes.text_execute succeeded plain ungrouped, stream]

/-! ## The law -/

/-- **What a failed command has shown.** A request is refused exactly if it has a fault or if its path leads
nowhere; nothing has been shown or noted then, and nothing was asked of the tree but whether the path leads
somewhere. If the run fails, the failure has cut off what the path stands for. Nothing has been shown where output
is to be a document or grouped by files. In plain lines, the tokens that were noted before the failure have been
shown, in whole lines; and this is what the command shows, with success, of any other unit that has the texts before
the failure. There is such a unit in some tree, if this tree is a proper one. And where room has no bound, every
unit that is cut off makes the command fail. -/
theorem execute_failure (tree : FileTree) (settings : Settings) (request : TokenizeRequest)
    (room : Option Nat) :
    let outcome := request.execute tree settings { room := room }
    (∀ fault, outcome.result = .error (.request fault) ↔
      request.FirstFault settings fault ∨
        request.Sound settings ∧ tree.pathExists request.path = false ∧ fault = .noInput request.path) ∧
    (∀ fault, outcome.result = .error (.request fault) →
      outcome.sink = { room := room } ∧ outcome.events = [] ∧
        ∀ other : FileTree, other.pathExists request.path = tree.pathExists request.path →
          request.execute other settings { room := room } = outcome) ∧
    (∀ e, outcome.result = .error (.tokenize e) →
      ∃ plan, request.plan settings = .ok plan ∧ (∃ cut, tree.CutsOffAt plan.policy request.path e cut) ∧
        (plan.format = .json ∨ plan.byFile = true → outcome.sink = { room := room }) ∧
        (plan.format = .text → plan.byFile = false →
          outcome.sink.text = Dump.lines (outcome.events.filterMap Event.token?) ∧ outcome.sink.torn = [] ∧
          ∀ cut, tree.CutsOffAt plan.policy request.path e cut →
            (∀ (other : FileTree) (path : String),
              other.HoldsUnit path plan.policy.extension (cut.map Prod.snd) →
              ∃ told, ({ request with path := path }.execute other settings {}).result = .ok told ∧
                ({ request with path := path }.execute other settings {}).sink.text = outcome.sink.text) ∧
            (tree.Proper → ∃ (other : FileTree) (path : String),
              other.HoldsUnit path plan.policy.extension (cut.map Prod.snd)))) ∧
    (room = none → ∀ plan e cut, request.plan settings = .ok plan → tree.pathExists request.path = true →
      tree.CutsOffAt plan.policy request.path e cut → outcome.result = .error (.tokenize e)) := by
  intro outcome
  refine ⟨fun fault => result_eq_request_iff, ?_, ?_, ?_⟩
  · intro fault refused
    have here : outcome = ⟨{ room := room }, [], .error (.request fault)⟩ := execute_of_request refused tree rfl
    rw [here]
    exact ⟨rfl, rfl, fun other same => execute_of_request refused other same⟩
  · intro e failed
    obtain ⟨plan, planned, ⟨cut, cutOff⟩, whole, before⟩ := shown_of_failed failed
    refine ⟨plan, planned, ⟨cut, cutOff⟩, whole, fun plain ungrouped => ?_⟩
    obtain ⟨noted, lines⟩ := before cut cutOff
    refine ⟨(lines plain ungrouped).1.trans (congrArg Dump.lines noted.symm), (lines plain ungrouped).2, ?_⟩
    intro cut cutOff
    refine ⟨fun other path holds => ?_, cutOff.exists_holdsUnit⟩
    have moved : { request with path := path }.plan settings = .ok plan := planned
    obtain ⟨told, succeeded, shown⟩ := exists_text_of_holdsUnit moved plain ungrouped holds
    exact ⟨told, succeeded, shown.trans ((before cut cutOff).2 plain ungrouped).1.symm⟩
  · intro unbounded plan e cut planned present cutOff
    exact result_of_cutsOffAt unbounded planned present cutOff

open Tokenizer (brokenSecond cutSecond) in
/-- The law at a directory of which the second file breaks off, in plain lines and as a document. -/
theorem execute_failure_brokenSecond :
    let plain : TokenizeRequest := { path := "/" }
    let document : TokenizeRequest := { path := "/", format := some "json" }
    (plain.execute brokenSecond {} {}).result = .error (.tokenize (.unreadable "B.jack" 3 .invalidData)) ∧
      (plain.execute brokenSecond {} {}).sink.text = "1\tidentifier\ta\n2\tidentifier\tb\n2\tsymbol\t;\n" ∧
      (document.execute brokenSecond {} {}).result =
        .error (.tokenize (.unreadable "B.jack" 3 .invalidData)) ∧
      (document.execute brokenSecond {} {}).sink = {} := by
  intro plain document
  have cutOff := Tokenizer.cutsOffAt_brokenSecond
  have present : brokenSecond.pathExists "/" = true := by decide +kernel
  have planned : plain.plan {} = .ok ⟨{}, .text, false⟩ := by decide +kernel
  have planned' : document.plan {} = .ok ⟨{}, .json, false⟩ := by decide +kernel
  obtain ⟨-, -, fails, makes⟩ := execute_failure brokenSecond {} plain none
  obtain ⟨-, -, fails', makes'⟩ := execute_failure brokenSecond {} document none
  have failed := makes rfl _ _ _ planned present cutOff
  have failed' := makes' rfl _ _ _ planned' present cutOff
  refine ⟨failed, ?_, failed', ?_⟩
  · obtain ⟨plan, same, -, -, lines⟩ := fails _ failed
    cases planned.symm.trans same
    obtain ⟨-, -, shows⟩ := lines rfl rfl
    have holds : (FileTree.ofTexts cutSecond).HoldsUnit "/" "jack" (cutSecond.map Prod.snd) :=
      FileTree.holdsUnit_ofTexts (by decide +kernel) (by decide +kernel) (by decide +kernel)
    obtain ⟨told, -, text⟩ := (shows _ cutOff).1 _ _ holds
    obtain ⟨told', -, text'⟩ := exists_text_of_holdsUnit planned rfl rfl holds
    rw [← text]
    refine text'.trans ?_
    decide +kernel
  · obtain ⟨plan, same, -, whole, -⟩ := fails' _ failed'
    cases planned'.symm.trans same
    exact whole (.inl rfl)

end TokenizeRequest

end JackTokens
