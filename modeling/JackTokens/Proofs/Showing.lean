import JackTokens.Command.Tokenize
import JackTokens.Proofs.Requests

/-!
# What the tokenize command shows

The command shows the tokens of a run in one of three forms, and each has a way of its own. Plain lines are
written while the tokenizer runs, one for each token that a step yields; grouped lines and the document are
written when the run is over.

**Sinks.** Whatever room there is, a text that was written without a failure stands behind what was there
(`Sink.text_of_write`), and where room has no bound no text fails.

**Runs.** A run that is shown while it goes on is the run: it ends in the same state, and the lines that it
has written are those of the tokens that it has appended (`Tokenizer.drain_of_stream`). So all forms are functions
of the state at the end (`TokenizePlan.output`), whenever they were written.

**The command** succeeds if the request has a plan, the run over its sources completes (`Completes`) and the
sink takes the output. It then shows the output for the state at the end, and reports on this state
(`TokenizeRequest.execute_ok`); and the last of the three conditions needs no thought where the sink has no
bound (`TokenizeRequest.Completes.execute`).
-/

namespace JackTokens

/-! ## Sinks -/

namespace Sink

variable {sink after : Sink} {text : String}

theorem text_of_fill {room : Nat} {chars : List Char} (filled : fill text room chars = (after, .ok ())) :
    after.text = text ++ String.ofList chars := by
  fun_induction fill text room chars with
  | case1 text room =>
    cases filled
    simp
  | case2 text room c rest fits ih =>
    rw [ih filled]
    apply String.toList_inj.mp
    simp
  | case3 text room c rest torn => cases filled

theorem torn_of_fill {room : Nat} {chars : List Char} (filled : fill text room chars = (after, .ok ())) :
    after.torn = [] := by
  fun_induction fill text room chars with
  | case1 text room =>
    cases filled
    rfl
  | case2 text room c rest fits ih => exact ih filled
  | case3 text room c rest torn => cases filled

/-- **What was written** stands behind what was there. -/
theorem text_of_write (written : sink.write text = (after, .ok ())) : after.text = sink.text ++ text := by
  unfold write at written
  split at written
  · cases written
    rfl
  · have filled := text_of_fill written
    rwa [String.ofList_toList] at filled

/-- A text that was written is not torn. -/
theorem torn_of_write (whole : sink.torn = []) (written : sink.write text = (after, .ok ())) : after.torn = [] := by
  unfold write at written
  split at written
  · cases written
    exact whole
  · exact torn_of_fill written

theorem write_of_unbounded (unbounded : sink.room = none) (text : String) :
    sink.write text = ({ sink with text := sink.text ++ text }, .ok ()) := by
  unfold write
  rw [unbounded]

theorem text_of_writeDocument {document : Json} (written : sink.writeDocument document = (after, .ok ())) :
    after.text = sink.text ++ (document.indented ++ "\n") := by
  unfold writeDocument at written
  split at written
  · cases written
  · rename_i between first
    split at written
    · cases written
    · rename_i behind second
      cases written
      rw [text_of_write second, text_of_write first, String.append_assoc]

theorem writeDocument_of_unbounded (unbounded : sink.room = none) (document : Json) :
    ∃ after, sink.writeDocument document = (after, .ok ()) := by
  unfold writeDocument
  rw [write_of_unbounded unbounded]
  dsimp only
  rw [write_of_unbounded (by exact unbounded)]
  exact ⟨_, rfl⟩

end Sink

/-! ## Showing tokens while they are found -/

@[simp] theorem Dump.lines_cons (token : Token) (tokens : List Token) :
    lines (token :: tokens) = tokenLine token ++ lines tokens := by
  unfold lines
  rw [List.map_cons, String.join_cons]

namespace Tokenizer

variable {tree : FileTree} {t final : Tokenizer} {sink after : Sink}

/-- **A run that is shown is the run**, as long as there is room: it comes to the same end, without a failure or
with one, and has shown the tokens that it has appended, each in a whole line. -/
theorem drain_of_stream (coherent : t.Coherent) {result : Except TokenizeError Unit}
    (shown : t.stream tree sink = (final, after, result.mapError .tokenize)) :
    t.drain tree = (final, result) ∧
      ∃ tokens, final.tokens.toList = t.tokens.toList ++ tokens ∧
        after.text = sink.text ++ Dump.lines tokens ∧ (sink.torn = [] → after.torn = []) := by
  fun_induction Tokenizer.stream tree t sink with
  | case1 t sink next stepped ih =>
    have continues := coherent.continues_step tree
    rw [stepped] at continues
    obtain ⟨drained, tokens, appended, text⟩ := ih (continues.coherent coherent) shown
    refine ⟨(drain_of_working stepped).trans drained, tokens, ?_, text⟩
    rw [appended, continues.appended]
    simp [Outcome.tokens]
  | case2 t sink next token stepped room written ih =>
    have continues := coherent.continues_step tree
    rw [stepped] at continues
    obtain ⟨drained, tokens, appended, text, whole⟩ := ih (continues.coherent coherent) shown
    refine ⟨(drain_of_yielded stepped).trans drained, token :: tokens, ?_, ?_, ?_⟩
    · rw [appended, continues.appended]
      simp [Outcome.tokens]
    · rw [text, Sink.text_of_write written, Dump.lines_cons, String.append_assoc]
    · intro before
      exact whole (Sink.torn_of_write before written)
  | case3 t sink next token stepped room cause written => cases result <;> cases shown
  | case4 t sink next stepped =>
    cases result with
    | error e => cases shown
    | ok _ =>
      cases shown
      have finished := coherent.continues_step tree
      rw [stepped] at finished
      exact ⟨drain_of_finished stepped, [], finished.appended, by simp [Dump.lines], id⟩
  | case5 t sink next e stepped =>
    cases result with
    | ok _ => cases shown
    | error cause =>
      cases shown
      have failed := coherent.continues_step tree
      rw [stepped] at failed
      exact ⟨drain_of_failed stepped, [], failed.appended, by simp [Dump.lines], id⟩

/-- Where room has no bound, a run is shown to its end. -/
theorem stream_of_drain (unbounded : sink.room = none) {result : Except TokenizeError Unit}
    (drained : t.drain tree = (final, result)) :
    ∃ after, t.stream tree sink = (final, after, result.mapError .tokenize) := by
  fun_induction Tokenizer.stream tree t sink with
  | case1 t sink next stepped ih => exact ih unbounded ((drain_of_working stepped).symm.trans drained)
  | case2 t sink next token stepped room written ih =>
    rw [Sink.write_of_unbounded unbounded] at written
    cases written
    exact ih unbounded ((drain_of_yielded stepped).symm.trans drained)
  | case3 t sink next token stepped room cause written =>
    rw [Sink.write_of_unbounded unbounded] at written
    cases written
  | case4 t sink next stepped =>
    rw [drain_of_finished stepped] at drained
    cases drained
    exact ⟨sink, rfl⟩
  | case5 t sink next e stepped =>
    rw [drain_of_failed stepped] at drained
    cases drained
    exact ⟨sink, rfl⟩

theorem tokenizeAll_eq_ok_iff :
    t.tokenizeAll tree = (final, .ok final.tokens) ↔ t.drain tree = (final, .ok ()) := by
  unfold tokenizeAll
  constructor
  · intro whole
    split at whole
    · rename_i last drained
      rw [drained, (Prod.mk.inj whole).1]
    · cases whole
  · intro drained
    rw [drained]

/-! ## The forms of output -/

/-- What there is to report on a run that is over. -/
def report (t : Tokenizer) (path : String) : Report Nat where
  data := t.tokens.size
  items := t.files.size
  warnings := t.emptyFileWarnings ++ (t.emptyRunWarning? path).toList

end Tokenizer

namespace TokenizePlan

variable {tree : FileTree} {plan : TokenizePlan} {start final : Tokenizer} {sink after : Sink}

/-- **What a plan shows** of a run that is over. -/
def output (plan : TokenizePlan) (final : Tokenizer) : String :=
  match plan.format, plan.byFile with
  | .text, false => Dump.lines final.tokens.toList
  | .text, true => Dump.grouped final.fileTokens
  | .json, _ => (Dump.document final.fileTokens).indented ++ "\n"

/-- **A plan that is carried out** runs the tokenizer to its end and shows its output. -/
theorem run_ok (fresh : start.Fresh) (ran : plan.run tree start sink = (final, after, .ok ())) :
    start.drain tree = (final, .ok ()) ∧ after.text = sink.text ++ plan.output final := by
  obtain ⟨policy, format, byFile⟩ := plan
  cases format with
  | text =>
    cases byFile with
    | false =>
      have shown : start.stream tree sink = (final, after, (Except.ok ()).mapError .tokenize) := ran
      obtain ⟨drained, tokens, appended, text, -⟩ := Tokenizer.drain_of_stream fresh.coherent shown
      have whole : final.tokens.toList = tokens := by
        rw [appended, fresh.eq]
        rfl
      refine ⟨drained, ?_⟩
      rw [text, ← whole]
      rfl
    | true =>
      unfold run at ran
      dsimp only at ran
      split at ran
      · cases ran
      · rename_i last drained
        split at ran
        · cases ran
        · rename_i behind written
          cases ran
          exact ⟨drained, Sink.text_of_write written⟩
  | json =>
    unfold run at ran
    dsimp only at ran
    split at ran
    · cases ran
    · rename_i last drained
      simp only [Prod.mk.injEq] at ran
      obtain ⟨rfl, rfl, shown⟩ := ran
      exact ⟨drained, Sink.text_of_writeDocument (Prod.ext rfl shown)⟩

/-- Where room has no bound, a plan is carried out if the run completes. -/
theorem run_of_drain (plan : TokenizePlan) (unbounded : sink.room = none)
    (drained : start.drain tree = (final, .ok ())) :
    ∃ after, plan.run tree start sink = (final, after, .ok ()) := by
  unfold run
  split
  · exact Tokenizer.stream_of_drain unbounded drained
  · rw [drained]
    dsimp only
    split
    · rw [Sink.write_of_unbounded unbounded]
      exact ⟨_, rfl⟩
    · obtain ⟨after, written⟩ := Sink.writeDocument_of_unbounded unbounded (Dump.document final.fileTokens)
      rw [written]
      exact ⟨after, rfl⟩

end TokenizePlan

/-! ## The command -/

namespace TokenizeRequest

variable {tree : FileTree} {settings : Settings} {request : TokenizeRequest} {sink : Sink}
  {plan : TokenizePlan} {final : Tokenizer} {told : Report Nat}

/-- **A request completes**: it has a plan, and the run over its sources comes to its end without a failure. -/
structure Completes (tree : FileTree) (settings : Settings) (request : TokenizeRequest) (plan : TokenizePlan)
    (final : Tokenizer) : Prop where
  planned : request.plan settings = .ok plan
  present : tree.pathExists request.path = true
  ran : ∃ start, Tokenizer.ofPath tree plan.policy request.path = .ok start ∧
    start.tokenizeAll tree = (final, .ok final.tokens)

/-- A request has one plan and one run. -/
theorem Completes.unique {plan' : TokenizePlan} {final' : Tokenizer}
    (first : request.Completes tree settings plan final)
    (second : request.Completes tree settings plan' final') : plan' = plan ∧ final' = final := by
  cases first.planned.symm.trans second.planned
  obtain ⟨start, made, whole⟩ := first.ran
  obtain ⟨start', made', whole'⟩ := second.ran
  cases made.symm.trans made'
  exact ⟨rfl, (Prod.mk.inj (whole'.symm.trans whole)).1⟩

/-- The run of a request is one of a tokenizer that was made for its path. -/
theorem Completes.exists_visits (completes : request.Completes tree settings plan final) :
    ∃ start : Tokenizer, start.Fresh ∧ start.Visits final := by
  obtain ⟨start, made, whole⟩ := completes.ran
  have ended : (start.tokenizeAll tree).1 = final := congrArg Prod.fst whole
  exact ⟨start, .path made, ended ▸ Tokenizer.Visits.refl.tokenizeAll tree⟩

/-- **A request for a file that can be read completes**, with the tokens of the file. -/
theorem exists_completes_of_readText {text : List Char} (planned : request.plan settings = .ok plan)
    (readable : tree.readText request.path = .ok text) :
    ∃ final, request.Completes tree settings plan final ∧
      final.tokens.toList = Tokenizer.textTokens plan.policy.identifiers 0 text := by
  obtain ⟨final, whole, tokens⟩ := Tokenizer.tokenizeAll_single plan.policy readable
  obtain ⟨present, other⟩ := FileTree.isDirectory_of_readText readable
  have made : Tokenizer.ofPath tree plan.policy request.path =
      .ok (Tokenizer.ofQueue plan.policy [request.path]) := by
    unfold Tokenizer.ofPath
    rw [Source.collect_of_isDirectory_eq_false other]
    rfl
  exact ⟨final, ⟨planned, present, _, made, whole⟩, tokens⟩

/-- **What a successful command has done.** -/
theorem execute_ok (succeeded : (request.execute tree settings sink).result = .ok told) :
    ∃ plan final, request.Completes tree settings plan final ∧ told = final.report request.path ∧
      (request.execute tree settings sink).sink.text = sink.text ++ plan.output final := by
  unfold execute at succeeded ⊢
  split at succeeded
  · cases succeeded
  · rename_i plan planned
    split at succeeded
    · rename_i present
      split at succeeded
      · cases succeeded
      · rename_i start made
        split at succeeded
        · cases succeeded
        · rename_i final after ran
          obtain ⟨drained, text⟩ := TokenizePlan.run_ok (.path made) ran
          cases succeeded
          have whole := Tokenizer.tokenizeAll_eq_ok_iff.mpr drained
          refine ⟨plan, final, ⟨planned, present, start, made, whole⟩, rfl, ?_⟩
          rw [if_pos present]
          exact text
    · cases succeeded

/-- **Where room has no bound, a request that completes succeeds.** -/
theorem Completes.execute (completes : request.Completes tree settings plan final)
    (unbounded : sink.room = none) :
    (request.execute tree settings sink).result = .ok (final.report request.path) := by
  obtain ⟨start, made, whole⟩ := completes.ran
  obtain ⟨after, ran⟩ := plan.run_of_drain unbounded (Tokenizer.tokenizeAll_eq_ok_iff.mp whole)
  unfold TokenizeRequest.execute
  rw [completes.planned]
  dsimp only
  rw [if_pos completes.present, made]
  dsimp only
  rw [ran]
  rfl

end TokenizeRequest

end JackTokens
