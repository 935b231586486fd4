import JackTokens.Proofs.LineNumbers
import JackTokens.Proofs.Requests

/-!
# Every request comes back

A request repeats steps, and some steps take nothing off the text: the line has been passed, the file has
ended, the queue is empty. What such a step changes is the state. A lexeme that is dropped takes bytes off the
line, a line that is not kept is taken off the file, and a file is taken off the queue when it is opened.

**The measure** (`progress`): the files that are still queued, the lines that are left of the open file, the
bytes that are left of the line, and the state, in the order in which the first difference decides. It is
well-founded (`Workload.wellFounded`), and each step leaves less of it (`Transition.progress_less`), whatever the
files hold. So a run comes to its end.

**Requests** are counted in steps and in tokens. A request for a token is a number of steps that go on and a
last one that answers it (`exists_steps_advance`). A request for the whole stream asks for a token until there
is none (`tokenizeAll_eq_advance`), so it is a number of requests for a token: one for each token that is left,
and a last one that finds none or fails (`Coherent.exists_calls_tokenizeAll`).

**The law** (`visits_progress`) says all this of every state that a tokenizer visits.
-/

namespace JackTokens

/-- What a step answers to a request for a token, unless there is more to do. -/
def Outcome.answer? : Outcome → Option (Except TokenizeError (Option Token))
  | working => none
  | yielded token => some (.ok (some token))
  | finished => some (.ok none)
  | failed e => some (.error e)

namespace Tokenizer

variable {tree : FileTree} {start t next : Tokenizer}

/-! ## The measure -/

/-- **How far a run has come**: the files that are still queued, the lines that are left of the open file, the
bytes that are left of the line, and the state. -/
def progress (tree : FileTree) (t : Tokenizer) : Nat × Nat × Nat × Nat :=
  (t.queue.length, t.linesLeft tree, t.cursor.bytesLeft, t.state.rank)

theorem Workload.wellFounded : WellFounded Workload.Less :=
  (Prod.lex Nat.lt_wfRel (Prod.lex Nat.lt_wfRel (Prod.lex Nat.lt_wfRel Nat.lt_wfRel))).wf

@[simp] theorem bytesLeft_absorb (t : Tokenizer) (content : Content) :
    (t.absorb content).cursor.bytesLeft = t.cursor.bytesLeft := by
  rcases content with kind | (_ | _ | _) <;> rfl

/-- A lexeme takes its bytes off the line, and it has some. -/
theorem bytesLeft_pass {run piece rest : List Char} {rule : IdentifierRule} {content : Content}
    (remaining : t.cursor.remaining? = some (run ++ (piece ++ rest)))
    (front : Front rule content piece rest) :
    (t.pass run piece).cursor.bytesLeft < t.cursor.bytesLeft := by
  obtain ⟨c, tail, rfl, -⟩ := front.head
  have piecePos := Utf8.size_pos (List.cons_ne_nil c tail)
  have counted := LineCursor.size_of_remaining? remaining
  rw [Utf8.size_append, Utf8.size_append] at counted
  rw [pass, LineCursor.bytesLeft_advance, LineCursor.bytesLeft_advance, LineCursor.bytesLeft]
  omega

/-- Closing a file leaves nothing of it and nothing of the line, and leads to a later state. -/
theorem progress_close {file : SourceFile} (phase : t.phase = .lineEmpty file) (behind : SourceFile)
    {last : DriverState} (later : last.rank < 2) :
    Workload.Less ((t.close behind last).progress tree) (t.progress tree) := by
  have lines : (t.close behind last).linesLeft tree = 0 := rfl
  have bytes : (t.close behind last).cursor.bytesLeft = 0 := LineCursor.bytesLeft_clear _
  have rank : t.state.rank = 2 := congrArg DriverState.rank (phase_eq_lineEmpty_iff.mp phase).1
  exact Workload.less_state (by omega) (by omega) (by rw [rank]; exact later)

/-- **Each step leaves less to do.** -/
theorem Transition.progress_less {outcome : Outcome} (taken : Transition tree t next outcome)
    (busy : t.phase ≠ .exhausted) : Workload.Less (next.progress tree) (t.progress tree) := by
  cases taken with
  | finished done => exact absurd done busy
  | completed idle _ =>
    have rank : t.state.rank = 1 := congrArg DriverState.rank (state_of_idle idle)
    exact Workload.less_state (Nat.le_refl _) (Nat.le_refl _) (by rw [rank]; exact Nat.one_pos)
  | unopened _ queued _ => exact Workload.less_queue (by simp [queued])
  | opened _ queued _ => exact Workload.less_queue (by simp [queued, opening])
  | unreadable phase _ => exact progress_close phase _ (by decide)
  | ended phase _ => exact progress_close phase _ (by decide)
  | @loaded file behind raw phase read =>
    -- The line is off the file, whether there is something to scan on it or not.
    refine Workload.less_unread ?_
    rw [linesLeft_of_readLine phase read]
    exact Nat.lt_succ_self _
  | blank phase _ _ =>
    have rank : t.state.rank = 3 := congrArg DriverState.rank (phase_eq_lineBuffered_iff.mp phase).1
    refine Workload.less_state (Nat.le_refl _) ?_ (by rw [rank]; exact Nat.lt_succ_self 2)
    rw [LineCursor.bytesLeft_advance]
    exact Nat.sub_le _ _
  | @lexeme file run piece rest content phase remaining _ front =>
    have shorter := bytesLeft_pass remaining front
    rw [← bytesLeft_absorb _ content] at shorter
    -- A token, too, leaves the queue and the file as they are.
    rcases content with kind | (_ | _ | _) <;> exact Workload.less_line shorter

/-! ## Steps of a run -/

/-- **A run comes to its end**, by induction on what is left to do. -/
theorem Coherent.exists_after_exhausted (coherent : t.Coherent) (tree : FileTree) :
    ∃ n, (t.after tree n).phase = .exhausted := by
  induction left : t.progress tree using Workload.wellFounded.induction generalizing t with
  | _ before ih =>
    by_cases done : t.phase = .exhausted
    · exact ⟨0, done⟩
    · have less := (coherent.transition_step tree).progress_less done
      obtain ⟨n, ended⟩ := ih _ (left ▸ less) (coherent.step tree) rfl
      exact ⟨n + 1, by rw [after_succ, ended]⟩

/-- **A request for a token is a number of steps**: all but the last go on, and the last one answers. -/
theorem exists_steps_advance (tree : FileTree) (t : Tokenizer) :
    ∃ n, (∀ k < n, ((t.after tree k).step tree).2 = .working) ∧
      ((t.after tree n).step tree).2.answer? = some (t.advance tree).2 ∧
      (t.advance tree).1 = t.after tree (n + 1) := by
  -- A step that answers is the only one.
  have answers {t next : Tokenizer} {outcome : Outcome} {answer : Except TokenizeError (Option Token)}
      (stepped : t.step tree = (next, outcome)) (answered : outcome.answer? = some answer) :
      ∃ n, (∀ k < n, ((t.after tree k).step tree).2 = .working) ∧
        ((t.after tree n).step tree).2.answer? = some answer ∧ next = t.after tree (n + 1) := by
    refine ⟨0, fun k less => absurd less (Nat.not_lt_zero k), ?_, ?_⟩
    · rw [after, stepped, answered]
    · rw [after, after, stepped]
  fun_induction Tokenizer.advance tree t with
  | case1 t next stepped ih =>
    obtain ⟨n, goesOn, answered, same⟩ := ih
    have later : ∀ k, t.after tree (k + 1) = next.after tree k := by
      intro k
      rw [after_succ, stepped]
    refine ⟨n + 1, ?_, by rw [later, answered], by rw [later, same]⟩
    intro k less
    cases k with
    | zero => exact congrArg Prod.snd stepped
    | succ k =>
      rw [later]
      exact goesOn k (Nat.lt_of_succ_lt_succ less)
  | case2 t next token stepped => exact answers stepped rfl
  | case3 t next stepped => exact answers stepped rfl
  | case4 t next e stepped => exact answers stepped rfl

/-! ## Requests of a run -/

/-- The state behind so many requests for a token. -/
def calls (tree : FileTree) (t : Tokenizer) : Nat → Tokenizer
  | 0 => t
  | n + 1 => ((calls tree t n).advance tree).1

theorem calls_succ (tree : FileTree) (t : Tokenizer) (n : Nat) :
    t.calls tree (n + 1) = (t.advance tree).1.calls tree n := by
  induction n with
  | zero => rfl
  | succ n ih => rw [calls, ih, calls]

/-- **The whole stream, token by token**: a request for it asks for a token until there is none. -/
theorem tokenizeAll_eq_advance (tree : FileTree) (t : Tokenizer) :
    t.tokenizeAll tree =
      match t.advance tree with
      | (next, .ok (some _)) => next.tokenizeAll tree
      | (next, .ok none) => (next, .ok next.tokens)
      | (next, .error e) => (next, .error e) := by
  fun_induction Tokenizer.advance tree t with
  | case1 t next stepped ih => rw [tokenizeAll_of_drain_eq (drain_of_working stepped), ih]
  | case2 t next token stepped => exact tokenizeAll_of_drain_eq (drain_of_yielded stepped)
  | case3 t next stepped =>
    have drained : t.drain tree = (next, .ok ()) := by
      rw [drain]
      split <;> simp_all
    rw [tokenizeAll, drained]
  | case4 t next e stepped => exact (Reaches.refl t).tokenizeAll_of_failed stepped

/-- A request that hands over no token is the last one of that loop. -/
theorem advance_eq_of_no_token {answer : Except TokenizeError (Option Token)}
    (asked : t.advance tree = (next, answer)) (stopped : ∀ token, answer ≠ .ok (some token)) :
    t.advance tree = ((t.tokenizeAll tree).1, (t.tokenizeAll tree).2.map fun _ => none) := by
  rw [tokenizeAll_eq_advance, asked]
  rcases answer with e | _ | token
  · rfl
  · rfl
  · exact absurd rfl (stopped token)

/-- **A request for the whole stream is a number of requests for a token**: one for each token that is left,
and a last one, which leaves the same state and reports the same. -/
theorem Coherent.exists_calls_tokenizeAll (coherent : t.Coherent) (tree : FileTree) :
    ∃ n, t.tokens.size + n = (t.tokenizeAll tree).1.tokens.size ∧
      (∀ k < n, ∃ token, ((t.calls tree k).advance tree).2 = .ok (some token)) ∧
      (t.calls tree n).advance tree =
        ((t.tokenizeAll tree).1, (t.tokenizeAll tree).2.map fun _ => none) := by
  -- The stream that the run comes to stays the same, so each token brings its end nearer.
  induction left : (t.tokenizeAll tree).1.tokens.size - t.tokens.size using Nat.strongRecOn
    generalizing t with
  | _ size ih =>
    obtain ⟨⟨next, answer⟩, asked⟩ : ∃ result, t.advance tree = result := ⟨_, rfl⟩
    have continues : t.Continues tree next (Reply.token answer).tokens (Reply.token answer).failures := by
      have asking := coherent.continues_advance tree
      rwa [asked] at asking
    have appended : next.tokens.size = t.tokens.size + (Reply.token answer).tokens.length := by
      rw [← Array.length_toList, continues.appended, List.length_append, Array.length_toList]
    by_cases found : ∃ token, answer = .ok (some token)
    · obtain ⟨token, rfl⟩ := found
      have longer : next.tokens.size = t.tokens.size + 1 := appended
      have bounded : next.tokens.size ≤ (t.tokenizeAll tree).1.tokens.size :=
        (continues.tokens_begin coherent).length_le
      have same : t.tokenizeAll tree = next.tokenizeAll tree := by rw [tokenizeAll_eq_advance, asked]
      rw [same] at left bounded ⊢
      obtain ⟨n, counted, tokens, last⟩ := ih _ (by omega) (continues.coherent coherent) rfl
      have later : ∀ k, t.calls tree (k + 1) = next.calls tree k := by
        intro k
        rw [calls_succ, asked]
      refine ⟨n + 1, by omega, ?_, by rw [later, last]⟩
      intro k less
      cases k with
      | zero => exact ⟨token, congrArg Prod.snd asked⟩
      | succ k =>
        rw [later]
        exact tokens k (Nat.lt_of_succ_lt_succ less)
    · have last := advance_eq_of_no_token asked fun token handed => found ⟨token, handed⟩
      have final : next = (t.tokenizeAll tree).1 := congrArg Prod.fst (asked.symm.trans last)
      have nothing : (Reply.token answer).tokens = [] := by
        rcases answer with e | _ | token
        · rfl
        · rfl
        · exact absurd ⟨token, rfl⟩ found
      rw [nothing] at appended
      exact ⟨0, by rw [← final, appended]; rfl, fun k less => absurd less (Nat.not_lt_zero k), last⟩

/-! ## The law -/

/-- **Every request comes back.** The measure is well-founded. In every state that a tokenizer visits, a step
leaves less of it, up to the end of the run, where it finds nothing left; so steps lead to the end. A request
for a token is a number of steps that go on and one that answers it. A request for the whole stream is a number
of requests for a token: one for each token that is left, and one that finds none or fails. -/
theorem visits_progress (fresh : start.Fresh) (visited : Visits start t) (tree : FileTree) :
    WellFounded Workload.Less ∧
    (t.phase ≠ .exhausted → Workload.Less ((t.step tree).1.progress tree) (t.progress tree)) ∧
    (t.phase = .exhausted → t.step tree = (t, .finished)) ∧
    (∃ n, (t.after tree n).phase = .exhausted) ∧
    (∃ n, (∀ k < n, ((t.after tree k).step tree).2 = .working) ∧
      ((t.after tree n).step tree).2.answer? = some (t.advance tree).2 ∧
      (t.advance tree).1 = t.after tree (n + 1)) ∧
    ∃ n, t.tokens.size + n = (t.tokenizeAll tree).1.tokens.size ∧
      (∀ k < n, ∃ token, ((t.calls tree k).advance tree).2 = .ok (some token)) ∧
      (t.calls tree n).advance tree =
        ((t.tokenizeAll tree).1, (t.tokenizeAll tree).2.map fun _ => none) := by
  have coherent := visited.coherent fresh.coherent
  refine ⟨Workload.wellFounded, (coherent.transition_step tree).progress_less, ?_,
    coherent.exists_after_exhausted tree, exists_steps_advance tree t, coherent.exists_calls_tokenizeAll tree⟩
  exact fun done => step_of_exhausted (state_of_exhausted done)

/-- The law at a file without a token: a blank line, a comment, and a comment that nothing closes. The first
request takes ten steps and one more to find that out. One of them drops a line inside the comment. -/
theorem visits_progress_onlyComments :
    let tree := FileTree.ofTexts [("Main.jack", "\n// a\n/* b\n*c\n/".toList)]
    let start := ofQueue {} ["Main.jack"]
    let inside := start.after tree 6
    start.Fresh ∧ Visits start inside ∧ inside.phase ≠ .exhausted ∧
      inside.progress tree = (0, 2, 0, 2) ∧ (inside.step tree).1.progress tree = (0, 1, 0, 2) ∧
      Workload.Less ((inside.step tree).1.progress tree) (inside.progress tree) ∧
      start.advance tree = (start.after tree 11, .ok none) := by
  intro tree start inside
  have fresh : start.Fresh := .queue _ _
  have visited : Visits start inside := .after tree 6
  have busy : inside.phase ≠ .exhausted := by decide +kernel
  obtain ⟨-, less, -, -, -, -⟩ := visits_progress fresh visited tree
  obtain ⟨-, -, -, -, ⟨n, goesOn, answered, same⟩, -⟩ := visits_progress fresh .refl tree
  refine ⟨fresh, visited, busy, by decide +kernel, by decide +kernel, less busy, ?_⟩
  -- The steps that go on are counted, so the one that answers is known.
  have working : ∀ k < 10, ((start.after tree k).step tree).2 = .working := by decide +kernel
  have finished : ((start.after tree 10).step tree).2 = .finished := by decide +kernel
  rcases Nat.lt_trichotomy n 10 with early | rfl | late
  · rw [working n early] at answered
    cases answered
  · rw [finished] at answered
    exact Prod.ext same (Option.some.inj answered).symm
  · cases (goesOn 10 late).symm.trans finished

end Tokenizer

end JackTokens
