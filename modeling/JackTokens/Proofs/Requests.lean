import JackTokens.Proofs.Failure

/-!
# One token at a time, or all at once

A caller asks for the next token, for some items, or for the whole stream, and may change from one to the
other at any moment: in the middle of a line, between two files, before a failure or behind it. Each request
goes on from where the one before it has stopped.

**What a request leaves behind** (`Continues`). Between two states of a run some tokens have been appended
and some failures reported, and what is left to do comes to the same end as before. A step continues the run
in this sense (`Coherent.continues_step`), with the token it has yielded or the failure it has met. The
relation is transitive, so a request continues the run as well, and so does any number of requests.

**The law** (`askAll_eq_tokenizeAll`). Whatever was asked for before, a request appends to the stream the
tokens it hands over and nothing else, and the stream is the beginning of the one that a single request for
all of it would have come to. When the run has ended, the state is the one that this single request leaves
behind, and the failures that were reported are its failure, if it has one: it is reported once, whichever
request meets it.

The files are taken to stay as they are while the run lasts.
-/

namespace JackTokens

/-- **What a caller can ask a tokenizer for.** -/
inductive Request where
  /-- The next token. -/
  | token
  /-- Up to so many items of an iteration: tokens, and the failure if there is one. -/
  | items (n : Nat)
  /-- The whole stream. -/
  | all
  deriving DecidableEq, Repr

/-- **What a request comes back with.** -/
inductive Reply where
  | token (answer : Except TokenizeError (Option Token))
  | items (answer : List (Except TokenizeError Token))
  | all (answer : Except TokenizeError (Array Token))
  deriving Repr

namespace Reply

/-- The tokens that a reply hands over one by one. -/
def tokens : Reply → List Token
  | token (.ok (some found)) => [found]
  | token _ => []
  | items answer => answer.filterMap Except.toOption
  | all _ => []

/-- The failures that a reply reports. -/
def failures : Reply → List TokenizeError
  | token (.error e) => [e]
  | token (.ok _) => []
  | items answer => answer.filterMap fun
    | .error e => some e
    | .ok _ => none
  | all (.error e) => [e]
  | all (.ok _) => []

/-- **A reply tells what has become of the stream**: a token that is handed over has been appended, and
without one nothing has; the whole stream is what it has come to. -/
def Tells (before after : Array Token) : Reply → Prop
  | token (.ok (some found)) => after = before.push found
  | token _ => after = before
  | items answer => after.toList = before.toList ++ answer.filterMap Except.toOption
  | all (.ok stream) => stream = after ∧ before.toList <+: after.toList
  | all (.error _) => before.toList <+: after.toList

theorem tells_token {before after : Array Token} {answer : Except TokenizeError (Option Token)}
    (appended : after.toList = before.toList ++ (token answer).tokens) :
    (token answer).Tells before after := by
  rcases answer with e | _ | found
  · exact Array.toList_inj.mp (appended.trans (List.append_nil _))
  · exact Array.toList_inj.mp (appended.trans (List.append_nil _))
  · exact Array.toList_inj.mp (appended.trans Array.toList_push.symm)

end Reply

namespace Tokenizer

variable {tree : FileTree} {t next final start : Tokenizer}

/-- **A request**: the state behind it, and the reply. -/
def ask (tree : FileTree) (t : Tokenizer) : Request → Tokenizer × Reply
  | .token => ((t.advance tree).1, .token (t.advance tree).2)
  | .items n => ((t.take tree n).1, .items (t.take tree n).2)
  | .all => ((t.tokenizeAll tree).1, .all (t.tokenizeAll tree).2)

/-- **Requests one after the other**: the state behind them, and the replies. -/
def askAll (tree : FileTree) (t : Tokenizer) : List Request → Tokenizer × List Reply
  | [] => (t, [])
  | request :: requests =>
    let (final, replies) := (t.ask tree request).1.askAll tree requests
    (final, (t.ask tree request).2 :: replies)

/-! ## Going on -/

/-- The failures that a run has still to report. -/
def failuresAhead (tree : FileTree) (t : Tokenizer) : List TokenizeError :=
  (Reply.all (t.tokenizeAll tree).2).failures

theorem length_failuresAhead_le (tree : FileTree) (t : Tokenizer) : (t.failuresAhead tree).length ≤ 1 := by
  unfold failuresAhead
  cases (t.tokenizeAll tree).2 with
  | error e => exact Nat.le_refl 1
  | ok stream => exact Nat.zero_le 1

theorem failuresAhead_of_exhausted (done : t.phase = .exhausted) : t.failuresAhead tree = [] := by
  rw [failuresAhead, (requests_of_exhausted done tree).2.1]
  rfl

/-- **A run goes on from one state to another**: some tokens are appended, some failures are reported, and
what is left to do comes to the same end. -/
structure Continues (tree : FileTree) (t next : Tokenizer) (tokens : List Token)
    (failures : List TokenizeError) : Prop where
  visited : Visits t next
  appended : next.tokens.toList = t.tokens.toList ++ tokens
  final : (next.tokenizeAll tree).1 = (t.tokenizeAll tree).1
  failures : failures ++ next.failuresAhead tree = t.failuresAhead tree

theorem Continues.refl (tree : FileTree) (t : Tokenizer) : t.Continues tree t [] [] :=
  ⟨.refl, (List.append_nil _).symm, rfl, rfl⟩

theorem Continues.trans {tokens tokens' : List Token} {failures failures' : List TokenizeError}
    (first : t.Continues tree next tokens failures) (second : next.Continues tree final tokens' failures') :
    t.Continues tree final (tokens ++ tokens') (failures ++ failures') where
  visited := first.visited.trans second.visited
  appended := by rw [second.appended, first.appended, List.append_assoc]
  final := second.final.trans first.final
  failures := by rw [List.append_assoc, second.failures, first.failures]

end Tokenizer

/-! ## One step -/

namespace Outcome

/-- The token that a step yields, if any. -/
def tokens : Outcome → List Token
  | yielded token => [token]
  | _ => []

/-- The failure that a step meets, if any. -/
def failures : Outcome → List TokenizeError
  | failed e => [e]
  | _ => []

end Outcome

namespace Tokenizer

variable {tree : FileTree} {t next final start : Tokenizer}

/-- **A step appends the token it yields**, and nothing else. -/
theorem Transition.tokens {outcome : Outcome} (taken : Transition tree t next outcome) :
    next.tokens.toList = t.tokens.toList ++ outcome.tokens := by
  cases taken with
  | @lexeme file run piece rest content _ _ _ _ =>
    rcases content with kind | (_ | _ | _)
    · exact Array.toList_push
    · exact (List.append_nil _).symm
    · exact (List.append_nil _).symm
    · exact (List.append_nil _).symm
  | _ => exact (List.append_nil _).symm

/-- A step finds nothing left only where nothing changes. -/
theorem Transition.eq_of_finished {outcome : Outcome} (taken : Transition tree t next outcome)
    (finished : outcome = .finished) : next = t := by
  cases taken with
  | finished _ => rfl
  | @lexeme file run piece rest content _ _ _ _ => cases content <;> cases finished
  | _ => cases finished

theorem tokenizeAll_of_drain_eq (same : t.drain tree = next.drain tree) :
    t.tokenizeAll tree = next.tokenizeAll tree := by
  rw [tokenizeAll, tokenizeAll, same]

/-- **A step goes on with the run.** -/
theorem Coherent.continues_step (coherent : t.Coherent) (tree : FileTree) :
    t.Continues tree (t.step tree).1 (t.step tree).2.tokens (t.step tree).2.failures := by
  have taken := coherent.transition_step tree
  obtain ⟨⟨next, outcome⟩, stepped⟩ : ∃ result, t.step tree = result := ⟨_, rfl⟩
  rw [stepped] at taken ⊢
  have visited : Visits t next := .of_step stepped
  cases outcome with
  | working =>
    have same := tokenizeAll_of_drain_eq (drain_of_working stepped)
    exact ⟨visited, taken.tokens, by rw [same], by rw [failuresAhead, failuresAhead, same]; rfl⟩
  | yielded token =>
    have same := tokenizeAll_of_drain_eq (drain_of_yielded stepped)
    exact ⟨visited, taken.tokens, by rw [same], by rw [failuresAhead, failuresAhead, same]; rfl⟩
  | finished =>
    rw [taken.eq_of_finished rfl]
    exact .refl tree t
  | failed e =>
    have done := taken.exhausted (.inr ⟨e, rfl⟩)
    have run := (Reaches.refl t).tokenizeAll_of_failed stepped
    refine ⟨visited, taken.tokens, ?_, ?_⟩
    · rw [run, (requests_of_exhausted done tree).2.1]
    · rw [failuresAhead_of_exhausted done, failuresAhead, run]
      rfl

theorem Continues.coherent {tokens : List Token} {failures : List TokenizeError}
    (continues : t.Continues tree next tokens failures) (coherent : t.Coherent) : next.Coherent :=
  continues.visited.coherent coherent

/-! ## Requests -/

/-- **A request for a token goes on with the run.** -/
theorem Coherent.continues_advance (coherent : t.Coherent) (tree : FileTree) :
    t.Continues tree (t.advance tree).1 (Reply.token (t.advance tree).2).tokens
      (Reply.token (t.advance tree).2).failures := by
  fun_induction Tokenizer.advance tree t with
  | case1 t next stepped ih =>
    have first := coherent.continues_step tree
    rw [stepped] at first
    exact first.trans (ih (first.coherent coherent))
  | case2 t next token stepped =>
    have only := coherent.continues_step tree
    rwa [stepped] at only
  | case3 t next stepped =>
    have only := coherent.continues_step tree
    rwa [stepped] at only
  | case4 t next e stepped =>
    have only := coherent.continues_step tree
    rwa [stepped] at only

/-- **A request for items goes on with the run.** -/
theorem Coherent.continues_take (coherent : t.Coherent) (tree : FileTree) (n : Nat) :
    t.Continues tree (t.take tree n).1 (Reply.items (t.take tree n).2).tokens
      (Reply.items (t.take tree n).2).failures := by
  induction n generalizing t with
  | zero => exact .refl tree t
  | succ n ih =>
    have first := coherent.continues_advance tree
    have rest := ih (first.coherent coherent)
    rw [take]
    split
    · rename_i next asked
      rwa [asked] at first
    · rename_i next token asked
      rw [asked] at first rest
      exact first.trans rest
    · rename_i next e asked
      rw [asked] at first rest
      exact first.trans rest

theorem Visits.tokens_grow (visited : Visits t next) (coherent : t.Coherent) :
    t.tokens.toList <+: next.tokens.toList := by
  induction visited with
  | refl => exact List.prefix_refl _
  | step tree earlier ih =>
    have taken := (earlier.coherent coherent).transition_step tree
    rw [taken.tokens]
    exact ih.trans (List.prefix_append _ _)

/-- **A request for the whole stream goes on with the run**, to its end. -/
theorem Coherent.exists_continues_tokenizeAll (coherent : t.Coherent) (tree : FileTree) :
    ∃ tokens, t.Continues tree (t.tokenizeAll tree).1 tokens (t.failuresAhead tree) := by
  have visited : Visits t (t.tokenizeAll tree).1 := Visits.refl.tokenizeAll tree
  have done := coherent.phase_tokenizeAll tree
  obtain ⟨tokens, appended⟩ := visited.tokens_grow coherent
  refine ⟨tokens, visited, appended.symm, ?_, ?_⟩
  · rw [(requests_of_exhausted done tree).2.1]
  · rw [failuresAhead_of_exhausted done, List.append_nil]

/-- **Any request goes on with the run.** -/
theorem Coherent.exists_continues_ask (coherent : t.Coherent) (tree : FileTree) (request : Request) :
    ∃ tokens, t.Continues tree (t.ask tree request).1 tokens (t.ask tree request).2.failures := by
  cases request with
  | token => exact ⟨_, coherent.continues_advance tree⟩
  | items n => exact ⟨_, coherent.continues_take tree n⟩
  | all => exact coherent.exists_continues_tokenizeAll tree

/-- **So does any number of requests.** -/
theorem Coherent.exists_continues_askAll (coherent : t.Coherent) (tree : FileTree)
    (requests : List Request) :
    ∃ tokens, t.Continues tree (t.askAll tree requests).1 tokens
      ((t.askAll tree requests).2.flatMap Reply.failures) := by
  induction requests generalizing t with
  | nil => exact ⟨[], .refl tree t⟩
  | cons request requests ih =>
    obtain ⟨tokens, first⟩ := coherent.exists_continues_ask tree request
    obtain ⟨tokens', rest⟩ := ih (first.coherent coherent)
    exact ⟨tokens ++ tokens', first.trans rest⟩

/-- Where tokens are handed over one by one, they are what is appended. -/
theorem Coherent.tokens_ask (coherent : t.Coherent) (tree : FileTree) {request : Request}
    (single : request ≠ .all) :
    (t.ask tree request).1.tokens.toList = t.tokens.toList ++ (t.ask tree request).2.tokens := by
  cases request with
  | token => exact (coherent.continues_advance tree).appended
  | items n => exact (coherent.continues_take tree n).appended
  | all => exact absurd rfl single

theorem Coherent.tokens_askAll (coherent : t.Coherent) (tree : FileTree) {requests : List Request}
    (single : .all ∉ requests) :
    (t.askAll tree requests).1.tokens.toList =
      t.tokens.toList ++ (t.askAll tree requests).2.flatMap Reply.tokens := by
  induction requests generalizing t with
  | nil => exact (List.append_nil _).symm
  | cons request requests ih =>
    rw [List.mem_cons, not_or] at single
    obtain ⟨_, first⟩ := coherent.exists_continues_ask tree request
    have handed := coherent.tokens_ask tree (Ne.symm single.1)
    have later := ih (first.coherent coherent) single.2
    rw [handed, List.append_assoc] at later
    exact later

/-- **Each reply tells what has become of the stream.** -/
theorem Coherent.tells_ask (coherent : t.Coherent) (tree : FileTree) (request : Request) :
    (t.ask tree request).2.Tells t.tokens (t.ask tree request).1.tokens := by
  cases request with
  | token => exact Reply.tells_token (coherent.continues_advance tree).appended
  | items n => exact (coherent.continues_take tree n).appended
  | all =>
    have grown := (Visits.refl.tokenizeAll tree).tokens_grow coherent
    obtain ⟨last, -, -, ends⟩ := tokenizeAll_last tree t
    simp only [ask]
    rcases ends with ⟨-, whole⟩ | ⟨e, -, failed⟩
    · rw [whole]
      exact ⟨rfl, grown⟩
    · rw [failed]
      exact grown

/-! ## The law -/

/-- The stream of a state is the beginning of the one that the run comes to. -/
theorem Continues.tokens_begin {tokens : List Token} {failures : List TokenizeError}
    (continues : start.Continues tree t tokens failures) (coherent : start.Coherent) :
    t.tokens.toList <+: (start.tokenizeAll tree).1.tokens.toList := by
  rw [← continues.final]
  exact (Visits.refl.tokenizeAll tree).tokens_grow (continues.coherent coherent)

theorem Coherent.exists_continues_after (coherent : t.Coherent) (tree : FileTree) (n : Nat) :
    ∃ tokens failures, t.Continues tree (t.after tree n) tokens failures := by
  induction n with
  | zero => exact ⟨[], [], .refl tree t⟩
  | succ n ih =>
    obtain ⟨tokens, failures, earlier⟩ := ih
    exact ⟨_, _, earlier.trans ((earlier.coherent coherent).continues_step tree)⟩

/-- **One token at a time, or all at once.** Behind any requests, whatever is asked for next, the reply tells
what has become of the stream. Tokens that are handed over one by one are the stream. The stream is the
beginning of the one that a single request for all of it comes to, behind requests as between the steps of
one. At most one failure is reported. And when the run has ended, everything is as behind that single
request, and the failure is the one that it reports. -/
theorem askAll_eq_tokenizeAll (fresh : start.Fresh) (tree : FileTree) (requests : List Request) :
    let t := (start.askAll tree requests).1
    let replies := (start.askAll tree requests).2
    (∀ request, (t.ask tree request).2.Tells t.tokens (t.ask tree request).1.tokens) ∧
    (.all ∉ requests → t.tokens.toList = replies.flatMap Reply.tokens) ∧
    t.tokens.toList <+: (start.tokenizeAll tree).1.tokens.toList ∧
    (∀ n, (start.after tree n).tokens.toList <+: (start.tokenizeAll tree).1.tokens.toList) ∧
    (replies.flatMap Reply.failures).length ≤ 1 ∧
    (t.phase = .exhausted → t = (start.tokenizeAll tree).1 ∧
      replies.flatMap Reply.failures = (Reply.all (start.tokenizeAll tree).2).failures) := by
  intro t replies
  have coherent := fresh.coherent
  obtain ⟨tokens, continues⟩ := coherent.exists_continues_askAll tree requests
  refine ⟨(continues.coherent coherent).tells_ask tree, ?_, continues.tokens_begin coherent, ?_, ?_, ?_⟩
  · intro single
    have nothing : start.tokens = #[] := congrArg Tokenizer.tokens fresh.eq
    have handed := coherent.tokens_askAll tree single
    rwa [nothing] at handed
  · intro n
    obtain ⟨_, _, earlier⟩ := coherent.exists_continues_after tree n
    exact earlier.tokens_begin coherent
  · have few := length_failuresAhead_le tree start
    rw [← continues.failures, List.length_append] at few
    exact Nat.le_trans (Nat.le_add_right _ _) few
  · intro done
    have same := continues.final
    have reported := continues.failures
    rw [(requests_of_exhausted done tree).2.1] at same
    rw [failuresAhead_of_exhausted done, List.append_nil] at reported
    exact ⟨same, reported⟩

/-- The law at a run that fails behind its second token. One token is asked for, then one item, then the
whole stream, and it is the last request that meets the failure. -/
theorem askAll_eq_tokenizeAll_missingSecond :
    let tree := FileTree.ofTexts [("A.jack", "a b\n".toList)]
    let start := ofQueue {} ["A.jack", "C.jack"]
    let t := (start.askAll tree [.token, .items 1, .all]).1
    let replies := (start.askAll tree [.token, .items 1, .all]).2
    start.Fresh ∧ t.phase = .exhausted ∧ t = (start.tokenizeAll tree).1 ∧
      t.tokens = #[⟨.identifier "a", 1⟩, ⟨.identifier "b", 1⟩] ∧
      replies.flatMap Reply.failures = [.sourceNotFound "C.jack" .notFound] := by
  intro tree start t replies
  have fresh : start.Fresh := .queue _ _
  obtain ⟨_, earlier⟩ := fresh.coherent.exists_continues_askAll tree [.token, .items 1]
  have done : t.phase = .exhausted := (earlier.coherent fresh.coherent).phase_tokenizeAll tree
  obtain ⟨-, -, -, -, -, ended⟩ := askAll_eq_tokenizeAll fresh tree [.token, .items 1, .all]
  obtain ⟨same, reported⟩ := ended done
  -- What the single request comes to is known from the text of the first file.
  have readable : ∀ file ∈ [("A.jack", "a b\n".toList)], tree.readText file.1 = .ok file.2 :=
    List.forall_mem_singleton.mpr rfl
  obtain ⟨middle, reached, idle, -, empty, -, sections⟩ := reaches_ofQueue {} readable
  have missing : SourceFile.openAt tree "C.jack" = .error .notFound := rfl
  have run : start.tokenizeAll tree = _ := tokenizeAll_unopened reached idle empty missing []
  refine ⟨fresh, done, same, ?_, ?_⟩
  · have stream : t.tokens = (start.tokenizeAll tree).1.tokens := congrArg Tokenizer.tokens same
    rw [stream, run]
    exact Array.toList_inj.mp (sections.tokens.trans (by decide +kernel))
  · have whole : replies.flatMap Reply.failures = (Reply.all (start.tokenizeAll tree).2).failures := reported
    rw [whole, run]
    rfl

end Tokenizer

end JackTokens
