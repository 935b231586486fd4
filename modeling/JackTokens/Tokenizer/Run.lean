import JackTokens.Tokenizer.Step

/-!
# Running a tokenizer

A caller either asks for one token at a time (`advance`, `take`) or for the whole stream
(`tokenizeAll`). Both repeat steps until the answer is there, and both come to an end because each
step leaves less to do. After the end, or after a failure, every further request finds nothing new.

Tokens, records and events stay with the tokenizer. `tokensOf?` cuts the tokens of one file out of the
stream, and `currentFile` names the file of the last token.
-/

namespace JackTokens

namespace Tokenizer

/-- A tokenizer for a queue of paths. -/
def ofQueue (policy : Policy) (queue : List String) : Tokenizer :=
  { policy := policy, queue := queue }

/-- A tokenizer for a path, to a file or to a directory of sources. -/
def ofPath (tree : FileTree) (policy : Policy) (path : String) : Except TokenizeError Tokenizer :=
  match Source.collect tree path policy.extension with
  | .error e => .error e
  | .ok (queue, events) => .ok { policy := policy, queue := queue, journal := events.toArray }

/-- **The next token**: steps until one is found, until nothing is left, or until a step fails. -/
def advance (tree : FileTree) (t : Tokenizer) :
    Tokenizer × Except TokenizeError (Option Token) :=
  match _ : t.step tree with
  | (next, .working) => advance tree next
  | (next, .yielded token) => (next, .ok (some token))
  | (next, .finished) => (next, .ok none)
  | (next, .failed e) => (next, .error e)
termination_by t.workload tree
decreasing_by exact workload_lt (by assumption) (by simp)

/-- Steps until nothing is left, or until a step fails. -/
def drain (tree : FileTree) (t : Tokenizer) : Tokenizer × Except TokenizeError Unit :=
  match _ : t.step tree with
  | (next, .working) => drain tree next
  | (next, .yielded _) => drain tree next
  | (next, .finished) => (next, .ok ())
  | (next, .failed e) => (next, .error e)
termination_by t.workload tree
decreasing_by all_goals exact workload_lt (by assumption) (by simp)

/-- **The whole stream**: all tokens so far when nothing is left, or the failure. -/
def tokenizeAll (tree : FileTree) (t : Tokenizer) :
    Tokenizer × Except TokenizeError (Array Token) :=
  match t.drain tree with
  | (final, .ok ()) => (final, .ok final.tokens)
  | (final, .error e) => (final, .error e)

/-- Up to `n` items: tokens, and the failure if there is one. Nothing comes after the last. -/
def take (tree : FileTree) (t : Tokenizer) : Nat →
    Tokenizer × List (Except TokenizeError Token)
  | 0 => (t, [])
  | n + 1 =>
    match t.advance tree with
    | (next, .ok none) => (next, [])
    | (next, .ok (some token)) =>
      let (final, items) := next.take tree n
      (final, .ok token :: items)
    | (next, .error e) =>
      let (final, items) := next.take tree n
      (final, .error e :: items)

/-- Can there be more? -/
def hasMore (t : Tokenizer) : Bool :=
  match t.state with
  | .exhausted => false
  | _ => true

/-- The name of the file that yielded the last token; empty before the first. -/
def currentFile (t : Tokenizer) : String :=
  match t.lastEmitted.bind (t.files[·]?) with
  | some record => record.name
  | none => ""

/-- The tokens of a file, by its place among the files opened. -/
def tokensOf? (t : Tokenizer) (i : Nat) : Option (List Token) :=
  (t.files[i]?).map fun record => (t.tokens.extract record.first (record.first + record.count)).toList

end Tokenizer

end JackTokens
