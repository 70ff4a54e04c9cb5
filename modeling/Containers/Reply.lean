import Containers.CircularBuffer.Checkpoint
import Containers.Traversal.Script
/-!
# Commands and replies

* `Reply α` — what a command tells about a collection of elements `α`; `Form.reply` is the one about
  an element;
* `Outcome` — what a command leaves: the collection, the reply, and the events on the way;
* `Commanded` — collections whose operations are given as data, apart in those that only look and
  those that change.
-/

namespace Containers

/-- What a command tells. -/
inductive Reply (α : Type) where
  | done
  | count (n : Nat)
  | truth (b : Bool)
  | text (s : String)
  /-- The element that was asked for. -/
  | found (a : α)
  | refused (refusal : Refusal)
  /-- An element taken off, if there was one. -/
  | taken (a : Option α)
  | elements (as : List α)
  /-- The elements that a visit came by, with their ranks. -/
  | visited (as : List (Nat × α))
  | answers (as : List (Answer α))
  | checkpoint (c : Checkpoint α)
  /-- How many elements were given up, and those that the condition was asked about. -/
  | evicted (count : Nat) (asked : List α)
  deriving Repr

/-- The reply about an element that may be refused. -/
def Form.reply {α : Type} (form : Form) (attempt : Except Fault α) : Except Abort (Reply α) := do
  match ← form.settle attempt with
  | .ok a => return .found a
  | .error refusal => return .refused refusal

/-- What a command leaves. -/
structure Outcome (κ ρ ε : Type) where
  collection : κ
  reply : Except Abort ρ
  events : List ε := []

/-- Collections `κ` with questions that only look at them and updates that change them. -/
class Commanded (κ : Type) (query update reply event : outParam Type) where
  ask : query → κ → Except Abort reply
  perform : update → κ → Outcome κ reply event

/-- A question or an update. -/
inductive Command (query update : Type) where
  | ask (q : query)
  | perform (u : update)

/-- Runs a command. A question leaves the collection as it is. -/
def Command.run {κ query update reply event : Type} [Commanded κ query update reply event]
    (collection : κ) : Command query update → Outcome κ reply event
  | .ask q => { collection, reply := Commanded.ask q collection }
  | .perform u => Commanded.perform u collection

end Containers
