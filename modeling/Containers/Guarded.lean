import Containers.Reply
import Containers.Text.Outline
/-!
# Guarded collections

A guarded collection is reached only through groups of commands, each of which runs as a whole.

* `Guarded κ` — a collection behind its guard;
* `Guarded.read` — a group of questions;
* `Guarded.write` — a group of questions and updates.

A group ends at the first command that aborts. What the commands before it did stays done.
-/

namespace Containers

/-- A collection that is reached through groups of commands only. -/
structure Guarded (κ : Type) where
  collection : κ
  deriving Repr

namespace Guarded

variable {κ query update reply event : Type} [Commanded κ query update reply event]

/-- Asks questions of a collection in order, up to the first that aborts. -/
def read (g : Guarded κ) : List query → Except Abort (List reply)
  | [] => return []
  | q :: qs => do
    let reply ← Commanded.ask q g.collection
    return reply :: (← g.read qs)

/-- Runs commands on a collection in order, up to the first that aborts. -/
def runAll (collection : κ) : List (Command query update) → Outcome κ (List reply) event
  | [] => { collection, reply := return [] }
  | c :: cs =>
    let first := c.run collection
    match first.reply with
    | .error abort => { first with reply := .error abort }
    | .ok reply =>
      let rest := runAll first.collection cs
      { collection := rest.collection
        reply := (reply :: ·) <$> rest.reply
        events := first.events ++ rest.events }

/-- Runs a group of commands. -/
def write (g : Guarded κ) (commands : List (Command query update)) :
    Outcome (Guarded κ) (List reply) event :=
  let outcome := runAll g.collection commands
  { outcome with collection := ⟨outcome.collection⟩ }

end Guarded

instance {κ : Type} [Outlined κ] : Outlined (Guarded κ) where
  outline g := .tuple "Locked" [outline g.collection]

end Containers
