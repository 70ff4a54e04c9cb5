import Containers.CircularBuffer.Span
import Containers.CircularBuffer.Stored
import Containers.Condition
import Containers.Reply
/-!
# Commands for a circular buffer

* `CircularBuffer.Query` — what can be asked of a buffer; `CircularBuffer.ask` answers;
* `CircularBuffer.Update` — what can be done to a buffer; `CircularBuffer.perform` does it.
-/

namespace Containers.CircularBuffer

/-- What can be asked of a buffer. -/
inductive Query (α : Type) where
  | size
  | capacity
  | isEmpty
  | isFull
  | oldest (form : Form)
  | newest (form : Form)
  | get (form : Form) (index : Nat)
  | visit (bound : Bound α)
  | traverse (script : List (Step End))
  | checkpoint
  | outline (setting : Setting)
  | checkpointOutline
  | text
  | checkpointText

/-- What can be done to a buffer. -/
inductive Update (α : Type) where
  | push (a : α)
  | pushFront (a : α)
  | pushAll (as : List α)
  | clear
  | evictWhile (condition : Condition α)

variable {α : Type} [Element α]

/-- Answers a question. -/
def ask (b : CircularBuffer α) : Query α → Except Abort (Reply α)
  | .size => return .count b.size
  | .capacity => return .count b.capacity
  | .isEmpty => return .truth b.isEmpty
  | .isFull => return .truth b.isFull
  | .oldest form => form.reply b.oldest
  | .newest form => form.reply b.newest
  | .get form index => form.reply (b.get index)
  | .visit bound => .visited <$> insist (b.visit bound.goesOn [])
  | .traverse script => .answers <$> insist (Traversal.run b.elements script)
  | .checkpoint => return .checkpoint b.checkpoint
  | .outline setting => return .text ((Outlined.outline b).text setting)
  | .checkpointOutline => return .text (Outlined.outline b.checkpoint).line
  | .text => return .text b.text
  | .checkpointText => return .text b.checkpoint.text

/-- Does an update. -/
def perform (b : CircularBuffer α) : Update α → Outcome (CircularBuffer α) (Reply α) Event
  | .push a => finish (b.push a)
  | .pushFront a => finish (b.pushFront a)
  | .pushAll as => finish (b.pushAll as)
  | .clear => finish (pure b.clear)
  | .evictWhile condition =>
    match b.evictWhile condition.holds [] with
    | ⟨.ok ⟨buffer, count, asked⟩, events⟩ =>
      { collection := buffer, reply := return .evicted count asked, events }
    | ⟨.error fault, events⟩ => { collection := b, reply := .error fault.abort, events }
where
  /-- An update that tells nothing but that it is done. -/
  finish (t : Traced Event (CircularBuffer α)) : Outcome (CircularBuffer α) (Reply α) Event :=
    { collection := t.result, reply := return .done, events := t.events }

instance : Commanded (CircularBuffer α) (Query α) (Update α) (Reply α) Event where
  ask q b := b.ask q
  perform u b := b.perform u

end Containers.CircularBuffer
