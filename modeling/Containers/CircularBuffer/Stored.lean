import Containers.CircularBuffer.Checkpoint
import Containers.Json.Stored
/-!
# The stored form of a circular buffer

* `Checkpoint.shape`, `Checkpoint.reader`, `Checkpoint.text` — the stored form of a checkpoint;
* `CircularBuffer.text` — the stored form of a buffer, written from its slots where they are;
* `Checkpoint.ofText`, `CircularBuffer.ofText` — reading them back.

The word for nothing among the slots is a slot that holds nothing, whatever the elements are. A
buffer is read as a checkpoint and then restored, before what follows in the text is looked at.
-/

namespace Containers

variable {α : Type}

/-! ### Checkpoints -/

namespace Checkpoint

/-- The fields of a checkpoint that are read so far. -/
structure Draft (α : Type) where
  slots : Option (List (Option α))
  cursor : Option Nat
  free : Option Nat

variable [Json.Stored α]

/-- The stored form of a checkpoint, by the number of brackets that may be opened in it. -/
def shape (depth : Nat) : Json.Shape (Draft α) (Checkpoint α) where
  name := "RingState"
  fields :=
    [ { name := "slots"
        filled := fun d => d.slots.isSome
        fill := fun d =>
          (Json.sequenceWithin (fun depth => Json.orNull (Json.Stored.reader depth)) depth).refine
            fun slots => .ok { d with slots := some slots } },
      { name := "cursor"
        filled := fun d => d.cursor.isSome
        fill := fun d => Json.natural.refine fun n => .ok { d with cursor := some n } },
      { name := "free"
        filled := fun d => d.free.isSome
        fill := fun d => Json.natural.refine fun n => .ok { d with free := some n } } ]
  blank := ⟨none, none, none⟩
  finish
    | ⟨none, _, _⟩ => .error (.missingField "slots")
    | ⟨_, none, _⟩ => .error (.missingField "cursor")
    | ⟨_, _, none⟩ => .error (.missingField "free")
    | ⟨some slots, some cursor, some free⟩ => .ok ⟨slots, cursor, free⟩

/-- A checkpoint as it is written. -/
def text (c : Checkpoint α) : String :=
  String.ofList
    (Json.writeRecord
      [("slots", Json.writeSequence Json.writeOption c.slots), ("cursor", Json.writeNat c.cursor),
        ("free", Json.writeNat c.free)])

/-- A checkpoint read off a text, by the number of brackets that may be opened. -/
def reader : Nat → Json.Reader (Checkpoint α) :=
  Json.recordWithin shape

/-- The bracket of a checkpoint is the first that is opened. -/
theorem reader_nestingLimit :
    (reader Json.nestingLimit : Json.Reader (Checkpoint α)) = (shape (Json.nestingLimit - 1)).reader :=
  rfl

/-- Reads a text that is a checkpoint. -/
def ofText (s : String) : Except Json.Problem (Checkpoint α) :=
  (reader Json.nestingLimit).whole s

end Checkpoint

/-! ### Buffers -/

namespace CircularBuffer

variable [Json.Stored α]

/-- A buffer as it is written: the same record as that of its checkpoint. -/
def text (b : CircularBuffer α) : String :=
  String.ofList
    (Json.writeRecord
      [("slots", '[' :: Json.separated (b.slots.map Json.writeOption).toList ++ [']']),
        ("cursor", Json.writeNat b.cursor), ("free", Json.writeNat b.free)])

/-- A buffer read off a text, by the number of brackets that may be opened. A checkpoint of no buffer
does not fit. -/
def reader (depth : Nat) : Json.Reader (CircularBuffer α) :=
  (Checkpoint.reader depth).refine fun c =>
    (restore c).mapError fun defect => .rejected defect.message

/-- Reads a text that is a buffer. -/
def ofText (s : String) : Except Json.Problem (CircularBuffer α) :=
  (reader Json.nestingLimit).whole s

end CircularBuffer

end Containers
