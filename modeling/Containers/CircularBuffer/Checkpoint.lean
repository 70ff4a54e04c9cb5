import Containers.CircularBuffer.Basic
/-!
# Checkpoints

* `Checkpoint α` — everything there is to know of a circular buffer, as plain data that may come
  from anywhere;
* `CircularBuffer.checkpoint` — the checkpoint of a buffer;
* `CircularBuffer.restore` — the buffer of a checkpoint, if its parts belong together;
* `Checkpoint.Defect` — why they do not.
-/

namespace Containers

/-- The slots of a buffer with free ones included, its cursor and the number of free slots. -/
structure Checkpoint (α : Type) where
  slots : List (Option α)
  cursor : Nat
  free : Nat
  deriving Repr

namespace Checkpoint

variable {α : Type}

instance [BEq α] : BEq (Checkpoint α) where
  beq c d := c.slots == d.slots && c.cursor == d.cursor && c.free == d.free

instance [Outlined α] : Outlined (Checkpoint α) where
  outline c :=
    .record "RingState"
      [("slots", outline c.slots), ("cursor", .number c.cursor), ("free", .number c.free)]

/-- Why a checkpoint is of no buffer. -/
inductive Defect where
  | noSlots
  | cursorPastEnd
  | tooManyFree
  | vacantSlot
  deriving DecidableEq, Repr

def Defect.reason : Defect → String
  | noSlots => "no backing slots"
  | cursorPastEnd => "write cursor past the last slot"
  | tooManyFree => "more free slots than backing slots"
  | vacantSlot => "live slot without a value"

def Defect.message (d : Defect) : String :=
  "Invalid RingBuffer state: " ++ d.reason ++ "!"

end Checkpoint

namespace CircularBuffer

variable {α : Type}

/-- The checkpoint of a buffer. -/
def checkpoint (b : CircularBuffer α) : Checkpoint α :=
  ⟨b.slots.toList, b.cursor, b.free⟩

/-- The buffer of a checkpoint. The numbers are looked at first, then the occupied slots. -/
def restore (c : Checkpoint α) : Except Checkpoint.Defect (CircularBuffer α) :=
  let b : CircularBuffer α := ⟨c.slots.toArray, c.cursor, c.free⟩
  if b.capacity = 0 then .error .noSlots
  else if b.capacity ≤ b.cursor then .error .cursorPastEnd
  else if b.capacity < b.free then .error .tooManyFree
  else if (List.range b.size).any fun offset => (b.element? offset).isNone then
    .error .vacantSlot
  else .ok b

end CircularBuffer

end Containers
