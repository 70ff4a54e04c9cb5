import Containers.Fault
import Containers.Traced
import Containers.Text.Outline
/-!
# Circular buffers

A circular buffer holds the newest elements of a stream, up to a fixed number. Its slots form a
circle: the free ones start at the cursor, the occupied ones follow, oldest first.

* `CircularBuffer α` — slots, cursor and number of free slots; `CircularBuffer.Valid` says when they
  belong together;
* `CircularBuffer.toList` — the elements, oldest first: the view that describes all else;
* `oldest`, `newest`, `get` — reading, with a fault as the answer to a wrong request;
* `push`, `pushAll`, `pushFront` — adding elements at the newest and at the oldest side;
* `evictWhile`, `clear` — giving slots free.
-/

namespace Containers

/-- A circle of slots. The `free` slots from the cursor on are not in use; what they still hold is
kept until it is written over. -/
structure CircularBuffer (α : Type) where
  slots : Array (Option α)
  /-- The slot that the next element at the newest side goes to. -/
  cursor : Nat
  free : Nat
  deriving Repr

namespace CircularBuffer

/-- What a buffer reports about its work. -/
inductive Event where
  /-- An element at the newest side took the slot of the oldest. -/
  | overwroteOldest (slot : Nat)
  /-- An element at the oldest side found no room and took the slot of the newest. -/
  | overwroteNewest (slot : Nat)
  | evicted (count remaining : Nat)
  deriving DecidableEq, Repr

def Event.note : Event → Note
  | .overwroteOldest slot =>
    ⟨.trace, "ring buffer full, append overwrites the oldest element", [("slot", slot)]⟩
  | .overwroteNewest slot =>
    ⟨.trace, "ring buffer full, prepend overwrites the newest element", [("slot", slot)]⟩
  | .evicted count remaining =>
    ⟨.debug, "shifted elements off ring buffer", [("evicted", count), ("remaining", remaining)]⟩

variable {α σ : Type}

/-! ### Size and slots -/

def capacity (b : CircularBuffer α) : Nat :=
  b.slots.size

/-- The number of elements. -/
def size (b : CircularBuffer α) : Nat :=
  b.capacity - b.free

def isEmpty (b : CircularBuffer α) : Bool :=
  b.free = b.capacity

/-- Whether the next element has to take the place of another. -/
def isFull (b : CircularBuffer α) : Bool :=
  b.free = 0

/-- The slot at an offset from the oldest element. -/
def slot (b : CircularBuffer α) (offset : Nat) : Nat :=
  (b.cursor + b.free + offset) % b.capacity

/-- What the slot at an offset holds. -/
def element? (b : CircularBuffer α) (offset : Nat) : Option α :=
  b.slots[b.slot offset]?.join

/-- The element at an offset that is below the size. -/
def element (b : CircularBuffer α) (offset : Nat) : Except Fault α :=
  match b.element? offset with
  | some a => .ok a
  | none => .error .vacant

/-- The elements, oldest first. -/
def toList (b : CircularBuffer α) : List α :=
  (List.range b.size).filterMap b.element?

/-- The parts of a buffer belong together: there is a slot, the cursor is one of them, no more slots
are free than there are, and every occupied slot holds an element. -/
structure Valid (b : CircularBuffer α) : Prop where
  capacity_pos : 0 < b.capacity
  cursor_lt : b.cursor < b.capacity
  free_le : b.free ≤ b.capacity
  occupied : ∀ offset < b.size, (b.element? offset).isSome

/-- An empty buffer with a number of slots, which must not be zero. Not more than `room` slots can be
made at once: that depends on how much memory there is, and on how much of it a slot takes. -/
def ofCapacity (room capacity : Nat) : Except Fault (CircularBuffer α) :=
  if capacity = 0 then .error (.refused .noCapacity)
  else if room < capacity then .error .noRoom
  else .ok ⟨Array.replicate capacity none, 0, capacity⟩

/-! ### Reading -/

/-- The oldest element. -/
def oldest (b : CircularBuffer α) : Except Fault α :=
  if b.isEmpty then .error (.refused .noElements) else b.element 0

/-- The newest element. -/
def newest (b : CircularBuffer α) : Except Fault α :=
  match b.size with
  | 0 => .error (.refused .noElements)
  | last + 1 => b.element last

/-- The element at a position, counted from the oldest. -/
def get (b : CircularBuffer α) (index : Nat) : Except Fault α :=
  if b.size ≤ index then .error (.refused (.indexPastEnd index b.size)) else b.element index

/-! ### Adding -/

/-- Adds an element after the newest. In a full buffer it takes the place of the oldest. -/
def push (b : CircularBuffer α) (a : α) : Traced Event (CircularBuffer α) where
  result :=
    { slots := b.slots.setIfInBounds b.cursor (some a)
      cursor := (b.cursor + 1) % b.capacity
      free := if b.isFull then 0 else b.free - 1 }
  events := if b.isFull then [.overwroteOldest b.cursor] else []

/-- Adds elements after the newest, one after the other. -/
def pushAll (b : CircularBuffer α) : List α → Traced Event (CircularBuffer α)
  | [] => pure b
  | a :: as => do
    let b ← b.push a
    b.pushAll as

/-- The slots from `start` backwards to the one after `stop`, `limit` of them at most. -/
def backwards (capacity stop : Nat) : (limit start : Nat) → List Nat
  | 0, _ => []
  | limit + 1, start =>
    if start = stop then []
    else start :: backwards capacity stop limit ((start + capacity - 1) % capacity)

/-- The slots that elements move to when one is added at the oldest side, in the order in which they
do: from the first free slot back to the one after the oldest element. -/
def shifted (b : CircularBuffer α) : List Nat :=
  backwards b.capacity (b.slot 0) b.capacity b.cursor

/-- Moves what the slot before `slot` holds into it. -/
def pull (slots : Array (Option α)) (slot : Nat) : Array (Option α) :=
  let before := (slot + slots.size - 1) % slots.size
  (slots.setIfInBounds slot slots[before]?.join).setIfInBounds before none

/-- Adds an element before the oldest. All elements move on by one slot, and the new one takes the
slot of the oldest. In a full buffer nothing can move, and it takes the place of the newest. -/
def pushFront (b : CircularBuffer α) (a : α) : Traced Event (CircularBuffer α) :=
  if b.isFull then
    let slot := b.slot (b.size - 1)
    { result := { b with slots := b.slots.setIfInBounds slot (some a) }
      events := [.overwroteNewest slot] }
  else
    pure
      { slots := (b.shifted.foldl pull b.slots).setIfInBounds (b.slot 0) (some a)
        cursor := (b.cursor + 1) % b.capacity
        free := b.free - 1 }

/-! ### Giving slots free -/

/-- How many elements from an offset on a predicate accepts one after the other, `limit` at most. -/
def accepted (b : CircularBuffer α) (accepts : α → StateM σ Bool) :
    (limit offset : Nat) → σ → Except Fault (Nat × σ)
  | 0, _, s => return (0, s)
  | limit + 1, offset, s => do
    let a ← b.element offset
    let (yes, s) := (accepts a).run s
    if yes then
      let (n, s) ← b.accepted accepts limit (offset + 1) s
      return (n + 1, s)
    else return (0, s)

/-- What is left after elements were given up, and how many they were. -/
structure Eviction (α σ : Type) where
  buffer : CircularBuffer α
  count : Nat
  /-- The state of the predicate. -/
  state : σ

/-- Gives the slots of the oldest elements free, as long as a predicate accepts the oldest. What
they hold stays in them. -/
def evictWhile (b : CircularBuffer α) (accepts : α → StateM σ Bool) (s : σ) :
    Traced Event (Except Fault (Eviction α σ)) :=
  match b.accepted accepts b.size 0 s with
  | .error fault => pure (.error fault)
  | .ok (count, s) =>
    let buffer := { b with free := b.free + count }
    { result := .ok ⟨buffer, count, s⟩
      events := if count = 0 then [] else [.evicted count buffer.size] }

/-- Gives all slots free. What they hold stays in them. -/
def clear (b : CircularBuffer α) : CircularBuffer α :=
  { b with free := b.capacity }

/-! ### Outline -/

instance [Outlined α] : Outlined (CircularBuffer α) where
  outline b :=
    .record "RingBuffer"
      [("contents", outline b.toList), ("len", .number b.size), ("capacity", .number b.capacity)]

end CircularBuffer

end Containers
