import Containers.CircularBuffer.Checkpoint
import Containers.CircularBuffer.Span
import Containers.Proofs.CircularBuffer.BoundedList
import Containers.Proofs.Words

/-!
# Buffers in words

The numbers of a buffer are natural numbers, and those on the way to an answer are as large as they
come.  Here is the same buffer with words of 64 bits in their place.

* `NarrowBuffer`, `NarrowSpan` — a buffer and a span whose numbers are words, with each operation
  step by step: it has no result if a number leaves the words, if a slot is not there or if it is
  vacant;
* `NarrowBuffer.widen`, `CircularBuffer.narrow` — the same numbers as natural numbers, and as words;
* `runOnNarrow` — operations one after the other.
-/

namespace Containers

open Word

variable {α σ : Type}

/-- A circular buffer whose numbers are words. -/
structure NarrowBuffer (α : Type) where
  slots : Array (Option α)
  cursor : UInt64
  free : UInt64

namespace NarrowBuffer

def widen (b : NarrowBuffer α) : CircularBuffer α :=
  ⟨b.slots, b.cursor.toNat, b.free.toNat⟩

/-! ### Reading -/

def capacity (b : NarrowBuffer α) : UInt64 :=
  .ofNat b.slots.size

def size (b : NarrowBuffer α) : Option UInt64 :=
  sub? b.capacity b.free

def isEmpty (b : NarrowBuffer α) : Bool :=
  b.free = b.capacity

def isFull (b : NarrowBuffer α) : Bool :=
  b.free = 0

def slot (b : NarrowBuffer α) (offset : UInt64) : Option UInt64 := do
  let start ← add? b.cursor b.free
  let sum ← add? start offset
  mod? sum b.capacity

def element (b : NarrowBuffer α) (offset : UInt64) : Option α := do
  let slot ← b.slot offset
  let held ← read? b.slots slot
  held

def oldest (b : NarrowBuffer α) : Option (Except Fault α) :=
  if b.isEmpty then some (.error (.refused .noElements)) else .ok <$> b.element 0

def newest (b : NarrowBuffer α) : Option (Except Fault α) := do
  let size ← b.size
  match sub? size 1 with
  | some last => .ok <$> b.element last
  | none => some (.error (.refused .noElements))

def get (b : NarrowBuffer α) (index : UInt64) : Option (Except Fault α) := do
  let size ← b.size
  if size ≤ index then some (.error (.refused (.indexPastEnd index.toNat size.toNat)))
  else .ok <$> b.element index

/-! ### Adding -/

/-- The slot after the cursor. -/
def advanced (b : NarrowBuffer α) : Option UInt64 := do
  let next ← add? b.cursor 1
  mod? next b.capacity

def push (b : NarrowBuffer α) (a : α) :
    Option (Traced CircularBuffer.Event (NarrowBuffer α)) := do
  let free ← if b.isFull then some b.free else sub? b.free 1
  let slots ← write? b.slots b.cursor (some a)
  let cursor ← b.advanced
  return ⟨⟨slots, cursor, free⟩, if b.isFull then [.overwroteOldest b.cursor.toNat] else []⟩

def pushAll (b : NarrowBuffer α) :
    List α → Option (Traced CircularBuffer.Event (NarrowBuffer α))
  | [] => some (pure b)
  | a :: as => do
    let first ← b.push a
    let rest ← first.result.pushAll as
    return ⟨rest.result, first.events ++ rest.events⟩

/-- The slot before another. -/
def before (capacity slot : UInt64) : Option UInt64 := do
  let sum ← add? slot capacity
  let before ← sub? sum 1
  mod? before capacity

/-- Moves what the slot before another holds into that, and leaves nothing. -/
def pull (capacity target : UInt64) (slots : Array (Option α)) :
    Option (UInt64 × Array (Option α)) := do
  let source ← before capacity target
  let held ← read? slots source
  let taken ← write? slots source none
  let moved ← write? taken target held
  return (source, moved)

/-- Moves what the slots hold on by one slot each, from the slot `target` back to the slot `stop`,
`limit` of them at most. -/
def shift (capacity stop : UInt64) :
    (limit : Nat) → (target : UInt64) → Array (Option α) → Option (Array (Option α))
  | 0, target, slots => if target = stop then some slots else none
  | limit + 1, target, slots =>
    if target = stop then some slots
    else do
      let (source, moved) ← pull capacity target slots
      shift capacity stop limit source moved

def pushFront (b : NarrowBuffer α) (a : α) :
    Option (Traced CircularBuffer.Event (NarrowBuffer α)) :=
  if b.isFull then do
    let size ← b.size
    let last ← sub? size 1
    let slot ← b.slot last
    let slots ← write? b.slots slot (some a)
    return ⟨{ b with slots }, [.overwroteNewest slot.toNat]⟩
  else do
    let oldest ← b.slot 0
    let moved ← shift b.capacity oldest b.slots.size b.cursor b.slots
    let slots ← write? moved oldest (some a)
    let cursor ← b.advanced
    let free ← sub? b.free 1
    return pure ⟨slots, cursor, free⟩

/-! ### Giving slots free -/

/-- What is left after elements were given up, and how many they were. -/
structure Eviction (α σ : Type) where
  buffer : NarrowBuffer α
  count : UInt64
  state : σ

def Eviction.widen (e : Eviction α σ) : CircularBuffer.Eviction α σ :=
  ⟨e.buffer.widen, e.count.toNat, e.state⟩

/-- The rounds of an eviction, `limit` at most, from where it stands. -/
def evict (accepts : α → StateM σ Bool) :
    (limit : Nat) → Eviction α σ → Option (Eviction α σ)
  | 0, e => if e.buffer.isEmpty then some e else none
  | limit + 1, e =>
    if e.buffer.isEmpty then some e
    else do
      let a ← e.buffer.element 0
      let (yes, state) := (accepts a).run e.state
      if yes then
        let free ← add? e.buffer.free 1
        let count ← add? e.count 1
        evict accepts limit ⟨{ e.buffer with free }, count, state⟩
      else return { e with state }

def evictWhile (b : NarrowBuffer α) (accepts : α → StateM σ Bool) (s : σ) :
    Option (Traced CircularBuffer.Event (Eviction α σ)) := do
  let e ← evict accepts b.slots.size ⟨b, 0, s⟩
  if 0 < e.count then
    let remaining ← e.buffer.size
    return ⟨e, [.evicted e.count.toNat remaining.toNat]⟩
  else return ⟨e, []⟩

def clear (b : NarrowBuffer α) : NarrowBuffer α :=
  { b with free := b.capacity }

/-! ### Restoring -/

/-- Whether one of the slots from `offset` on up to the size is vacant, `limit` of them at most. -/
def anyVacant (b : NarrowBuffer α) (size : UInt64) : (limit : Nat) → (offset : UInt64) → Option Bool
  | 0, offset => if offset < size then none else some false
  | limit + 1, offset =>
    if offset < size then do
      let next ← add? offset 1
      let slot ← b.slot offset
      let held ← read? b.slots slot
      if held.isNone then return true else b.anyVacant size limit next
    else some false

/-- The buffer with parts that may come from anywhere. -/
def restore (b : NarrowBuffer α) : Option (Except Checkpoint.Defect (NarrowBuffer α)) :=
  if b.capacity = 0 then some (.error .noSlots)
  else if b.capacity ≤ b.cursor then some (.error .cursorPastEnd)
  else if b.capacity < b.free then some (.error .tooManyFree)
  else do
    let size ← b.size
    let vacant ← b.anyVacant size b.slots.size 0
    return if vacant then .error .vacantSlot else .ok b

end NarrowBuffer

/-! ### Traversing -/

/-- The elements of a buffer in words from the offset `front` to before the offset `back`. -/
structure NarrowSpan (α : Type) where
  buffer : NarrowBuffer α
  front : UInt64
  back : UInt64

namespace NarrowSpan

def widen (p : NarrowSpan α) : CircularBuffer.Span α :=
  ⟨p.buffer.widen, p.front.toNat, p.back.toNat⟩

def take (p : NarrowSpan α) (e : End) : Option (Option α × NarrowSpan α) :=
  if p.front = p.back then some (none, p)
  else
    match e with
    | .front => do
      let a ← p.buffer.element p.front
      let front ← add? p.front 1
      return (some a, { p with front })
    | .back => do
      let back ← sub? p.back 1
      let a ← p.buffer.element back
      return (some a, { p with back })

def remaining (p : NarrowSpan α) : Option UInt64 :=
  sub? p.back p.front

/-- Calls `f` with the ranks from `rank` on and the elements, until it answers false or no element
is left, in `limit` rounds at most. -/
def visitUpTo (f : Nat → α → StateM σ Bool) :
    (limit : Nat) → (rank : UInt64) → NarrowSpan α → σ → Option σ
  | 0, _, _, _ => none
  | limit + 1, rank, p, s => do
    match ← p.take .front with
    | (none, _) => return s
    | (some a, p) =>
      let next ← add? rank 1
      let (goOn, s) := (f rank.toNat a).run s
      if goOn then visitUpTo f limit next p s else return s

/-- Whether two spans give equal elements from their fronts and end together, in `limit` rounds at
most. -/
def sameUpTo [BEq α] : (limit : Nat) → NarrowSpan α → NarrowSpan α → Option Bool
  | 0, _, _ => none
  | limit + 1, p, q => do
    let (a, p) ← p.take .front
    let (b, q) ← q.take .front
    match a, b with
    | none, none => return true
    | some a, some b => if a == b then sameUpTo limit p q else return false
    | _, _ => return false

end NarrowSpan

namespace NarrowBuffer

def elements (b : NarrowBuffer α) : Option (NarrowSpan α) := do
  let size ← b.size
  return ⟨b, 0, size⟩

def visit (b : NarrowBuffer α) (f : Nat → α → StateM σ Bool) (s : σ) : Option σ := do
  let p ← b.elements
  p.visitUpTo f (b.slots.size + 1) 0 s

def same [BEq α] (b c : NarrowBuffer α) : Option Bool := do
  let size ← b.size
  let size' ← c.size
  if size = size' then
    let p ← b.elements
    let q ← c.elements
    p.sameUpTo (b.slots.size + 1) q
  else return false

end NarrowBuffer

/-! ### Runs -/

namespace CircularBuffer

/-- Does an operation to a buffer in words. -/
def Operation.onNarrow (b : NarrowBuffer α) (s : σ) :
    Operation α σ → Option (NarrowBuffer α × σ)
  | .push a => (fun t => (t.result, s)) <$> b.push a
  | .pushFront a => (fun t => (t.result, s)) <$> b.pushFront a
  | .pushAll as => (fun t => (t.result, s)) <$> b.pushAll as
  | .evictWhile accepts => (fun t => (t.result.buffer, t.result.state)) <$> b.evictWhile accepts s
  | .clear => some (b.clear, s)

/-- Does operations to a buffer in words, one after the other. -/
def runOnNarrow : List (Operation α σ) → NarrowBuffer α → σ → Option (NarrowBuffer α × σ)
  | [], b, s => some (b, s)
  | op :: ops, b, s => do
    let (b, s) ← op.onNarrow b s
    runOnNarrow ops b s

/-- The same numbers, as words. -/
def narrow (b : CircularBuffer α) : NarrowBuffer α :=
  ⟨b.slots, .ofNat b.cursor, .ofNat b.free⟩

def Eviction.narrow (e : Eviction α σ) : NarrowBuffer.Eviction α σ :=
  ⟨e.buffer.narrow, .ofNat e.count, e.state⟩

def Span.narrow (p : Span α) : NarrowSpan α :=
  ⟨p.buffer.narrow, .ofNat p.front, .ofNat p.back⟩

end CircularBuffer

end Containers
