import Containers.CircularBuffer.Basic
import Containers.Traversal.Basic
/-!
# Traversing a circular buffer

* `CircularBuffer.Span` — the elements of a buffer that a traversal has still to come by;
* `CircularBuffer.elements` — the span of all elements;
* `CircularBuffer.visit` — calling for each element until told to stop;
* the equality of buffers.
-/

namespace Containers.CircularBuffer

variable {α σ : Type}

/-- The elements of a buffer from the offset `front` to before the offset `back`. -/
structure Span (α : Type) where
  buffer : CircularBuffer α
  front : Nat
  back : Nat

namespace Span

/-- The element at an end, if the span is not empty, and the span without it. -/
def take (s : Span α) (e : End) : Except Fault (Option α × Span α) :=
  if s.front = s.back then return (none, s)
  else
    match e with
    | .front => return (some (← s.buffer.element s.front), { s with front := s.front + 1 })
    | .back => return (some (← s.buffer.element (s.back - 1)), { s with back := s.back - 1 })

instance : Traversal (Span α) End α where
  front := .front
  take e s := s.take e
  remaining s := s.back - s.front

end Span

/-- The span of all elements. -/
def elements (b : CircularBuffer α) : Span α :=
  ⟨b, 0, b.size⟩

/-- Calls `f` with the position and the value of each element, oldest first, until it answers
false. -/
def visit (b : CircularBuffer α) (f : Nat → α → StateM σ Bool) (s : σ) : Except Fault σ :=
  Traversal.visit f b.elements s

/-- Buffers are equal if they hold equal elements in the same order, wherever these stand. -/
instance [BEq α] : BEq (CircularBuffer α) where
  beq b c := b.size == c.size && (Traversal.same b.elements c.elements).toOption == some true

end Containers.CircularBuffer
