import Mathlib.Data.Nat.ModEq
import Containers.CircularBuffer.Basic

/-!
# The contents of a circle

Offsets from the oldest element run once around the circle, so below the capacity no two of them
lead to the same slot.  The contents of a buffer are what stands at the first of them.

* `CircularBuffer.Contains` — the parts of a buffer belong together and hold a list of elements;
* `slot_injective`, `slot_advanced`, `slot_size`, `slot_before` — the arithmetic of the circle;
* **`join_write`** — writing to a slot changes what stands at its offset and nowhere else;
* **`Valid.contains`** and **`Contains.toList_eq`** — a valid buffer contains its list and no
  other.
-/

namespace Containers.CircularBuffer

variable {α : Type} {b c : CircularBuffer α} {xs : List α}

/-! ### Offsets and slots -/

theorem slot_lt (hpos : 0 < b.capacity) (offset : Nat) : b.slot offset < b.capacity :=
  Nat.mod_lt _ hpos

/-- **Offsets below the capacity lead to different slots.** -/
theorem slot_injective {i j : Nat} (hi : i < b.capacity) (hj : j < b.capacity)
    (h : b.slot i = b.slot j) : i = j := by
  have hmod : i ≡ j [MOD b.capacity] := Nat.ModEq.add_left_cancel' (b.cursor + b.free) h
  exact Nat.ModEq.eq_of_lt_of_lt hmod hi hj

/-- The slot of the cursor is the one behind the newest element. -/
theorem slot_size (hcursor : b.cursor < b.capacity) (hfree : b.free ≤ b.capacity) :
    b.slot b.size = b.cursor := by
  have hround : b.cursor + b.free + b.size = b.cursor + b.capacity := by
    show b.cursor + b.free + (b.capacity - b.free) = _
    omega
  rw [slot, hround, Nat.add_mod_right, Nat.mod_eq_of_lt hcursor]

/-- Where an offset leads after the cursor has moved on by one slot. -/
theorem slot_advanced (hcapacity : c.capacity = b.capacity)
    (hcursor : c.cursor = (b.cursor + 1) % b.capacity) {i j : Nat}
    (hoffset : c.free + 1 + i = b.free + j) : c.slot i = b.slot j := by
  rw [slot, slot, hcapacity, hcursor, Nat.add_assoc, Nat.mod_add_mod]
  congr 1
  omega

/-- The slot before another. -/
theorem slot_before (hpos : 0 < b.capacity) (offset : Nat) :
    (b.slot (offset + 1) + b.capacity - 1) % b.capacity = b.slot offset := by
  rw [Nat.add_sub_assoc hpos, slot, Nat.mod_add_mod]
  have hround : b.cursor + b.free + (offset + 1) + (b.capacity - 1) =
      b.cursor + b.free + offset + b.capacity := by omega
  rw [hround, Nat.add_mod_right]
  rfl

/-- **Writing to a slot** changes what stands at its offset and at no other. -/
theorem join_write {slots : Array (Option α)} (hsize : slots.size = b.capacity) {i j : Nat}
    (hi : i < b.capacity) (hj : j < b.capacity) (v : Option α) :
    (slots.setIfInBounds (b.slot i) v)[b.slot j]?.join =
      if i = j then v else slots[b.slot j]?.join := by
  rw [Array.getElem?_setIfInBounds]
  by_cases hij : i = j
  · have hlt : b.slot i < slots.size := by
      rw [hsize]
      exact slot_lt (Nat.zero_lt_of_lt hi) i
    rw [if_pos (congrArg b.slot hij), if_pos hlt, if_pos hij]
    rfl
  · have hne : b.slot i ≠ b.slot j := fun h => hij (slot_injective hi hj h)
    rw [if_neg hne, if_neg hij]

/-! ### Contents -/

/-- The parts of a buffer belong together, and its occupied slots hold a list of elements. -/
structure Contains (b : CircularBuffer α) (xs : List α) : Prop where
  cursor_lt : b.cursor < b.capacity
  length_add_free : xs.length + b.free = b.capacity
  element?_eq : ∀ offset < xs.length, b.element? offset = xs[offset]?

namespace Contains

theorem size_eq (h : b.Contains xs) : b.size = xs.length := by
  have hlength := h.length_add_free
  rw [size]
  omega

theorem slot_length (h : b.Contains xs) : b.slot xs.length = b.cursor := by
  have hlength := h.length_add_free
  rw [← h.size_eq]
  exact slot_size h.cursor_lt (by omega)

theorem element_eq (h : b.Contains xs) {i : Nat} (hi : i < xs.length) :
    b.element i = .ok xs[i] := by
  rw [element, h.element?_eq i hi, List.getElem?_eq_getElem hi]

theorem valid (h : b.Contains xs) : b.Valid := by
  have hlength := h.length_add_free
  constructor
  case capacity_pos => exact Nat.zero_lt_of_lt h.cursor_lt
  case cursor_lt => exact h.cursor_lt
  case free_le => omega
  case occupied =>
    intro offset hlt
    rw [h.size_eq] at hlt
    rw [h.element?_eq offset hlt, List.getElem?_eq_getElem hlt]
    rfl

/-- A list is read off position by position. -/
theorem filterMap_range_eq (xs : List α) (read : Nat → Option α)
    (h : ∀ i < xs.length, read i = xs[i]?) : (List.range xs.length).filterMap read = xs := by
  induction xs generalizing read with
  | nil => rfl
  | cons x xs ih =>
    have hfirst : read 0 = some x := h 0 (Nat.zero_lt_succ _)
    rw [List.length_cons, List.range_succ_eq_map, List.filterMap_cons_some hfirst,
      List.filterMap_map]
    refine congrArg (x :: ·) (ih _ ?_)
    intro i hi
    exact h (i + 1) (Nat.succ_lt_succ hi)

/-- **The list of a buffer** is what it contains. -/
theorem toList_eq (h : b.Contains xs) : b.toList = xs := by
  rw [toList, h.size_eq]
  exact filterMap_range_eq xs b.element? h.element?_eq

end Contains

/-- **A valid buffer** contains its list. -/
theorem Valid.contains (h : b.Valid) : b.Contains b.toList := by
  have hexists : ∃ xs, b.Contains xs := by
    let xs := List.ofFn fun i : Fin b.size => (b.element? i).get (h.occupied i i.isLt)
    have hlength : xs.length = b.size := List.length_ofFn
    have hfree := h.free_le
    refine ⟨xs, h.cursor_lt, ?_, ?_⟩
    · rw [hlength, size]
      omega
    · intro offset hlt
      rw [hlength] at hlt
      rw [List.getElem?_ofFn, dif_pos hlt, Option.some_get]
  obtain ⟨xs, hxs⟩ := hexists
  rw [hxs.toList_eq]
  exact hxs

end Containers.CircularBuffer
