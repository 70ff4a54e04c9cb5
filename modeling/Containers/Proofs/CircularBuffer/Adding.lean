import Containers.Proofs.CircularBuffer.Contents

/-!
# Adding to a circle

What a list of bounded length does when an element is added at either end, and that a buffer does
the same.

* `BoundedList.push`, `BoundedList.pushFront`, `BoundedList.pushAll` — the list;
* `shifted_eq` — the slots that elements move to, newest first;
* **`foldl_pull`** — the move as a whole: everything stands one slot further on;
* `Contains.join_pushFront` — what stands where after a new oldest element;
* `Contains.slot_push`, `Contains.slot_pushFront` — where offsets are counted from after an addition;
* **`Contains.push`**, **`Contains.pushAll`** and **`Contains.pushFront`** — the buffer contains
  what the list holds.
-/

namespace Containers

variable {α : Type}

namespace BoundedList

/-- Adds an element at the newest side.  A full list gives up its oldest element first. -/
def push (capacity : Nat) (xs : List α) (a : α) : List α :=
  if xs.length = capacity then xs.tail ++ [a] else xs ++ [a]

/-- Adds an element at the oldest side.  In a full list it takes the place of the newest. -/
def pushFront (capacity : Nat) (xs : List α) (a : α) : List α :=
  if xs.length = capacity then xs.dropLast ++ [a] else a :: xs

/-- Adds elements at the newest side, one after the other. -/
def pushAll (capacity : Nat) (xs as : List α) : List α :=
  as.foldl (push capacity) xs

end BoundedList

namespace CircularBuffer

variable {b : CircularBuffer α} {xs : List α}

/-! ### At the newest side -/

@[simp] theorem capacity_push (b : CircularBuffer α) (a : α) :
    (b.push a).result.capacity = b.capacity :=
  Array.size_setIfInBounds

theorem Contains.isFull_iff (h : b.Contains xs) : b.isFull ↔ xs.length = b.capacity := by
  have hlength := h.length_add_free
  rw [isFull, decide_eq_true_iff]
  omega

theorem Contains.not_isFull (h : b.Contains xs) (hroom : xs.length < b.capacity) : ¬ b.isFull :=
  fun hyes => Nat.ne_of_lt hroom (h.isFull_iff.mp hyes)

theorem Contains.cursor_push_lt (h : b.Contains xs) (a : α) :
    (b.push a).result.cursor < (b.push a).result.capacity := by
  rw [capacity_push]
  exact Nat.mod_lt _ (Nat.zero_lt_of_lt h.cursor_lt)

/-- In a full buffer the cursor stands at the slot of the oldest element. -/
theorem Contains.cursor_of_full (h : b.Contains xs) (hfull : xs.length = b.capacity) :
    b.cursor = b.slot 0 := by
  rw [← h.slot_length, hfull, slot, Nat.add_mod_right]
  rfl

/-- In a full buffer the slot of the oldest element is written to, and what follows it becomes the
oldest. -/
theorem Contains.push_of_full (h : b.Contains xs) (hfull : xs.length = b.capacity) (a : α) :
    (b.push a).result.Contains (xs.tail ++ [a]) := by
  have hpos := Nat.zero_lt_of_lt h.cursor_lt
  have hlength := h.length_add_free
  have hfree : (b.push a).result.free = 0 := if_pos (h.isFull_iff.mpr hfull)
  have hcursor := h.cursor_of_full hfull
  refine ⟨h.cursor_push_lt a, ?_, ?_⟩
  · rw [capacity_push, hfree, List.length_append, List.length_tail, List.length_singleton]
    omega
  · intro i hi
    rw [List.length_append, List.length_tail, List.length_singleton] at hi
    have hslot : (b.push a).result.slot i = b.slot (i + 1) :=
      slot_advanced (capacity_push b a) rfl (by omega)
    rw [element?, hslot]
    show (b.slots.setIfInBounds b.cursor (some a))[b.slot (i + 1)]?.join = _
    rw [hcursor]
    by_cases hlast : i + 1 = b.capacity
    · have hround : b.slot (i + 1) = b.slot 0 := by
        rw [hlast, slot, Nat.add_mod_right]
        rfl
      have hright : xs.tail.length = i := by
        rw [List.length_tail]
        omega
      rw [hround, join_write rfl hpos hpos, if_pos rfl,
        List.getElem?_append_right (Nat.le_of_eq hright), hright, Nat.sub_self]
      rfl
    · have hleft : i < xs.tail.length := by
        rw [List.length_tail]
        omega
      rw [join_write rfl hpos (by omega), if_neg (Nat.succ_ne_zero i).symm,
        List.getElem?_append_left hleft, List.getElem?_tail]
      exact h.element?_eq (i + 1) (by omega)

/-- Where there is room, the oldest element stays where it is. -/
theorem Contains.slot_push (h : b.Contains xs) (hroom : xs.length < b.capacity) (a : α)
    (offset : Nat) : (b.push a).result.slot offset = b.slot offset := by
  have hlength := h.length_add_free
  have hfree : (b.push a).result.free = b.free - 1 := if_neg (h.not_isFull hroom)
  exact slot_advanced (capacity_push b a) rfl (by omega)

/-- Where there is room, the slot behind the newest element is written to. -/
theorem Contains.push_of_room (h : b.Contains xs) (hroom : xs.length < b.capacity) (a : α) :
    (b.push a).result.Contains (xs ++ [a]) := by
  have hlength := h.length_add_free
  have hfree : (b.push a).result.free = b.free - 1 := if_neg (h.not_isFull hroom)
  refine ⟨h.cursor_push_lt a, ?_, ?_⟩
  · rw [capacity_push, hfree, List.length_append, List.length_singleton]
    omega
  · intro i hi
    rw [List.length_append, List.length_singleton] at hi
    rw [element?, h.slot_push hroom]
    show (b.slots.setIfInBounds b.cursor (some a))[b.slot i]?.join = _
    rw [← h.slot_length, join_write rfl hroom (by omega)]
    by_cases hlast : xs.length = i
    · rw [if_pos hlast, List.getElem?_append_right (Nat.le_of_eq hlast), hlast, Nat.sub_self]
      rfl
    · rw [if_neg hlast, List.getElem?_append_left (by omega)]
      exact h.element?_eq i (by omega)

/-- **A new newest element.** -/
theorem Contains.push (h : b.Contains xs) (a : α) :
    (b.push a).result.Contains (BoundedList.push b.capacity xs a) := by
  have hlength := h.length_add_free
  rw [BoundedList.push]
  by_cases hfull : xs.length = b.capacity
  · rw [if_pos hfull]
    exact h.push_of_full hfull a
  · rw [if_neg hfull]
    exact h.push_of_room (by omega) a

theorem capacity_pushAll (b : CircularBuffer α) (as : List α) :
    (b.pushAll as).result.capacity = b.capacity := by
  induction as generalizing b with
  | nil => rfl
  | cons a as ih => exact (ih (b.push a).result).trans (capacity_push b a)

/-- **New newest elements**, one after the other. -/
theorem Contains.pushAll (h : b.Contains xs) (as : List α) :
    (b.pushAll as).result.Contains (BoundedList.pushAll b.capacity xs as) := by
  induction as generalizing b xs with
  | nil => exact h
  | cons a as ih =>
    have hpush := ih (h.push a)
    rw [capacity_push] at hpush
    exact hpush

/-! ### At the oldest side -/

/-- The slots from one offset back to the second, by the last of them. -/
theorem reverse_slots_succ (b : CircularBuffer α) (k : Nat) :
    ((List.range (k + 1)).map fun i => b.slot (i + 1)).reverse =
      b.slot (k + 1) :: ((List.range k).map fun i => b.slot (i + 1)).reverse := by
  rw [List.range_succ, List.map_append, List.reverse_append]
  rfl

/-- The slots from one offset back to the first are those in between, last first. -/
theorem backwards_eq {k limit : Nat} (hk : k < b.capacity) (hlimit : k ≤ limit) :
    backwards b.capacity (b.slot 0) limit (b.slot k) =
      ((List.range k).map fun i => b.slot (i + 1)).reverse := by
  induction k generalizing limit with
  | zero =>
    cases limit with
    | zero => rfl
    | succ limit => exact if_pos rfl
  | succ k ih =>
    cases limit with
    | zero => omega
    | succ limit =>
      have hne : b.slot (k + 1) ≠ b.slot 0 := by
        intro heq
        exact Nat.succ_ne_zero k (slot_injective hk (by omega) heq)
      rw [backwards, if_neg hne, slot_before (Nat.zero_lt_of_lt hk), ih (by omega) (by omega),
        reverse_slots_succ]

/-- The slots that elements move to, newest first. -/
theorem Contains.shifted_eq (h : b.Contains xs) (hroom : xs.length < b.capacity) :
    b.shifted = ((List.range xs.length).map fun i => b.slot (i + 1)).reverse := by
  rw [shifted, ← backwards_eq hroom (Nat.le_of_lt hroom), h.slot_length]

@[simp] theorem size_pull (slots : Array (Option α)) (slot : Nat) :
    (pull slots slot).size = slots.size := by
  rw [pull, Array.size_setIfInBounds, Array.size_setIfInBounds]

/-- One move: an element goes to the next slot and leaves its own empty. -/
theorem pull_slot {slots : Array (Option α)} (hsize : slots.size = b.capacity) {k j : Nat}
    (hk : k + 1 < b.capacity) (hj : j < b.capacity) :
    (pull slots (b.slot (k + 1)))[b.slot j]?.join =
      if k = j then none else if k + 1 = j then slots[b.slot k]?.join
        else slots[b.slot j]?.join := by
  have hwritten : (slots.setIfInBounds (b.slot (k + 1)) slots[b.slot k]?.join).size =
      b.capacity := by
    rw [Array.size_setIfInBounds, hsize]
  rw [pull, hsize, slot_before (Nat.zero_lt_of_lt hk), join_write hwritten (by omega) hj,
    join_write hsize hk hj]

theorem size_foldl_pull (moves : List Nat) (slots : Array (Option α)) :
    (moves.foldl pull slots).size = slots.size := by
  induction moves generalizing slots with
  | nil => rfl
  | cons move moves ih => exact (ih (pull slots move)).trans (size_pull slots move)

/-- **The move as a whole.**  What stood at the first `k` offsets stands one offset further on, and
nothing behind them has moved. -/
theorem foldl_pull {slots : Array (Option α)} (hsize : slots.size = b.capacity) {k j : Nat}
    (hk : k < b.capacity) (hpos : 0 < j) (hj : j < b.capacity) :
    (((List.range k).map fun i => b.slot (i + 1)).reverse.foldl pull slots)[b.slot j]?.join =
      if j ≤ k then slots[b.slot (j - 1)]?.join else slots[b.slot j]?.join := by
  induction k generalizing slots with
  | zero => rw [if_neg (by omega)]; rfl
  | succ k ih =>
    rw [reverse_slots_succ, List.foldl_cons, ih ((size_pull _ _).trans hsize) (by omega),
      pull_slot hsize hk (by omega), pull_slot hsize hk hj]
    by_cases hle : j ≤ k
    · rw [if_pos hle, if_neg (show k ≠ j - 1 by omega), if_neg (show k + 1 ≠ j - 1 by omega),
        if_pos (Nat.le_succ_of_le hle)]
    · by_cases hnext : k + 1 = j
      · rw [if_neg hle, if_neg (show k ≠ j by omega), if_pos hnext,
          if_pos (Nat.le_of_eq hnext.symm), ← hnext]
        rfl
      · rw [if_neg hle, if_neg (show k ≠ j by omega), if_neg hnext,
          if_neg (show ¬ j ≤ k + 1 by omega)]

@[simp] theorem capacity_pushFront (b : CircularBuffer α) (a : α) :
    (b.pushFront a).result.capacity = b.capacity := by
  rw [pushFront]
  split
  · exact Array.size_setIfInBounds
  · show (Array.setIfInBounds _ _ _).size = _
    rw [Array.size_setIfInBounds, size_foldl_pull]
    rfl

/-- In a full buffer the slot of the newest element is written to. -/
theorem Contains.pushFront_of_full (h : b.Contains xs) (hfull : xs.length = b.capacity) (a : α) :
    (b.pushFront a).result.Contains (xs.dropLast ++ [a]) := by
  have hpos := Nat.zero_lt_of_lt h.cursor_lt
  have hlength := h.length_add_free
  have hcapacity := capacity_pushFront b a
  have hresult : (b.pushFront a).result =
      { b with slots := b.slots.setIfInBounds (b.slot (xs.length - 1)) (some a) } := by
    rw [CircularBuffer.pushFront, if_pos (h.isFull_iff.mpr hfull), h.size_eq]
  refine ⟨?_, ?_, ?_⟩
  · rw [hcapacity, hresult]
    exact h.cursor_lt
  · rw [hcapacity, hresult, List.length_append, List.length_dropLast, List.length_singleton]
    show xs.length - 1 + 1 + b.free = _
    omega
  · intro i hi
    rw [List.length_append, List.length_dropLast, List.length_singleton] at hi
    have hslot : (b.pushFront a).result.slot i = b.slot i := by
      rw [slot, hcapacity, hresult]
      rfl
    rw [element?, hslot, hresult]
    show (b.slots.setIfInBounds (b.slot (xs.length - 1)) (some a))[b.slot i]?.join = _
    rw [join_write rfl (by omega) (by omega)]
    by_cases hlast : xs.length - 1 = i
    · have hright : xs.dropLast.length = i := by rw [List.length_dropLast, hlast]
      rw [if_pos hlast, List.getElem?_append_right (Nat.le_of_eq hright), hright, Nat.sub_self]
      rfl
    · have hleft : i < xs.dropLast.length := by
        rw [List.length_dropLast]
        omega
      rw [if_neg hlast, List.getElem?_append_left hleft, List.getElem?_dropLast,
        if_pos (by omega)]
      exact h.element?_eq i (by omega)

theorem pushFront_of_not_isFull (hfull : ¬ b.isFull) (a : α) :
    (b.pushFront a).result =
      { slots := (b.shifted.foldl pull b.slots).setIfInBounds (b.slot 0) (some a)
        cursor := (b.cursor + 1) % b.capacity
        free := b.free - 1 } := by
  rw [pushFront, if_neg hfull]
  rfl

theorem Contains.cursor_pushFront (h : b.Contains xs) (hroom : xs.length < b.capacity) (a : α) :
    (b.pushFront a).result.cursor = (b.cursor + 1) % b.capacity := by
  rw [pushFront_of_not_isFull (h.not_isFull hroom)]

theorem Contains.free_pushFront (h : b.Contains xs) (hroom : xs.length < b.capacity) (a : α) :
    (b.pushFront a).result.free = b.free - 1 := by
  rw [pushFront_of_not_isFull (h.not_isFull hroom)]

/-- Where there is room, the new element takes the slot of the oldest. -/
theorem Contains.slot_pushFront (h : b.Contains xs) (hroom : xs.length < b.capacity) (a : α)
    (offset : Nat) : (b.pushFront a).result.slot offset = b.slot offset := by
  have hlength := h.length_add_free
  have hfree := h.free_pushFront hroom a
  exact slot_advanced (capacity_pushFront b a) (h.cursor_pushFront hroom a) (by omega)

/-- **What stands at the offsets** after an addition at the oldest side: the new element, then the
others one slot further on, then what was there before. -/
theorem Contains.join_pushFront (h : b.Contains xs) (hroom : xs.length < b.capacity) (a : α)
    {k : Nat} (hk : k < b.capacity) : (b.pushFront a).result.slots[b.slot k]?.join =
      if k = 0 then some a else if k ≤ xs.length then b.slots[b.slot (k - 1)]?.join
      else b.slots[b.slot k]?.join := by
  have hmoved : (b.shifted.foldl pull b.slots).size = b.capacity := size_foldl_pull _ _
  rw [pushFront_of_not_isFull (h.not_isFull hroom)]
  show ((b.shifted.foldl pull b.slots).setIfInBounds (b.slot 0) (some a))[b.slot k]?.join = _
  rw [join_write hmoved (Nat.zero_lt_of_lt hk) hk]
  cases k with
  | zero => rfl
  | succ k =>
    rw [if_neg (Nat.succ_ne_zero k).symm, if_neg (Nat.succ_ne_zero k), h.shifted_eq hroom,
      foldl_pull rfl hroom (Nat.succ_pos k) hk]

/-- Where there is room, all elements move on by one slot, and the slot of the oldest is written
to. -/
theorem Contains.pushFront_of_room (h : b.Contains xs) (hroom : xs.length < b.capacity) (a : α) :
    (b.pushFront a).result.Contains (a :: xs) := by
  have hlength := h.length_add_free
  refine ⟨?_, ?_, ?_⟩
  · rw [capacity_pushFront, h.cursor_pushFront hroom]
    exact Nat.mod_lt _ (Nat.zero_lt_of_lt h.cursor_lt)
  · rw [capacity_pushFront, h.free_pushFront hroom, List.length_cons]
    omega
  · intro i hi
    rw [List.length_cons] at hi
    rw [element?, h.slot_pushFront hroom, h.join_pushFront hroom a (by omega)]
    cases i with
    | zero => rfl
    | succ i =>
      rw [if_neg (Nat.succ_ne_zero i), if_pos (by omega)]
      exact h.element?_eq i (by omega)

/-- **A new oldest element**, or a new newest one where there is no room. -/
theorem Contains.pushFront (h : b.Contains xs) (a : α) :
    (b.pushFront a).result.Contains (BoundedList.pushFront b.capacity xs a) := by
  have hlength := h.length_add_free
  rw [BoundedList.pushFront]
  by_cases hfull : xs.length = b.capacity
  · rw [if_pos hfull]
    exact h.pushFront_of_full hfull a
  · rw [if_neg hfull]
    exact h.pushFront_of_room (by omega) a

/-- Where there is no room, the newest element is lost and not the oldest. -/
example : BoundedList.pushFront 3 [1, 2, 3] 4 = [1, 2, 4] := by
  decide

end CircularBuffer

end Containers
