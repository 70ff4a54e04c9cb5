import Mathlib.Data.List.DropRight
import Mathlib.Data.List.Induction
import Containers.Proofs.CircularBuffer.BoundedList

/-!
# What stands in the slots

An addition is seen in the contents of a buffer, but a checkpoint shows every slot, with what the
free ones still hold.  So it matters which slots are written to, and that no other one is.

* `getElem?_pushFront` — the slots after an addition at the oldest side, by their offsets;
* `CircularBuffer.MovesOn` — the same where there is room, slot by slot and step by step;
* **`pushFront_slots`** — an addition at the oldest side of any valid buffer;
* `pushAll_concat` — elements added together are added one after the other, up to the last;
* `CircularBuffer.Extends` — slots, contents and events after elements are added at the newest side;
* **`pushAll_slots`** — these in closed form, however often the elements go around;
* `eq_of_slots` — buffers are the same if their numbers and their slots are;
* **`push_pushFront_comm`** — additions at the two sides, in either order.
-/

namespace Containers.CircularBuffer

variable {α : Type} {b c : CircularBuffer α} {xs : List α}

/-! ### At the oldest side -/

/-- Slots that exist hold the same if the same can be read off them. -/
theorem getElem?_eq_of_join {s t : Array (Option α)} {i j : Nat} (hi : i < s.size)
    (hj : j < t.size) (h : s[i]?.join = t[j]?.join) : s[i]? = t[j]? := by
  rw [Array.getElem?_eq_getElem hi, Array.getElem?_eq_getElem hj] at h ⊢
  exact congrArg some h

/-- The slot at an offset, counted from the slot of the oldest element. -/
theorem slot_eq_add (b : CircularBuffer α) (offset : Nat) :
    ((b.cursor + b.free) % b.capacity + offset) % b.capacity = b.slot offset :=
  Nat.mod_add_mod _ _ _

/-- Every slot is at an offset. -/
theorem exists_offset {slot : Nat} (hslot : slot < b.capacity) :
    ∃ k < b.capacity, b.slot k = slot := by
  have hfirst : (b.cursor + b.free) % b.capacity < b.capacity :=
    Nat.mod_lt _ (Nat.zero_lt_of_lt hslot)
  by_cases hle : (b.cursor + b.free) % b.capacity ≤ slot
  · refine ⟨slot - (b.cursor + b.free) % b.capacity, by omega, ?_⟩
    rw [← slot_eq_add, Nat.add_sub_cancel' hle, Nat.mod_eq_of_lt hslot]
  · refine ⟨slot + b.capacity - (b.cursor + b.free) % b.capacity, by omega, ?_⟩
    rw [← slot_eq_add, Nat.add_sub_cancel' (by omega), Nat.add_mod_right, Nat.mod_eq_of_lt hslot]

/-- **The slots after an addition at the oldest side**: the new element, then the others one slot
further on, then what was there before. -/
theorem Contains.getElem?_pushFront (h : b.Contains xs) (hroom : xs.length < b.capacity) (a : α)
    {k : Nat} (hk : k < b.capacity) : (b.pushFront a).result.slots[b.slot k]? =
      if k = 0 then some (some a) else if k ≤ xs.length then b.slots[b.slot (k - 1)]?
      else b.slots[b.slot k]? := by
  have hread := h.join_pushFront hroom a hk
  have hlt : ∀ offset, b.slot offset < b.slots.size := slot_lt (Nat.zero_lt_of_lt hk)
  have hlt' : b.slot k < (b.pushFront a).result.slots.size := by
    rw [show (b.pushFront a).result.slots.size = b.slots.size from capacity_pushFront b a]
    exact hlt k
  by_cases hzero : k = 0
  · rw [if_pos hzero] at hread ⊢
    exact Option.join_eq_some_iff.mp hread
  · rw [if_neg hzero] at hread ⊢
    by_cases hle : k ≤ xs.length
    · rw [if_pos hle] at hread ⊢
      exact getElem?_eq_of_join hlt' (hlt _) hread
    · rw [if_neg hle] at hread ⊢
      exact getElem?_eq_of_join hlt' (hlt _) hread

/-- What an addition at the oldest side makes of a buffer with a free slot. -/
structure MovesOn (b : CircularBuffer α) (a : α) (c : CircularBuffer α) : Prop where
  /-- One step for each element, and the steps end by themselves. -/
  steps : b.shifted.length = b.size ∧ ∀ limit, b.size ≤ limit →
    backwards b.capacity ((b.cursor + b.free) % b.capacity) limit b.cursor = b.shifted
  added : c.slots[(b.cursor + b.free) % b.capacity]? = some (some a)
  moved : ∀ i < b.size, c.slots[((b.cursor + b.free) % b.capacity + i + 1) % b.capacity]? =
    b.slots[((b.cursor + b.free) % b.capacity + i) % b.capacity]?
  untouched : ∀ slot : Nat,
    (∀ i ≤ b.size, ((b.cursor + b.free) % b.capacity + i) % b.capacity ≠ slot) →
      c.slots[slot]? = b.slots[slot]?
  cursor : c.cursor = (b.cursor + 1) % b.capacity
  free : c.free = b.free - 1
  oldest : c.element? 0 = some a
  /-- What held an element still holds one. -/
  filled : ∀ (slot : Nat) (x : α), b.slots[slot]? = some (some x) →
    ∃ y, c.slots[slot]? = some (some y)

theorem Contains.steps (h : b.Contains xs) (hroom : xs.length < b.capacity) :
    b.shifted.length = b.size ∧ ∀ limit, b.size ≤ limit →
      backwards b.capacity (b.slot 0) limit b.cursor = b.shifted := by
  rw [h.shifted_eq hroom, h.size_eq]
  refine ⟨by rw [List.length_reverse, List.length_map, List.length_range], fun limit hlimit => ?_⟩
  rw [← h.slot_length]
  exact backwards_eq hroom hlimit

/-- **Where there is room, all elements move on by one slot.** -/
theorem Contains.movesOn (h : b.Contains xs) (hroom : xs.length < b.capacity) (a : α) :
    b.MovesOn a (b.pushFront a).result := by
  have hpos := Nat.zero_lt_of_lt hroom
  have hslots := fun k => h.getElem?_pushFront hroom a (k := k)
  have huntouched : ∀ slot, (∀ i ≤ xs.length, b.slot i ≠ slot) →
      (b.pushFront a).result.slots[slot]? = b.slots[slot]? := by
    intro slot hne
    by_cases hlt : slot < b.capacity
    · obtain ⟨k, hk, rfl⟩ := exists_offset hlt
      have hgt : xs.length < k := Nat.lt_of_not_le fun hle => hne k hle rfl
      rw [hslots k hk, if_neg (Nat.ne_zero_of_lt hgt), if_neg (Nat.not_le.mpr hgt)]
    · have hout : (b.pushFront a).result.capacity ≤ slot := by
        rw [capacity_pushFront]
        exact Nat.le_of_not_lt hlt
      rw [Array.getElem?_eq_none hout, Array.getElem?_eq_none (Nat.le_of_not_lt hlt)]
  constructor
  case steps => exact h.steps hroom
  case added => exact hslots 0 hpos
  case moved =>
    intro i hi
    rw [h.size_eq] at hi
    rw [Nat.add_assoc, slot_eq_add, slot_eq_add, hslots (i + 1) (by omega),
      if_neg (Nat.succ_ne_zero i), if_pos (Nat.succ_le_of_lt hi), Nat.add_sub_cancel]
  case untouched =>
    intro slot hne
    simp only [slot_eq_add, h.size_eq] at hne
    exact huntouched slot hne
  case cursor => exact h.cursor_pushFront hroom a
  case free => exact h.free_pushFront hroom a
  case oldest => exact (h.pushFront_of_room hroom a).element?_eq 0 (Nat.zero_lt_succ _)
  case filled =>
    intro slot x hx
    by_cases hlt : ∃ k ≤ xs.length, b.slot k = slot
    · obtain ⟨k, hk, rfl⟩ := hlt
      rw [hslots k (by omega)]
      cases k with
      | zero => exact ⟨a, rfl⟩
      | succ k =>
        -- The element that stood one slot before has moved here.
        have hlt : k < xs.length := hk
        have helement := h.element?_eq k hlt
        rw [List.getElem?_eq_getElem hlt] at helement
        rw [if_neg (Nat.succ_ne_zero k), if_pos hk]
        exact ⟨xs[k], Option.join_eq_some_iff.mp helement⟩
    · refine ⟨x, ?_⟩
      rw [huntouched slot fun k hk heq => hlt ⟨k, hk, heq⟩]
      exact hx

/-- **An addition at the oldest side, slot by slot.**  Where there is a free slot, the elements move
on by one slot each and leave the first to the new one.  In a full buffer nothing moves, and the
slot before the cursor is written to. -/
theorem pushFront_slots (h : b.Valid) (a : α) :
    (0 < b.free → b.MovesOn a (b.pushFront a).result) ∧
    (b.free = 0 → (b.pushFront a).result.cursor = b.cursor ∧ (b.pushFront a).result.free = b.free ∧
      ∀ slot, (b.pushFront a).result.slots[slot]? =
        if slot = (b.cursor + b.capacity - 1) % b.capacity then some (some a)
        else b.slots[slot]?) := by
  have hlength := h.contains.length_add_free
  constructor
  · intro hfree
    exact h.contains.movesOn (by omega) a
  · intro hfree
    have hnewest : b.slot (b.size - 1) = (b.cursor + b.capacity - 1) % b.capacity := by
      have hpos := h.capacity_pos
      rw [slot, size, hfree]
      congr 1
      omega
    have hlt : (b.cursor + b.capacity - 1) % b.capacity < b.slots.size :=
      Nat.mod_lt _ h.capacity_pos
    rw [pushFront, if_pos (show b.isFull = true from decide_eq_true hfree), hnewest]
    refine ⟨rfl, rfl, fun slot => ?_⟩
    rw [Array.getElem?_setIfInBounds]
    by_cases heq : slot = (b.cursor + b.capacity - 1) % b.capacity
    · rw [if_pos heq.symm, if_pos heq, if_pos hlt]
    · rw [if_neg (Ne.symm heq), if_neg heq]

/-- The buffer around the end of four slots with one element given up. -/
theorem pushFront_slots_wrapped : wrapped.Valid ∧ 0 < wrapped.free ∧
    wrapped.MovesOn 7 (wrapped.pushFront 7).result ∧
    (wrapped.pushFront 7).result.slots = #[some 2, some 3, some 7, some 1] ∧
    (wrapped.pushFront 7).result.free = 0 ∧
    ∀ slot, ((wrapped.pushFront 7).result.pushFront 8).result.slots[slot]? =
      if slot = 1 then some (some 8) else (wrapped.pushFront 7).result.slots[slot]? := by
  have hvalid : wrapped.Valid := ⟨by decide, by decide, by decide, by decide⟩
  have hmoves := (pushFront_slots hvalid 7).1 (by decide)
  have hvalid' := (hvalid.contains.pushFront 7).valid
  obtain ⟨-, -, hslots⟩ := (pushFront_slots hvalid' 8).2 hmoves.free
  exact ⟨hvalid, by decide, hmoves, by decide, hmoves.free, hslots⟩

/-! ### At the newest side -/

/-- An element that is added to the last elements of a list leaves the last of all. -/
theorem push_rtake {capacity : Nat} (hpos : 0 < capacity) (xs : List α) (a : α) :
    BoundedList.push capacity (xs.rtake capacity) a = (xs ++ [a]).rtake capacity := by
  have hlength : (xs.rtake capacity).length = xs.length - (xs.length - capacity) :=
    List.length_drop
  rw [BoundedList.push, hlength]
  simp only [List.rtake, List.length_append, List.length_singleton]
  by_cases hfull : capacity ≤ xs.length
  · have hnext : xs.length + 1 - capacity = xs.length - capacity + 1 := by omega
    rw [if_pos (by omega), List.tail_drop, hnext, List.drop_append_of_le_length (by omega)]
  · rw [if_neg (by omega), show xs.length - capacity = 0 by omega,
      show xs.length + 1 - capacity = 0 by omega]
    rfl

/-- **A list that is never longer than its bound** is made of the last elements. -/
theorem pushAll_eq_rtake {capacity : Nat} (hpos : 0 < capacity) (hle : xs.length ≤ capacity)
    (as : List α) : BoundedList.pushAll capacity xs as = (xs ++ as).rtake capacity := by
  induction as using List.reverseRecOn with
  | nil =>
    rw [List.append_nil, List.rtake, Nat.sub_eq_zero_of_le hle]
    rfl
  | append_singleton as a ih =>
    rw [BoundedList.pushAll, List.foldl_append, ← List.append_assoc, ← push_rtake hpos, ← ih]
    rfl

/-- What elements that are added at the newest side make of a buffer. -/
structure Extends (b : CircularBuffer α) (as : List α)
    (t : Traced Event (CircularBuffer α)) : Prop where
  /-- As many of the last elements as there are slots. -/
  contents : t.result.toList =
    (b.toList ++ as).rtake (min b.capacity (b.toList.length + as.length))
  cursor : t.result.cursor = (b.cursor + as.length) % b.capacity
  free : t.result.free = b.free - min b.free as.length
  /-- A slot that elements come by holds the last of them. -/
  written : ∀ j < as.length, ∃ (i : Nat) (hi : i < as.length), i ≡ j [MOD b.capacity] ∧
    (∀ k < as.length, k ≡ j [MOD b.capacity] → k ≤ i) ∧
    t.result.slots[(b.cursor + j) % b.capacity]? = some (some as[i])
  untouched : ∀ slot : Nat, (∀ j < as.length, (b.cursor + j) % b.capacity ≠ slot) →
    t.result.slots[slot]? = b.slots[slot]?
  /-- What finds no room takes the slots that follow the free ones, one after the other. -/
  events : t.events = (List.range (as.length - min b.free as.length)).map fun i =>
    .overwroteOldest ((b.cursor + b.free + i) % b.capacity)

/-- Of the steps that lead to the same slot, there is a last one. -/
theorem exists_last_modEq {capacity m j : Nat} (hpos : 0 < capacity) (hj : j < m) :
    ∃ i < m, i ≡ j [MOD capacity] ∧ m ≤ i + capacity := by
  have hrest : m - 1 - j = capacity * ((m - 1 - j) / capacity) + (m - 1 - j) % capacity :=
    (Nat.div_add_mod _ _).symm
  have hlt := Nat.mod_lt (m - 1 - j) hpos
  refine ⟨j + capacity * ((m - 1 - j) / capacity), by omega, ?_, by omega⟩
  exact Nat.add_mul_mod_self_left _ _ _

theorem le_of_modEq {capacity m i k : Nat} (hlast : m ≤ i + capacity) (hk : k < m)
    (hmod : k ≡ i [MOD capacity]) : k ≤ i := by
  by_contra hgt
  have hdvd := (Nat.modEq_iff_dvd' (by omega)).mp hmod.symm
  have := Nat.le_of_dvd (by omega) hdvd
  omega

theorem events_pushAll_cons (b : CircularBuffer α) (a : α) (as : List α) :
    (b.pushAll (a :: as)).events = (b.push a).events ++ ((b.push a).result.pushAll as).events :=
  rfl

/-- Elements that are added together are added one after the other, up to the last. -/
theorem pushAll_concat (b : CircularBuffer α) (as : List α) (a : α) :
    (b.pushAll (as ++ [a])).result = ((b.pushAll as).result.push a).result := by
  induction as generalizing b with
  | nil => rfl
  | cons a' as ih => exact ih (b.push a').result

theorem events_push_of_not_isFull (hfull : ¬ b.isFull) (a : α) : (b.push a).events = [] :=
  if_neg hfull

theorem free_push (b : CircularBuffer α) (a : α) : (b.push a).result.free = b.free - 1 := by
  show (if b.isFull then 0 else b.free - 1) = b.free - 1
  by_cases hfull : b.isFull
  · rw [if_pos hfull, show b.free = 0 from of_decide_eq_true hfull]
  · rw [if_neg hfull]

theorem cursor_pushAll (hcursor : b.cursor < b.capacity) (as : List α) :
    (b.pushAll as).result.cursor = (b.cursor + as.length) % b.capacity := by
  induction as using List.reverseRecOn with
  | nil => exact (Nat.mod_eq_of_lt hcursor).symm
  | append_singleton as a ih =>
    rw [pushAll_concat, List.length_append, ← Nat.add_assoc, Nat.add_mod, ← ih]
    show (_ + 1) % (b.pushAll as).result.capacity = _
    rw [capacity_pushAll, Nat.add_mod_mod]
    rfl

theorem free_pushAll (b : CircularBuffer α) (as : List α) :
    (b.pushAll as).result.free = b.free - as.length := by
  induction as generalizing b with
  | nil => rfl
  | cons a as ih =>
    show ((b.push a).result.pushAll as).result.free = _
    rw [ih, free_push, List.length_cons]
    omega

/-- Every element that finds no room is reported, with the slot that it takes. -/
theorem events_pushAll (hcursor : b.cursor < b.capacity) (as : List α) :
    (b.pushAll as).events = (List.range (as.length - b.free)).map fun i =>
      .overwroteOldest ((b.cursor + b.free + i) % b.capacity) := by
  induction as generalizing b with
  | nil =>
    rw [List.length_nil, Nat.zero_sub]
    rfl
  | cons a as ih =>
    have hcursor' : (b.push a).result.cursor < (b.push a).result.capacity := by
      rw [capacity_push]
      exact Nat.mod_lt _ (Nat.zero_lt_of_lt hcursor)
    have hrest : ((b.push a).result.pushAll as).events =
        (List.range (as.length - (b.free - 1))).map fun i =>
          .overwroteOldest ((b.cursor + 1 + (b.free - 1) + i) % b.capacity) := by
      rw [ih hcursor', free_push]
      refine List.map_congr_left fun i _ => congrArg Event.overwroteOldest ?_
      rw [capacity_push, Nat.add_assoc]
      show ((b.cursor + 1) % b.capacity + _) % b.capacity = _
      rw [Nat.mod_add_mod, ← Nat.add_assoc]
    rw [events_pushAll_cons, hrest, List.length_cons]
    by_cases hfree : b.free = 0
    · have hevents : (b.push a).events = [.overwroteOldest b.cursor] :=
        if_pos (decide_eq_true hfree)
      rw [hevents, hfree, Nat.zero_sub, Nat.sub_zero, Nat.sub_zero, List.range_succ_eq_map,
        List.map_cons, List.map_map]
      simp only [Nat.add_zero, Nat.mod_eq_of_lt hcursor]
      refine congrArg (_ :: ·) (List.map_congr_left fun i _ => congrArg Event.overwroteOldest ?_)
      rw [Nat.add_right_comm]
      rfl
    · have hevents : (b.push a).events = [] :=
        events_push_of_not_isFull (fun hfull => hfree (of_decide_eq_true hfull)) a
      have hroom : b.cursor + 1 + (b.free - 1) = b.cursor + b.free := by omega
      have hcount : as.length - (b.free - 1) = as.length + 1 - b.free := by omega
      rw [hevents, hroom, hcount, List.nil_append]

/-- The last elements stand in the slots that the cursor came by. -/
theorem getElem?_pushAll_last (hcursor : b.cursor < b.capacity) (as : List α) {i : Nat}
    (hi : i < as.length) (hlast : as.length ≤ i + b.capacity) :
    (b.pushAll as).result.slots[(b.cursor + i) % b.capacity]? = some (some as[i]) := by
  induction as using List.reverseRecOn with
  | nil => exact absurd hi (Nat.not_lt_zero i)
  | append_singleton as a ih =>
    have hpos := Nat.zero_lt_of_lt hcursor
    have hsize : (b.pushAll as).result.slots.size = b.capacity := capacity_pushAll b as
    rw [List.length_append, List.length_singleton] at hi hlast
    rw [pushAll_concat]
    show ((b.pushAll as).result.slots.setIfInBounds (b.pushAll as).result.cursor (some a))[_]? = _
    rw [cursor_pushAll hcursor, Array.getElem?_setIfInBounds, hsize]
    by_cases heq : i = as.length
    · subst heq
      rw [if_pos rfl, if_pos (Nat.mod_lt _ hpos), List.getElem_concat_length rfl]
    · have hne : ¬ (b.cursor + as.length) % b.capacity = (b.cursor + i) % b.capacity := by
        intro hmod
        have hle := le_of_modEq (m := as.length + 1) (by omega) (Nat.lt_succ_self _)
          (Nat.ModEq.add_left_cancel' b.cursor hmod)
        omega
      rw [if_neg hne, ih (by omega) (by omega), List.getElem_append_left]

theorem getElem?_pushAll_untouched (hcursor : b.cursor < b.capacity) (as : List α) {slot : Nat}
    (hne : ∀ j < as.length, (b.cursor + j) % b.capacity ≠ slot) :
    (b.pushAll as).result.slots[slot]? = b.slots[slot]? := by
  induction as using List.reverseRecOn with
  | nil => rfl
  | append_singleton as a ih =>
    rw [List.length_append, List.length_singleton] at hne
    rw [pushAll_concat]
    show ((b.pushAll as).result.slots.setIfInBounds (b.pushAll as).result.cursor (some a))[_]? = _
    rw [cursor_pushAll hcursor, Array.getElem?_setIfInBounds, if_neg (hne _ (Nat.lt_succ_self _)),
      ih fun j hj => hne j (Nat.lt_succ_of_lt hj)]

/-- **Elements that are added at the newest side, in closed form.**  The last of all elements are
left, cursor and free slots depend on the number of the new ones alone, a slot holds the last
element that came by it or what it held before, and what finds no room is reported slot by slot. -/
theorem pushAll_slots (h : b.Valid) (as : List α) : b.Extends as (b.pushAll as) := by
  have hlength := h.contains.length_add_free
  constructor
  case contents =>
    rw [(h.contains.pushAll as).toList_eq, pushAll_eq_rtake h.capacity_pos (by omega),
      List.rtake, List.rtake, List.length_append]
    congr 1
    omega
  case cursor => exact cursor_pushAll h.cursor_lt as
  case free =>
    rw [free_pushAll]
    omega
  case written =>
    intro j hj
    obtain ⟨i, hi, hmod, hlast⟩ := exists_last_modEq h.capacity_pos hj
    refine ⟨i, hi, hmod, fun k hk hmod' => le_of_modEq hlast hk (hmod'.trans hmod.symm), ?_⟩
    have hslot : (b.cursor + j) % b.capacity = (b.cursor + i) % b.capacity :=
      (Nat.ModEq.add_left b.cursor hmod).symm
    rw [hslot]
    exact getElem?_pushAll_last h.cursor_lt as hi hlast
  case untouched =>
    intro slot hne
    exact getElem?_pushAll_untouched h.cursor_lt as hne
  case events =>
    rw [events_pushAll h.cursor_lt]
    congr 2
    omega

/-- Six elements go around four slots, the first of them into the free one. -/
theorem pushAll_slots_wrapped : wrapped.Valid ∧
    wrapped.Extends [4, 5, 6, 7, 8, 9] (wrapped.pushAll [4, 5, 6, 7, 8, 9]) ∧
    (wrapped.pushAll [4, 5, 6, 7, 8, 9]).result.toList = [6, 7, 8, 9] ∧
    (wrapped.pushAll [4, 5, 6, 7, 8, 9]).result.slots[1]? = some (some 8) ∧
    (wrapped.pushAll [4, 5, 6, 7, 8, 9]).events = [.overwroteOldest 2, .overwroteOldest 3,
      .overwroteOldest 0, .overwroteOldest 1, .overwroteOldest 2] := by
  have hvalid : wrapped.Valid := ⟨by decide, by decide, by decide, by decide⟩
  have hextends := pushAll_slots hvalid [4, 5, 6, 7, 8, 9]
  exact ⟨hvalid, hextends, hextends.contents, by decide, hextends.events⟩

/-! ### At both sides -/

/-- **The slots after an addition at the newest side** where there is room, by their offsets. -/
theorem Contains.getElem?_push (h : b.Contains xs) (hroom : xs.length < b.capacity) (a : α)
    {k : Nat} (hk : k < b.capacity) : (b.push a).result.slots[b.slot k]? =
      if k = xs.length then some (some a) else b.slots[b.slot k]? := by
  show (b.slots.setIfInBounds b.cursor (some a))[b.slot k]? = _
  rw [← h.slot_length, Array.getElem?_setIfInBounds]
  by_cases heq : k = xs.length
  · have hlt : b.slot xs.length < b.slots.size := slot_lt (Nat.zero_lt_of_lt hk) _
    rw [if_pos heq, heq, if_pos rfl, if_pos hlt]
  · rw [if_neg heq, if_neg fun hslot => heq (slot_injective hk hroom hslot.symm)]

/-- Buffers with the same numbers are the same if their slots hold the same. -/
theorem eq_of_slots (hcapacity : c.capacity = b.capacity) (hcursor : c.cursor = b.cursor)
    (hfree : c.free = b.free) (hslots : ∀ slot < b.capacity, c.slots[slot]? = b.slots[slot]?) :
    c = b := by
  have hsame : c.slots = b.slots := by
    refine Array.ext_getElem? fun slot => ?_
    by_cases hlt : slot < b.capacity
    · exact hslots slot hlt
    · have hge : b.capacity ≤ slot := Nat.le_of_not_lt hlt
      have hge' : c.capacity ≤ slot := hcapacity ▸ hge
      rw [Array.getElem?_eq_none hge, Array.getElem?_eq_none hge']
  obtain ⟨slots, cursor, free⟩ := c
  obtain ⟨slots', cursor', free'⟩ := b
  obtain rfl : slots = slots' := hsame
  obtain rfl : cursor = cursor' := hcursor
  obtain rfl : free = free' := hfree
  rfl

/-- **The slots after an addition at each side** are the same in either order: the new oldest
element, then the others one slot further on, then the new newest. -/
theorem Contains.getElem?_pushFront_push (h : b.Contains xs) (hroom : xs.length + 1 < b.capacity)
    (x y : α) {k : Nat} (hk : k < b.capacity) :
    ((b.push x).result.pushFront y).result.slots[b.slot k]? =
      ((b.pushFront y).result.push x).result.slots[b.slot k]? := by
  have hlt : xs.length < b.capacity := Nat.lt_of_succ_lt hroom
  have hpush := (h.push_of_room hlt x).getElem?_pushFront (k := k)
    (by rwa [capacity_push, List.length_append]) y (by rwa [capacity_push])
  have hfront := (h.pushFront_of_room hlt y).getElem?_push (k := k)
    (by rwa [capacity_pushFront]) x (by rwa [capacity_pushFront])
  simp only [h.slot_push hlt, List.length_append, List.length_singleton] at hpush
  simp only [h.slot_pushFront hlt, List.length_cons] at hfront
  rw [hpush, hfront, h.getElem?_pushFront hlt y hk, h.getElem?_push hlt x hk,
    h.getElem?_push hlt x (by omega)]
  by_cases hzero : k = 0
  · rw [if_pos hzero, if_neg (by omega), if_pos hzero]
  · rw [if_neg hzero, if_neg hzero]
    by_cases hlast : k = xs.length + 1
    · rw [if_pos (Nat.le_of_eq hlast), if_pos (by omega), if_pos hlast]
    · rw [if_neg hlast]
      by_cases hle : k ≤ xs.length
      · rw [if_pos (Nat.le_succ_of_le hle), if_neg (by omega), if_pos hle]
      · rw [if_neg (by omega), if_neg (by omega), if_neg hle]

theorem Contains.pushFront_push (h : b.Contains xs) (hroom : xs.length + 1 < b.capacity) (x y : α) :
    ((b.push x).result.pushFront y).result = ((b.pushFront y).result.push x).result := by
  have hlt : xs.length < b.capacity := Nat.lt_of_succ_lt hroom
  have hlt' : (xs ++ [x]).length < (b.push x).result.capacity := by
    rwa [capacity_push, List.length_append]
  have hpush := h.push_of_room hlt x
  refine eq_of_slots ?_ ?_ ?_ fun slot hslot => ?_
  · rw [capacity_pushFront, capacity_push, capacity_push, capacity_pushFront]
  · rw [hpush.cursor_pushFront hlt', capacity_push]
    show _ = ((b.pushFront y).result.cursor + 1) % (b.pushFront y).result.capacity
    rw [h.cursor_pushFront hlt, capacity_pushFront]
    rfl
  · rw [hpush.free_pushFront hlt', free_push, free_push, h.free_pushFront hlt]
  · rw [capacity_push, capacity_pushFront] at hslot
    obtain ⟨k, hk, rfl⟩ := exists_offset hslot
    exact h.getElem?_pushFront_push hroom x y hk

theorem events_pushFront_of_not_isFull (hfull : ¬ b.isFull) (a : α) :
    (b.pushFront a).events = [] := by
  rw [pushFront, if_neg hfull]
  rfl

/-- **Additions at the two sides commute** where there is room for both.  In either order nothing is
overwritten, and the buffers are the same in every slot, a free one included. -/
theorem push_pushFront_comm (h : b.Valid) (hroom : 2 ≤ b.free) (x y : α) :
    ∃ c, (b.push x >>= fun d => d.pushFront y) = ⟨c, []⟩ ∧
      (b.pushFront y >>= fun d => d.push x) = ⟨c, []⟩ ∧ c.toList = y :: (b.toList ++ [x]) := by
  have hlength := h.contains.length_add_free
  have hlt : b.toList.length < b.capacity := by omega
  have hpush := h.contains.push_of_room hlt x
  have hfront := h.contains.pushFront_of_room hlt y
  have hpushLt : (b.toList ++ [x]).length < (b.push x).result.capacity := by
    rw [capacity_push, List.length_append, List.length_singleton]
    omega
  have hfrontLt : (y :: b.toList).length < (b.pushFront y).result.capacity := by
    rw [capacity_pushFront, List.length_cons]
    omega
  have hnot := h.contains.not_isFull hlt
  have hevents : (b.push x >>= fun d => d.pushFront y).events = [] := by
    rw [Traced.events_bind, events_push_of_not_isFull hnot,
      events_pushFront_of_not_isFull (hpush.not_isFull hpushLt)]
    rfl
  have hevents' : (b.pushFront y >>= fun d => d.push x).events = [] := by
    rw [Traced.events_bind, events_pushFront_of_not_isFull hnot,
      events_push_of_not_isFull (hfront.not_isFull hfrontLt)]
    rfl
  refine ⟨((b.push x).result.pushFront y).result, ?_, ?_, ?_⟩
  · exact congrArg (Traced.mk _) hevents
  · rw [h.contains.pushFront_push (by omega)]
    exact congrArg (Traced.mk _) hevents'
  · exact (hpush.pushFront_of_room hpushLt y).toList_eq

/-- The buffer around the end of four slots with two elements left. -/
def wrappedPair : CircularBuffer Int64 :=
  { wrapped with free := 2 }

theorem push_pushFront_comm_wrapped : wrappedPair.Valid ∧ 2 ≤ wrappedPair.free ∧
    ∃ c, (wrappedPair.push 7 >>= fun d => d.pushFront 8) = ⟨c, []⟩ ∧
      (wrappedPair.pushFront 8 >>= fun d => d.push 7) = ⟨c, []⟩ ∧
      c.slots = #[some 2, some 3, some 7, some 8] ∧ c.cursor = 3 ∧ c.free = 0 ∧
      c.toList = [8, 2, 3, 7] := by
  have hvalid : wrappedPair.Valid := ⟨by decide, by decide, by decide, by decide⟩
  obtain ⟨c, hfirst, hsecond, hlist⟩ := push_pushFront_comm hvalid (by decide) 7 8
  obtain rfl : _ = c := congrArg Traced.result hfirst
  exact ⟨hvalid, by decide, _, hfirst, hsecond, by decide, by decide, by decide, hlist⟩

end Containers.CircularBuffer
