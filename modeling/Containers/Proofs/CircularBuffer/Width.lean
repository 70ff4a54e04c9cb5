import Containers.Proofs.CircularBuffer.Eviction
import Containers.Proofs.CircularBuffer.Narrow
import Containers.Proofs.CircularBuffer.Reachable
import Containers.Proofs.CircularBuffer.Reports

/-!
# Words are wide enough

The cursor, the number of free slots and an offset add up to less than twice the capacity, and
nothing else that is counted grows beyond that.  So words are enough for a buffer with up to half as
many slots as there are words.

* `CircularBuffer.InRange` — the cursor and the number of free slots are within the slots, whatever
  these hold;
* `CircularBuffer.Fits` — a buffer that contains a list has no more slots than that;
* **`InRange.slot_narrow`** and **`InRange.shift_narrow`** — the slot at an offset, and the elements
  that move on by one slot;
* `Fits.push_narrow`, `Fits.pushFront_narrow`, `Fits.evict_narrow` and the like — an operation in
  words is the operation;
* **`restore_narrow`** — a checkpoint is looked at in words, whatever words its numbers are.
-/

namespace Containers.CircularBuffer

open Word

variable {α σ : Type} {b : CircularBuffer α} {xs : List α}

/-! ### Ranges -/

/-- The cursor and the number of free slots are within the slots, of which there are fewer than half
as many as there are words.  What the slots hold is left open. -/
structure InRange (b : CircularBuffer α) : Prop where
  cursor_lt : b.cursor < b.capacity
  free_le : b.free ≤ b.capacity
  capacity_lt : b.capacity < 2 ^ 63

namespace InRange

theorem widen_narrow (h : b.InRange) : b.narrow.widen = b := by
  obtain ⟨hcursor, hfree, hcapacity⟩ := h
  show (⟨b.slots, (UInt64.ofNat b.cursor).toNat, (UInt64.ofNat b.free).toNat⟩ :
    CircularBuffer α) = b
  rw [toNat_ofNat (by omega), toNat_ofNat (by omega)]

theorem size_narrow (h : b.InRange) : b.narrow.size = some (.ofNat b.size) :=
  sub?_ofNat h.free_le (Nat.lt_trans h.capacity_lt (by decide))

theorem size_lt_word (h : b.InRange) : b.size < 2 ^ 64 := by
  have hcapacity := h.capacity_lt
  rw [size]
  omega

theorem isEmpty_narrow (h : b.InRange) : b.narrow.isEmpty = b.isEmpty := by
  obtain ⟨-, hfree, hcapacity⟩ := h
  exact decide_eq_decide.mpr
    (ofNat_eq_iff (show b.free < 2 ^ 64 by omega) (show b.capacity < 2 ^ 64 by omega))

theorem isFull_narrow (h : b.InRange) : b.narrow.isFull = b.isFull := by
  obtain ⟨-, hfree, hcapacity⟩ := h
  exact decide_eq_decide.mpr
    (ofNat_eq_iff (show b.free < 2 ^ 64 by omega) (show 0 < 2 ^ 64 by decide))

theorem round_narrow (h : b.InRange) {n : Nat} (hn : n < 2 ^ 64) :
    mod? (.ofNat n) b.narrow.capacity = some (.ofNat (n % b.capacity)) :=
  mod?_ofNat (Nat.zero_lt_of_lt h.cursor_lt) hn (Nat.lt_trans h.capacity_lt (by decide))

/-- **The slot at an offset**, the one behind the newest element included: the sum before the
remainder is below twice the capacity. -/
theorem slot_narrow (h : b.InRange) {offset : Nat} (hoffset : offset ≤ b.size) :
    b.narrow.slot (.ofNat offset) = some (.ofNat (b.slot offset)) := by
  have hcursor := h.cursor_lt
  have hfree := h.free_le
  have hcapacity := h.capacity_lt
  rw [size] at hoffset
  have hstart : add? b.narrow.cursor b.narrow.free = some (.ofNat (b.cursor + b.free)) :=
    add?_ofNat (by omega)
  have hsum : add? (.ofNat (b.cursor + b.free)) (.ofNat offset) =
      some (.ofNat (b.cursor + b.free + offset)) :=
    add?_ofNat (by omega)
  have hround : mod? (.ofNat (b.cursor + b.free + offset)) b.narrow.capacity =
      some (.ofNat (b.slot offset)) :=
    h.round_narrow (by omega)
  simp only [NarrowBuffer.slot, hstart, hsum, hround, Option.bind_eq_bind, Option.bind_some]

theorem slot_lt_capacity (h : b.InRange) (offset : Nat) : b.slot offset < b.capacity :=
  slot_lt (Nat.zero_lt_of_lt h.cursor_lt) offset

theorem slot_lt_word (h : b.InRange) (offset : Nat) : b.slot offset < 2 ^ 64 := by
  have hcapacity := h.capacity_lt
  have hslot := h.slot_lt_capacity offset
  omega

/-- What is read at an offset, vacant or not. -/
theorem read_narrow (h : b.InRange) (offset : Nat) :
    read? b.narrow.slots (.ofNat (b.slot offset)) = b.slots[b.slot offset]? :=
  read?_ofNat b.slots (h.slot_lt_word offset)

/-- The cursor moves on. -/
theorem advanced_narrow (h : b.InRange) :
    b.narrow.advanced = some (.ofNat ((b.cursor + 1) % b.capacity)) := by
  have hcursor := h.cursor_lt
  have hcapacity := h.capacity_lt
  have hword : b.cursor + 1 < 2 ^ 64 := by omega
  have hnext : add? b.narrow.cursor 1 = some (.ofNat (b.cursor + 1)) := add?_one hword
  simp only [NarrowBuffer.advanced, hnext, h.round_narrow hword, Option.bind_eq_bind,
    Option.bind_some]

/-- The slot before that of an offset. -/
theorem before_narrow (h : b.InRange) (offset : Nat) :
    NarrowBuffer.before b.narrow.capacity (.ofNat (b.slot (offset + 1))) =
      some (.ofNat (b.slot offset)) := by
  have hcapacity := h.capacity_lt
  have hslot := h.slot_lt_capacity (offset + 1)
  have hsum : add? (.ofNat (b.slot (offset + 1))) b.narrow.capacity =
      some (.ofNat (b.slot (offset + 1) + b.capacity)) :=
    add?_ofNat (show b.slot (offset + 1) + b.capacity < 2 ^ 64 by omega)
  have hless : sub? (.ofNat (b.slot (offset + 1) + b.capacity)) 1 =
      some (.ofNat (b.slot (offset + 1) + b.capacity - 1)) :=
    sub?_one (by omega) (by omega)
  have hround : mod? (.ofNat (b.slot (offset + 1) + b.capacity - 1)) b.narrow.capacity =
      some (.ofNat (b.slot offset)) := by
    rw [← slot_before (Nat.zero_lt_of_lt h.cursor_lt) offset]
    exact h.round_narrow (show b.slot (offset + 1) + b.capacity - 1 < 2 ^ 64 by omega)
  simp only [NarrowBuffer.before, hsum, hless, hround, Option.bind_eq_bind, Option.bind_some]

/-- **One move.**  The slot is emptied before the next is written to, which makes no difference. -/
theorem pull_narrow (h : b.InRange) {slots : Array (Option α)} (hsize : slots.size = b.capacity)
    {k : Nat} (hk : k + 1 < b.capacity) :
    NarrowBuffer.pull b.narrow.capacity (.ofNat (b.slot (k + 1))) slots =
      some (.ofNat (b.slot k), pull slots (b.slot (k + 1))) := by
  have hsource : b.slot k < slots.size := hsize ▸ h.slot_lt_capacity k
  have htarget : b.slot (k + 1) < slots.size := hsize ▸ h.slot_lt_capacity (k + 1)
  have hne : b.slot k ≠ b.slot (k + 1) := fun heq =>
    Nat.succ_ne_self k (slot_injective (by omega) hk heq).symm
  have hheld : read? slots (.ofNat (b.slot k)) = some slots[b.slot k] := by
    rw [read?_ofNat _ (h.slot_lt_word k), Array.getElem?_eq_getElem hsource]
  have htaken : write? slots (.ofNat (b.slot k)) none =
      some (slots.setIfInBounds (b.slot k) none) :=
    write?_ofNat hsource (h.slot_lt_word k) none
  have hmoved : write? (slots.setIfInBounds (b.slot k) none) (.ofNat (b.slot (k + 1)))
      slots[b.slot k] = some (pull slots (b.slot (k + 1))) := by
    rw [write?_ofNat (by rwa [Array.size_setIfInBounds]) (h.slot_lt_word _),
      Array.setIfInBounds_comm _ _ hne, pull, hsize, slot_before (Nat.zero_lt_of_lt hk),
      Array.getElem?_eq_getElem hsource]
    rfl
  simp only [NarrowBuffer.pull, h.before_narrow, hheld, htaken, hmoved, Option.bind_eq_bind,
    Option.bind_some]
  rfl

/-- **The move as a whole**, one slot after the other: the same slots as in one go. -/
theorem shift_narrow (h : b.InRange) {slots : Array (Option α)} (hsize : slots.size = b.capacity)
    {k limit : Nat} (hk : k < b.capacity) (hlimit : k ≤ limit) :
    NarrowBuffer.shift b.narrow.capacity (.ofNat (b.slot 0)) limit (.ofNat (b.slot k)) slots =
      some (((List.range k).map fun i => b.slot (i + 1)).reverse.foldl pull slots) := by
  induction k generalizing limit slots with
  | zero => cases limit <;> exact if_pos rfl
  | succ k ih =>
    obtain ⟨limit, rfl⟩ := Nat.exists_eq_add_of_le' (Nat.le_of_add_left_le hlimit)
    have hslot : b.slot (k + 1) ≠ b.slot 0 := fun heq =>
      Nat.succ_ne_zero k (slot_injective hk (by omega) heq)
    have hne : UInt64.ofNat (b.slot (k + 1)) ≠ .ofNat (b.slot 0) :=
      mt (ofNat_eq_iff (h.slot_lt_word _) (h.slot_lt_word _)).mp hslot
    have hrest := ih ((size_pull slots (b.slot (k + 1))).trans hsize) (Nat.lt_of_succ_lt hk)
      (Nat.le_of_succ_le_succ hlimit)
    simp only [NarrowBuffer.shift, if_neg hne, h.pull_narrow hsize hk, hrest, Option.bind_eq_bind,
      Option.bind_some, reverse_slots_succ, List.foldl_cons]

end InRange

/-- A buffer that contains a list has fewer than half as many slots as there are words. -/
structure Fits (b : CircularBuffer α) (xs : List α) : Prop extends Contains b xs where
  capacity_lt : b.capacity < 2 ^ 63

namespace Fits

theorem inRange (h : b.Fits xs) : b.InRange := by
  have hlength := h.length_add_free
  exact ⟨h.cursor_lt, by omega, h.capacity_lt⟩

/-! ### Reading -/

theorem element_narrow (h : b.Fits xs) {offset : Nat} (hlt : offset < xs.length) :
    b.narrow.element (.ofNat offset) = some xs[offset] := by
  have hslot : b.narrow.slot (.ofNat offset) = some (.ofNat (b.slot offset)) := by
    refine h.inRange.slot_narrow ?_
    rw [h.size_eq]
    exact Nat.le_of_lt hlt
  have hheld := h.element?_eq offset hlt
  rw [element?, List.getElem?_eq_getElem hlt] at hheld
  simp only [NarrowBuffer.element, hslot, h.inRange.read_narrow, Option.join_eq_some_iff.mp hheld,
    Option.bind_eq_bind, Option.bind_some]

theorem oldest_narrow (h : b.Fits xs) : b.narrow.oldest = some b.oldest := by
  rw [NarrowBuffer.oldest, h.inRange.isEmpty_narrow, h.oldest_eq]
  cases xs with
  | nil =>
    rw [if_pos (h.isEmpty_iff.mpr rfl)]
    rfl
  | cons x xs =>
    rw [if_neg fun hempty => List.cons_ne_nil x xs (h.isEmpty_iff.mp hempty)]
    have hfirst : b.narrow.element 0 = some x := h.element_narrow (Nat.zero_lt_succ xs.length)
    rw [hfirst]
    rfl

theorem newest_narrow (h : b.Fits xs) : b.narrow.newest = some b.newest := by
  have hsize := h.inRange.size_lt_word
  rw [NarrowBuffer.newest, h.inRange.size_narrow, newest]
  rw [h.size_eq] at hsize ⊢
  cases hlength : xs.length with
  | zero => rfl
  | succ last =>
    have hlast : sub? (.ofNat (last + 1)) 1 = some (.ofNat last) :=
      sub?_one (Nat.succ_pos last) (by omega)
    have helement : b.narrow.element (.ofNat last) = some xs[last] := h.element_narrow (by omega)
    simp only [hlast, helement, h.element_eq (show last < xs.length by omega),
      Option.bind_eq_bind, Option.bind_some]
    rfl

theorem get_narrow (h : b.Fits xs) (index : UInt64) :
    b.narrow.get index = some (b.get index.toNat) := by
  have hsize := toNat_ofNat h.inRange.size_lt_word
  have hpast : UInt64.ofNat b.size ≤ index ↔ b.size ≤ index.toNat := by
    rw [UInt64.le_iff_toNat_le, hsize]
  simp only [NarrowBuffer.get, h.inRange.size_narrow, Option.bind_eq_bind, Option.bind_some, hpast,
    hsize, get]
  by_cases hle : b.size ≤ index.toNat
  · rw [if_pos hle, if_pos hle]
  · have hlt : index.toNat < xs.length := by
      rw [← h.size_eq]
      exact Nat.not_le.mp hle
    have helement := h.element_narrow hlt
    rw [UInt64.ofNat_toNat] at helement
    rw [if_neg hle, if_neg hle, helement, h.element_eq hlt]
    rfl

/-! ### Adding -/

theorem push (h : b.Fits xs) (a : α) :
    (b.push a).result.Fits (BoundedList.push b.capacity xs a) :=
  ⟨h.toContains.push a, (capacity_push b a).symm ▸ h.capacity_lt⟩

theorem pushFront (h : b.Fits xs) (a : α) :
    (b.pushFront a).result.Fits (BoundedList.pushFront b.capacity xs a) :=
  ⟨h.toContains.pushFront a, (capacity_pushFront b a).symm ▸ h.capacity_lt⟩

theorem pushAll (h : b.Fits xs) (as : List α) :
    (b.pushAll as).result.Fits (BoundedList.pushAll b.capacity xs as) :=
  ⟨h.toContains.pushAll as, (capacity_pushAll b as).symm ▸ h.capacity_lt⟩

theorem push_narrow (h : b.Fits xs) (a : α) : b.narrow.push a = some (narrow <$> b.push a) := by
  have hcursor := h.cursor_lt
  have hcapacity := h.capacity_lt
  have hlength := h.length_add_free
  have hslots : write? b.narrow.slots b.narrow.cursor (some a) =
      some (b.slots.setIfInBounds b.cursor (some a)) :=
    write?_ofNat hcursor (by omega) (some a)
  have htold : b.narrow.cursor.toNat = b.cursor := toNat_ofNat (by omega)
  simp only [NarrowBuffer.push, h.inRange.isFull_narrow, hslots, h.inRange.advanced_narrow, htold,
    Option.bind_eq_bind, Option.bind_some, CircularBuffer.push]
  by_cases hfull : b.isFull
  · have hfree : b.narrow.free = .ofNat 0 := congrArg UInt64.ofNat (of_decide_eq_true hfull)
    rw [if_pos hfull, if_pos hfull, if_pos hfull, hfree]
    rfl
  · have hsome : b.free ≠ 0 := fun hnone => hfull (decide_eq_true hnone)
    have hfree : sub? b.narrow.free 1 = some (.ofNat (b.free - 1)) :=
      sub?_one (by omega) (by omega)
    rw [if_neg hfull, if_neg hfull, if_neg hfull, hfree]
    rfl

theorem pushAll_narrow (h : b.Fits xs) (as : List α) :
    b.narrow.pushAll as = some (narrow <$> b.pushAll as) := by
  induction as generalizing b xs with
  | nil => rfl
  | cons a as ih =>
    rw [NarrowBuffer.pushAll, h.push_narrow]
    show (do
      let rest ← (b.push a).result.narrow.pushAll as
      return _) = _
    rw [ih (h.push a)]
    rfl

theorem pushFront_narrow_of_full (h : b.Fits xs) (hfull : b.isFull) (a : α) :
    b.narrow.pushFront a = some (narrow <$> b.pushFront a) := by
  have hpos : 0 < b.size := by
    rw [h.size_eq, h.isFull_iff.mp hfull]
    exact Nat.zero_lt_of_lt h.cursor_lt
  have hlast : sub? (.ofNat b.size) 1 = some (.ofNat (b.size - 1)) :=
    sub?_one hpos h.inRange.size_lt_word
  have hslots : write? b.narrow.slots (.ofNat (b.slot (b.size - 1))) (some a) =
      some (b.slots.setIfInBounds (b.slot (b.size - 1)) (some a)) :=
    write?_ofNat (h.inRange.slot_lt_capacity _) (h.inRange.slot_lt_word _) (some a)
  rw [NarrowBuffer.pushFront, h.inRange.isFull_narrow, CircularBuffer.pushFront, if_pos hfull,
    if_pos hfull]
  simp only [h.inRange.size_narrow, hlast, h.inRange.slot_narrow (Nat.sub_le b.size 1), hslots,
    toNat_ofNat (h.inRange.slot_lt_word _), Option.bind_eq_bind, Option.bind_some]
  rfl

theorem pushFront_narrow_of_room (h : b.Fits xs) (hroom : xs.length < b.capacity) (a : α) :
    b.narrow.pushFront a = some (narrow <$> b.pushFront a) := by
  have hlength := h.length_add_free
  have hcapacity := h.capacity_lt
  have hfull := h.not_isFull hroom
  have holdest : b.narrow.slot 0 = some (.ofNat (b.slot 0)) :=
    h.inRange.slot_narrow (Nat.zero_le b.size)
  have hmoved : NarrowBuffer.shift b.narrow.capacity (.ofNat (b.slot 0)) b.narrow.slots.size
      b.narrow.cursor b.narrow.slots = some (b.shifted.foldl pull b.slots) := by
    rw [h.shifted_eq hroom, ← h.inRange.shift_narrow rfl hroom (Nat.le_of_lt hroom), h.slot_length]
    rfl
  have hslots : write? (b.shifted.foldl pull b.slots) (.ofNat (b.slot 0)) (some a) =
      some ((b.shifted.foldl pull b.slots).setIfInBounds (b.slot 0) (some a)) := by
    refine write?_ofNat ?_ (h.inRange.slot_lt_word 0) (some a)
    rw [size_foldl_pull]
    exact h.inRange.slot_lt_capacity 0
  have hfree : sub? b.narrow.free 1 = some (.ofNat (b.free - 1)) := sub?_one (by omega) (by omega)
  rw [NarrowBuffer.pushFront, h.inRange.isFull_narrow, CircularBuffer.pushFront, if_neg hfull,
    if_neg hfull]
  simp only [holdest, hmoved, hslots, h.inRange.advanced_narrow, hfree, Option.bind_eq_bind,
    Option.bind_some]
  rfl

theorem pushFront_narrow (h : b.Fits xs) (a : α) :
    b.narrow.pushFront a = some (narrow <$> b.pushFront a) := by
  by_cases hfull : b.isFull
  · exact h.pushFront_narrow_of_full hfull a
  · have hlength := h.length_add_free
    have hne : xs.length ≠ b.capacity := fun heq => hfull (h.isFull_iff.mpr heq)
    exact h.pushFront_narrow_of_room (by omega) a

/-! ### Giving slots free -/

theorem drop (h : b.Fits xs) {n : Nat} (hle : n ≤ xs.length) :
    ({ b with free := b.free + n } : CircularBuffer α).Fits (xs.drop n) :=
  ⟨h.toContains.drop hle, h.capacity_lt⟩

/-- What a round that finds an element asks about. -/
theorem element_zero_narrow (h : b.Fits xs) (hnot : ¬ b.isEmpty) {a : α}
    (holdest : b.element 0 = .ok a) : 0 < xs.length ∧ b.narrow.element 0 = some a := by
  have hpos : 0 < xs.length := List.length_pos_iff.mpr fun hnil => hnot (h.isEmpty_iff.mpr hnil)
  rw [h.element_eq hpos] at holdest
  obtain rfl := Except.ok.inj holdest
  exact ⟨hpos, h.element_narrow hpos⟩

/-- **The rounds of an eviction.**  An element that is given up is counted and its slot is free, so
from round to round the count and the elements left add up to the same, as do these and the free
slots. -/
theorem evict_narrow {accepts : α → StateM σ Bool} {s : σ} {e : Eviction α σ}
    (hevicts : Evicts accepts b s e) (h : b.Fits xs) {limit count : Nat}
    (hlimit : xs.length ≤ limit) (hcount : count + xs.length < 2 ^ 64) :
    NarrowBuffer.evict accepts limit ⟨b.narrow, .ofNat count, s⟩ =
      some ⟨e.buffer.narrow, .ofNat (count + e.count), e.state⟩ := by
  induction hevicts generalizing xs limit count with
  | empty hempty =>
    have hyes := h.inRange.isEmpty_narrow.trans hempty
    cases limit <;> exact if_pos hyes
  | @refused b s s' a hnot holdest hanswer =>
    obtain ⟨hpos, helement⟩ := h.element_zero_narrow hnot holdest
    obtain ⟨limit, rfl⟩ := Nat.exists_eq_add_of_le' (Nat.le_trans hpos hlimit)
    have hno : ¬ b.narrow.isEmpty := h.inRange.isEmpty_narrow ▸ hnot
    simp only [NarrowBuffer.evict, if_neg hno, helement, hanswer, Option.bind_eq_bind,
      Option.bind_some, Bool.false_eq_true, ↓reduceIte]
    rfl
  | @accepted b s s' a e hnot holdest hanswer hrest ih =>
    obtain ⟨hpos, helement⟩ := h.element_zero_narrow hnot holdest
    obtain ⟨limit, rfl⟩ := Nat.exists_eq_add_of_le' (Nat.le_trans hpos hlimit)
    have hlength := h.length_add_free
    have hcapacity := h.capacity_lt
    have hno : ¬ b.narrow.isEmpty := h.inRange.isEmpty_narrow ▸ hnot
    have hfree : add? b.narrow.free 1 = some (.ofNat (b.free + 1)) := add?_one (by omega)
    have hmore : add? (.ofNat count) 1 = some (.ofNat (count + 1)) := add?_one (by omega)
    have hdrop : (xs.drop 1).length + 1 = xs.length := by
      rw [List.length_drop]
      omega
    have hlast := ih (h.drop hpos) (show (xs.drop 1).length ≤ limit by omega)
      (show count + 1 + (xs.drop 1).length < 2 ^ 64 by omega)
    simp only [NarrowBuffer.evict, if_neg hno, helement, hanswer, hfree, hmore,
      Option.bind_eq_bind, Option.bind_some, ↓reduceIte]
    refine hlast.trans ?_
    rw [Nat.add_assoc, Nat.add_comm 1]

/-- The rounds start with a count of none. -/
theorem evicted_narrow (h : b.Fits xs) (accepts : α → StateM σ Bool) (s : σ) :
    NarrowBuffer.evict accepts b.narrow.slots.size ⟨b.narrow, 0, s⟩ =
      some (b.evicted accepts xs s).narrow := by
  have hlength := h.length_add_free
  have hcapacity := h.capacity_lt
  have hrounds := evict_narrow (h.evicts accepts s) h (show xs.length ≤ b.narrow.slots.size from
    show xs.length ≤ b.capacity by omega) (show 0 + xs.length < 2 ^ 64 by omega)
  rwa [Nat.zero_add] at hrounds

theorem evictWhile_narrow (h : b.Fits xs) (accepts : α → StateM σ Bool) (s : σ) : ∃ e,
    (b.evictWhile accepts s).result = .ok e ∧
      b.narrow.evictWhile accepts s = some ⟨e.narrow, (b.evictWhile accepts s).events⟩ ∧
      e.count < 2 ^ 64 ∧ ∃ ys, e.buffer.Fits ys := by
  obtain ⟨e, hresult, -, -, hevents⟩ := h.toContains.evictWhile_reports accepts s
  have hevicted : b.evicted accepts xs s = e :=
    Except.ok.inj ((h.evictWhile_eq accepts s).symm.trans hresult)
  have hrounds := h.evicted_narrow accepts s
  have hle := BoundedList.accepted_le accepts xs s
  have hlength := h.length_add_free
  have hcapacity := h.capacity_lt
  have hcount : (b.evicted accepts xs s).count < 2 ^ 64 :=
    show BoundedList.accepted accepts xs s < 2 ^ 64 by omega
  have hfits : (b.evicted accepts xs s).buffer.Fits _ := h.drop hle
  rw [hevicted] at hrounds hcount hfits
  have hsize : e.narrow.buffer.size = some (.ofNat e.buffer.size) := hfits.inRange.size_narrow
  have htold : e.narrow.count.toNat = e.count := toNat_ofNat hcount
  have hsome : 0 < e.narrow.count ↔ e.count ≠ 0 := by
    rw [UInt64.lt_iff_toNat_lt, htold]
    exact Nat.pos_iff_ne_zero
  refine ⟨e, hresult, ?_, hcount, _, hfits⟩
  rw [hevents]
  simp only [NarrowBuffer.evictWhile, hrounds, hsize, hsome, htold,
    toNat_ofNat hfits.inRange.size_lt_word, Option.bind_eq_bind, Option.bind_some, ite_not]
  split <;> rfl

theorem clear (h : b.Fits xs) : b.clear.Fits [] :=
  ⟨h.toContains.clear, h.capacity_lt⟩

end Fits

/-! ### Restoring -/

/-- What stands at an offset, as it is read off the slots. -/
theorem InRange.getElem?_slot (h : b.InRange) (offset : Nat) :
    b.slots[b.slot offset]? = some (b.element? offset) := by
  have hlt : b.slot offset < b.slots.size := h.slot_lt_capacity offset
  rw [element?, Array.getElem?_eq_getElem hlt]
  rfl

/-- **The search for a vacant slot** looks at the slots of the offsets one after the other. -/
theorem InRange.anyVacant_narrow (h : b.InRange) {offset limit : Nat} (hle : offset ≤ b.size)
    (hlimit : b.size ≤ offset + limit) :
    b.narrow.anyVacant (.ofNat b.size) limit (.ofNat offset) =
      some ((List.range' offset (b.size - offset)).any fun i => (b.element? i).isNone) := by
  have hword := h.size_lt_word
  induction limit generalizing offset with
  | zero =>
    obtain rfl : offset = b.size := by omega
    rw [NarrowBuffer.anyVacant, if_neg (UInt64.lt_irrefl _), Nat.sub_self]
    rfl
  | succ limit ih =>
    by_cases hend : offset = b.size
    · rw [hend, NarrowBuffer.anyVacant, if_neg (UInt64.lt_irrefl _), Nat.sub_self]
      rfl
    · have hlt : UInt64.ofNat offset < .ofNat b.size :=
        (ofNat_lt_iff (by omega) hword).mpr (by omega)
      have hnext : add? (.ofNat offset) 1 = some (.ofNat (offset + 1)) := add?_one (by omega)
      have hrest := ih (show offset + 1 ≤ b.size by omega) (by omega)
      have hcount : b.size - offset = b.size - (offset + 1) + 1 := by omega
      rw [hcount, List.range'_succ, List.any_cons, NarrowBuffer.anyVacant, if_pos hlt]
      simp only [hnext, h.slot_narrow hle, h.read_narrow, h.getElem?_slot, hrest,
        Option.bind_eq_bind, Option.bind_some]
      cases (b.element? offset).isNone <;> rfl

theorem narrow_widen (c : NarrowBuffer α) : c.widen.narrow = c := by
  show (⟨c.slots, .ofNat c.cursor.toNat, .ofNat c.free.toNat⟩ : NarrowBuffer α) = c
  rw [UInt64.ofNat_toNat, UInt64.ofNat_toNat]

/-- The checkpoint of a buffer is looked at as the buffer is. -/
theorem restore_checkpoint_eq (b : CircularBuffer α) : restore b.checkpoint =
    if b.capacity = 0 then .error .noSlots
    else if b.capacity ≤ b.cursor then .error .cursorPastEnd
    else if b.capacity < b.free then .error .tooManyFree
    else if (List.range b.size).any fun offset => (b.element? offset).isNone then
      .error .vacantSlot
    else .ok b :=
  rfl

/-- **The numbers are looked at before anything is counted with them**, so they may be any words. -/
theorem restore_narrow (c : NarrowBuffer α) (hslots : c.slots.size ≤ 2 ^ 63 - 1) :
    ∃ r, c.restore = some r ∧ r.map NarrowBuffer.widen = restore c.widen.checkpoint := by
  have hcapacity : c.widen.capacity < 2 ^ 63 := show c.slots.size < 2 ^ 63 by omega
  have htold : c.capacity.toNat = c.widen.capacity :=
    toNat_ofNat (show c.widen.capacity < 2 ^ 64 by omega)
  have hnone : c.capacity = 0 ↔ c.widen.capacity = 0 := by
    rw [← UInt64.toNat_inj, htold]
    rfl
  have hcursor : c.capacity ≤ c.cursor ↔ c.widen.capacity ≤ c.widen.cursor := by
    rw [UInt64.le_iff_toNat_le, htold]
    rfl
  have hfree : c.capacity < c.free ↔ c.widen.capacity < c.widen.free := by
    rw [UInt64.lt_iff_toNat_lt, htold]
    rfl
  rw [← Option.map_eq_some_iff, restore_checkpoint_eq]
  simp only [NarrowBuffer.restore, hnone, hcursor, hfree]
  split
  · rfl
  split
  · rfl
  split
  · rfl
  -- From here on the numbers are in range.
  have hrange : c.widen.InRange := ⟨by omega, by omega, hcapacity⟩
  have hsize : c.size = some (.ofNat c.widen.size) := by
    have hsize := hrange.size_narrow
    rwa [narrow_widen] at hsize
  have hvacant : c.anyVacant (.ofNat c.widen.size) c.slots.size 0 =
      some ((List.range c.widen.size).any fun offset => (c.widen.element? offset).isNone) := by
    have hvacant := hrange.anyVacant_narrow (Nat.zero_le _)
      (show c.widen.size ≤ 0 + c.slots.size by rw [Nat.zero_add]; exact Nat.sub_le _ _)
    rwa [narrow_widen, Nat.sub_zero, ← List.range_eq_range'] at hvacant
  simp only [hsize, hvacant, Option.bind_eq_bind, Option.bind_some]
  split <;> rfl

end Containers.CircularBuffer
