import Containers.CircularBuffer.Span
import Containers.Proofs.CircularBuffer.Adding
import Containers.Proofs.Traversal

/-!
# Buffers as bounded lists

What a buffer does is what one would do to the list of its elements, with no more of them than it
has slots.

* `BoundedList.dropWhile` — the list after an eviction, by a predicate that may keep a state;
* `CircularBuffer.ActsAsList` — what a buffer answers, by that list;
* `CircularBuffer.Operation` — what can be done, on a buffer (`onBuffer`) and on a list (`onList`);
* **`Contains.evictWhile`** and **`Contains.onBuffer`** — one operation;
* **`runOnBuffer_refines_list`** — any number of them, from any valid buffer.
-/

namespace Containers

variable {α σ : Type}

namespace BoundedList

/-- Gives up elements at the oldest side, as long as a predicate accepts the oldest. -/
def dropWhile (accepts : α → StateM σ Bool) : List α → σ → List α × σ
  | [], s => ([], s)
  | a :: as, s =>
    let (yes, s) := (accepts a).run s
    if yes then dropWhile accepts as s else (a :: as, s)

theorem dropWhile_cons (accepts : α → StateM σ Bool) (a : α) (as : List α) (s : σ) :
    dropWhile accepts (a :: as) s =
      if ((accepts a).run s).1 then dropWhile accepts as ((accepts a).run s).2
      else (a :: as, ((accepts a).run s).2) :=
  rfl

/-- The answer about an element that is not there if there are none. -/
def answer : Option α → Except Fault α
  | some a => .ok a
  | none => .error (.refused .noElements)

end BoundedList

namespace CircularBuffer

variable {b : CircularBuffer α} {xs : List α}

/-! ### Looking -/

/-- A buffer answers what a list answers. -/
structure ActsAsList (b : CircularBuffer α) (xs : List α) : Prop where
  size : b.size = xs.length
  length_le : xs.length ≤ b.capacity
  isEmpty : b.isEmpty ↔ xs = []
  isFull : b.isFull ↔ xs.length = b.capacity
  oldest : b.oldest = BoundedList.answer xs.head?
  newest : b.newest = BoundedList.answer xs.getLast?
  get : ∀ i (h : i < xs.length), b.get i = .ok xs[i]
  elements : ∃ rest, Traversal.drain .front b.elements = .ok (xs, rest)
  visited : ∀ {τ : Type} (f : Nat → α → StateM τ Bool) (s : τ),
    b.visit f s = .ok (visitList f 0 xs s)

namespace Contains

theorem isEmpty_iff (h : b.Contains xs) : b.isEmpty ↔ xs = [] := by
  have hlength := h.length_add_free
  rw [isEmpty, decide_eq_true_iff, ← List.length_eq_zero_iff]
  omega

theorem oldest_eq (h : b.Contains xs) : b.oldest = BoundedList.answer xs.head? := by
  rw [oldest]
  cases xs with
  | nil => exact if_pos (h.isEmpty_iff.mpr rfl)
  | cons x xs =>
    have hnot : ¬ b.isEmpty := fun hyes => List.cons_ne_nil x xs (h.isEmpty_iff.mp hyes)
    rw [if_neg hnot]
    exact h.element_eq (Nat.zero_lt_succ xs.length)

theorem newest_eq (h : b.Contains xs) : b.newest = BoundedList.answer xs.getLast? := by
  rw [newest, h.size_eq]
  cases hlength : xs.length with
  | zero =>
    rw [List.length_eq_zero_iff.mp hlength]
    rfl
  | succ last =>
    have hlt : last < xs.length := by omega
    show b.element last = _
    rw [h.element_eq hlt, List.getLast?_eq_getElem?, hlength, Nat.add_sub_cancel,
      List.getElem?_eq_getElem hlt]
    rfl

theorem get_eq (h : b.Contains xs) {i : Nat} (hi : i < xs.length) : b.get i = .ok xs[i] := by
  have hnot : ¬ b.size ≤ i := by
    rw [h.size_eq]
    omega
  rw [get, if_neg hnot]
  exact h.element_eq hi

/-- The element at the front of a span that is not empty. -/
theorem take_front (h : b.Contains xs) {front back : Nat} (hne : front ≠ back)
    (hlt : front < xs.length) : (⟨b, front, back⟩ : Span α).take .front =
      .ok (some xs[front], ⟨b, front + 1, back⟩) := by
  simp only [Span.take, if_neg hne, h.element_eq hlt]
  rfl

/-- The element at the back of a span that is not empty. -/
theorem take_back (h : b.Contains xs) {front back : Nat} (hne : front ≠ back)
    (hlt : back - 1 < xs.length) : (⟨b, front, back⟩ : Span α).take .back =
      .ok (some xs[back - 1], ⟨b, front, back - 1⟩) := by
  simp only [Span.take, if_neg hne, h.element_eq hlt]
  rfl

/-- A span gives the elements from its front on. -/
theorem gives (h : b.Contains xs) {front : Nat} (hfront : front ≤ xs.length) :
    Traversal.Gives (⟨b, front, xs.length⟩ : Span α) (xs.drop front) := by
  obtain ⟨count, hcount⟩ : ∃ count, front + count = xs.length := ⟨xs.length - front, by omega⟩
  induction count generalizing front with
  | zero =>
    rw [List.drop_eq_nil_of_le (by omega)]
    exact ⟨_, if_pos hcount⟩
  | succ count ih =>
    have hlt : front < xs.length := by omega
    rw [List.drop_eq_getElem_cons hlt]
    exact ⟨⟨b, front + 1, xs.length⟩, h.take_front (Nat.ne_of_lt hlt) hlt,
      ih (by omega) (by omega)⟩

theorem gives_elements (h : b.Contains xs) : Traversal.Gives b.elements xs := by
  rw [elements, h.size_eq]
  exact h.gives (Nat.zero_le _)

/-- What a buffer contains is what it answers by. -/
theorem actsAsList (h : b.Contains xs) : b.ActsAsList xs := by
  have hlength := h.length_add_free
  have hremaining : xs.length ≤ Traversal.remaining b.elements := by
    show xs.length ≤ b.size - 0
    rw [h.size_eq]
    omega
  constructor
  case size => exact h.size_eq
  case length_le => omega
  case isEmpty => exact h.isEmpty_iff
  case isFull => exact h.isFull_iff
  case oldest => exact h.oldest_eq
  case newest => exact h.newest_eq
  case get =>
    intro i hi
    exact h.get_eq hi
  case elements => exact Traversal.drain_front_eq h.gives_elements hremaining
  case visited =>
    intro τ f s
    exact Traversal.visit_eq_visitList f h.gives_elements hremaining s

/-! ### Giving up elements -/

/-- How many elements are accepted from an offset on, and what is left of the list there. -/
theorem accepted_eq (h : b.Contains xs) (accepts : α → StateM σ Bool) {limit offset : Nat}
    (hlimit : offset + limit = xs.length) (s : σ) :
    ∃ n s', b.accepted accepts limit offset s = .ok (n, s') ∧ n ≤ limit ∧
      BoundedList.dropWhile accepts (xs.drop offset) s = (xs.drop (offset + n), s') := by
  induction limit generalizing offset s with
  | zero =>
    have hend : xs.drop offset = [] := List.drop_eq_nil_of_le (by omega)
    refine ⟨0, s, rfl, Nat.le_refl 0, ?_⟩
    show _ = (xs.drop offset, s)
    rw [hend]
    rfl
  | succ limit ih =>
    have hlt : offset < xs.length := by omega
    rw [accepted, h.element_eq hlt, List.drop_eq_getElem_cons hlt, BoundedList.dropWhile]
    show ∃ n s', (if (accepts xs[offset] s).1 then _ else _) = _ ∧ _ ∧
      (if (accepts xs[offset] s).1 then _ else _) = _
    by_cases hyes : (accepts xs[offset] s).1
    · obtain ⟨n, s', haccepted, hle, hdrop⟩ :=
        ih (show offset + 1 + limit = xs.length by omega) (accepts xs[offset] s).2
      refine ⟨n + 1, s', ?_, Nat.succ_le_succ hle, ?_⟩
      · rw [if_pos hyes]
        show (b.accepted accepts limit (offset + 1) _).bind _ = _
        rw [haccepted]
        rfl
      · rw [if_pos hyes, hdrop]
        congr 2
        omega
    · refine ⟨0, (accepts xs[offset] s).2, ?_, Nat.zero_le _, ?_⟩
      · rw [if_neg hyes]
        rfl
      · show _ = (xs.drop offset, _)
        rw [if_neg hyes, List.drop_eq_getElem_cons hlt]

/-- More free slots: the elements in front are gone, and nothing has moved. -/
theorem drop (h : b.Contains xs) {n : Nat} (hle : n ≤ xs.length) :
    ({ b with free := b.free + n } : CircularBuffer α).Contains (xs.drop n) := by
  have hlength := h.length_add_free
  refine ⟨h.cursor_lt, ?_, ?_⟩
  · rw [List.length_drop]
    show xs.length - n + (b.free + n) = b.capacity
    omega
  · intro offset hlt
    rw [List.length_drop] at hlt
    have hslot : ({ b with free := b.free + n } : CircularBuffer α).slot offset =
        b.slot (n + offset) := by
      show (b.cursor + (b.free + n) + offset) % b.capacity = _
      rw [slot]
      congr 1
      omega
    rw [element?, hslot, List.getElem?_drop]
    exact h.element?_eq (n + offset) (by omega)

/-- **An eviction** gives up what the list gives up, and leaves the predicate in the same state. -/
theorem evictWhile (h : b.Contains xs) (accepts : α → StateM σ Bool) (s : σ) :
    ∃ n, (b.evictWhile accepts s).result = .ok
        ⟨{ b with free := b.free + n }, n, (BoundedList.dropWhile accepts xs s).2⟩ ∧
      n ≤ xs.length ∧ (BoundedList.dropWhile accepts xs s).1 = xs.drop n := by
  obtain ⟨n, s', haccepted, hle, hdrop⟩ := h.accepted_eq accepts (Nat.zero_add xs.length) s
  rw [List.drop_zero, Nat.zero_add] at hdrop
  refine ⟨n, ?_, hle, ?_⟩
  · rw [CircularBuffer.evictWhile, h.size_eq, haccepted, hdrop]
  · rw [hdrop]

theorem clear (h : b.Contains xs) : b.clear.Contains [] := by
  refine ⟨h.cursor_lt, Nat.zero_add _, ?_⟩
  intro offset hlt
  exact absurd hlt (Nat.not_lt_zero offset)

end Contains

/-! ### Runs -/

/-- What can be done to a buffer. The predicates of a run may share a state. -/
inductive Operation (α σ : Type) where
  | push (a : α)
  | pushFront (a : α)
  | pushAll (as : List α)
  | evictWhile (accepts : α → StateM σ Bool)
  | clear

namespace Operation

/-- Does an operation to a buffer. -/
def onBuffer (b : CircularBuffer α) (s : σ) :
    Operation α σ → Except Fault (CircularBuffer α × σ)
  | .push a => .ok ((b.push a).result, s)
  | .pushFront a => .ok ((b.pushFront a).result, s)
  | .pushAll as => .ok ((b.pushAll as).result, s)
  | .evictWhile accepts => (fun e => (e.buffer, e.state)) <$> (b.evictWhile accepts s).result
  | .clear => .ok (b.clear, s)

/-- Does the same to a list that holds so many elements at most. -/
def onList (capacity : Nat) (xs : List α) (s : σ) : Operation α σ → List α × σ
  | .push a => (BoundedList.push capacity xs a, s)
  | .pushFront a => (BoundedList.pushFront capacity xs a, s)
  | .pushAll as => (BoundedList.pushAll capacity xs as, s)
  | .evictWhile accepts => BoundedList.dropWhile accepts xs s
  | .clear => ([], s)

end Operation

/-- Does operations to a buffer, one after the other. -/
def runOnBuffer : List (Operation α σ) → CircularBuffer α → σ →
    Except Fault (CircularBuffer α × σ)
  | [], b, s => .ok (b, s)
  | op :: ops, b, s => do
    let (b, s) ← op.onBuffer b s
    runOnBuffer ops b s

/-- Does operations to a list, one after the other. -/
def runOnList (capacity : Nat) : List (Operation α σ) → List α → σ → List α × σ
  | [], xs, s => (xs, s)
  | op :: ops, xs, s =>
    let (xs, s) := op.onList capacity xs s
    runOnList capacity ops xs s

theorem runOnList_cons (capacity : Nat) (op : Operation α σ) (ops : List (Operation α σ))
    (xs : List α) (s : σ) : runOnList capacity (op :: ops) xs s =
      runOnList capacity ops (op.onList capacity xs s).1 (op.onList capacity xs s).2 :=
  rfl

/-- **One operation** on a buffer is the same operation on its list. -/
theorem Contains.onBuffer (h : b.Contains xs) (s : σ) (op : Operation α σ) :
    ∃ c, op.onBuffer b s = .ok (c, (op.onList b.capacity xs s).2) ∧ c.capacity = b.capacity ∧
      c.Contains (op.onList b.capacity xs s).1 := by
  cases op with
  | push a => exact ⟨_, rfl, capacity_push b a, h.push a⟩
  | pushFront a => exact ⟨_, rfl, capacity_pushFront b a, h.pushFront a⟩
  | pushAll as => exact ⟨_, rfl, capacity_pushAll b as, h.pushAll as⟩
  | evictWhile accepts =>
    obtain ⟨n, hresult, hle, hdrop⟩ := h.evictWhile accepts s
    refine ⟨{ b with free := b.free + n }, ?_, rfl, ?_⟩
    · rw [Operation.onBuffer, hresult]
      rfl
    · show Contains _ (BoundedList.dropWhile accepts xs s).1
      rw [hdrop]
      exact h.drop hle
  | clear => exact ⟨_, rfl, rfl, h.clear⟩

theorem Contains.runOnBuffer (h : b.Contains xs) (ops : List (Operation α σ)) (s : σ) :
    ∃ c, runOnBuffer ops b s = .ok (c, (runOnList b.capacity ops xs s).2) ∧
      c.capacity = b.capacity ∧ c.Contains (runOnList b.capacity ops xs s).1 := by
  induction ops generalizing b xs s with
  | nil => exact ⟨b, rfl, rfl, h⟩
  | cons op ops ih =>
    obtain ⟨c, hresult, hcapacity, hc⟩ := h.onBuffer s op
    obtain ⟨d, hrun, hcapacity', hd⟩ := ih hc (op.onList b.capacity xs s).2
    rw [hcapacity] at hrun hd
    refine ⟨d, ?_, hcapacity'.trans hcapacity, hd⟩
    rw [CircularBuffer.runOnBuffer, hresult]
    exact hrun

/-- **A buffer refines a bounded list.**  Whatever is done to a valid buffer, nothing fails, the
buffer stays valid and as large as it was, its list is what the same operations make of the list,
and by that list it answers. -/
theorem runOnBuffer_refines_list (h : b.Valid) (ops : List (Operation α σ)) (s : σ) :
    ∃ c s', runOnBuffer ops b s = .ok (c, s') ∧ c.Valid ∧ c.capacity = b.capacity ∧
      (c.toList, s') = runOnList b.capacity ops b.toList s ∧ c.ActsAsList c.toList := by
  obtain ⟨c, hrun, hcapacity, hc⟩ := h.contains.runOnBuffer ops s
  have hlist := hc.toList_eq
  refine ⟨c, (runOnList b.capacity ops b.toList s).2, hrun, hc.valid, hcapacity, ?_, ?_⟩
  · rw [hlist]
  · rw [hlist]
    exact hc.actsAsList

/-- Three elements around the end of four slots. The free slot still holds what stood there. -/
def wrapped : CircularBuffer Int64 :=
  ⟨#[some 3, some 9, some 1, some 2], 1, 1⟩

/-- Adds at the oldest side where there is room and where there is none, at the newest side, and
gives up elements as long as their sum is small. -/
def wrappedScript : List (Operation Int64 Int64) :=
  [.pushFront 7, .pushFront 8, .pushAll [4, 5], .evictWhile fun a sum => (sum + a < 15, sum + a)]

theorem runOnBuffer_refines_list_wrapped : ∃ c sum, wrapped.Valid ∧
    runOnBuffer wrappedScript wrapped 0 = .ok (c, sum) ∧ c.toList = [5] ∧ sum = 19 ∧
      c.ActsAsList [5] := by
  have hvalid : wrapped.Valid := ⟨by decide, by decide, by decide, by decide⟩
  obtain ⟨c, sum, hrun, -, -, hlist, hacts⟩ := runOnBuffer_refines_list hvalid wrappedScript 0
  have hresult : runOnList wrapped.capacity wrappedScript wrapped.toList 0 = ([5], 19) := by
    decide +kernel
  obtain ⟨htoList, hsum⟩ := Prod.mk.inj (hlist.trans hresult)
  rw [htoList] at hacts
  exact ⟨c, sum, hvalid, hrun, htoList, hsum, hacts⟩

end CircularBuffer

end Containers
