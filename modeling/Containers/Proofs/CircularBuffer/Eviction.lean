import Containers.CircularBuffer.Checkpoint
import Containers.Proofs.CircularBuffer.Slots

/-!
# Giving up elements one by one

An eviction asks about the oldest element, gives its slot free and asks about the next, which is then
the oldest.  Nothing is written, so what was given up is still there, until the cursor comes by.

* `BoundedList.accepted` — how many elements of a list a predicate accepts, one after the other;
* `BoundedList.recording` — a predicate that also keeps a list of what it was asked about;
* `CircularBuffer.Evicts` — an eviction as it goes on, round by round and without a bound to the
  rounds;
* `CircularBuffer.EvictsInOrder` — what an eviction asks, answers and leaves;
* `CircularBuffer.Spares` — a free slot that the cursor has still to come by, and what it holds:
  **`Spares.onBuffer`** for one operation, **`Spares.run`** for any number of them;
* **`evictWhile_asks_in_order_and_spares`** — every eviction from a valid buffer.
-/

namespace Containers

variable {α σ : Type}

/-! ### Asking about a list -/

namespace BoundedList

/-- How many elements of a list a predicate accepts, one after the other. -/
def accepted (accepts : α → StateM σ Bool) : List α → σ → Nat
  | [], _ => 0
  | a :: as, s =>
    if ((accepts a).run s).1 then accepted accepts as ((accepts a).run s).2 + 1 else 0

/-- A predicate that also keeps a list of the elements that it was asked about. -/
def recording (accepts : α → StateM σ Bool) (a : α) : StateM (σ × List α) Bool :=
  fun (s, asked) => (((accepts a).run s).1, ((accepts a).run s).2, asked ++ [a])

theorem accepted_cons (accepts : α → StateM σ Bool) (a : α) (as : List α) (s : σ) :
    accepted accepts (a :: as) s =
      if ((accepts a).run s).1 then accepted accepts as ((accepts a).run s).2 + 1 else 0 :=
  rfl

theorem accepted_le (accepts : α → StateM σ Bool) (xs : List α) (s : σ) :
    accepted accepts xs s ≤ xs.length := by
  induction xs generalizing s with
  | nil => exact Nat.le_refl 0
  | cons a as ih =>
    rw [accepted_cons]
    split
    · exact Nat.succ_le_succ (ih _)
    · exact Nat.zero_le _

/-- What is given up are the elements that are accepted. -/
theorem dropWhile_fst (accepts : α → StateM σ Bool) (xs : List α) (s : σ) :
    (dropWhile accepts xs s).1 = xs.drop (accepted accepts xs s) := by
  induction xs generalizing s with
  | nil => rfl
  | cons a as ih =>
    rw [dropWhile_cons, accepted_cons]
    split
    · exact ih _
    · rfl

/-- Calls about the elements of a list are made one after the other. -/
theorem run_mapM_cons (accepts : α → StateM σ Bool) (a : α) (as : List α) (s : σ) :
    ((a :: as).mapM accepts).run s =
      (((accepts a).run s).1 :: ((as.mapM accepts).run ((accepts a).run s).2).1,
        ((as.mapM accepts).run ((accepts a).run s).2).2) := by
  rw [List.mapM_cons]
  rfl

/-- The calls: one about each element that is accepted, and one about the first that is not. -/
theorem run_mapM_take (accepts : α → StateM σ Bool) (xs : List α) (s : σ) :
    ((xs.take (accepted accepts xs s + 1)).mapM accepts).run s =
      (List.replicate (accepted accepts xs s) true ++
        (if accepted accepts xs s < xs.length then [false] else []), (dropWhile accepts xs s).2) := by
  induction xs generalizing s with
  | nil => rfl
  | cons a as ih =>
    rw [List.take_succ_cons, run_mapM_cons, dropWhile_cons, accepted_cons, List.length_cons]
    cases hanswer : ((accepts a).run s).1
    case true =>
      simp only [↓reduceIte, ih, Nat.add_lt_add_iff_right]
      rfl
    case false => rfl

/-- Keeping a list of the calls changes neither the answers nor what comes of them. -/
theorem dropWhile_recording (accepts : α → StateM σ Bool) (xs asked : List α) (s : σ) :
    accepted (recording accepts) xs (s, asked) = accepted accepts xs s ∧
      (dropWhile (recording accepts) xs (s, asked)).2 =
        ((dropWhile accepts xs s).2, asked ++ xs.take (accepted accepts xs s + 1)) := by
  induction xs generalizing s asked with
  | nil => exact ⟨rfl, Prod.ext rfl (List.append_nil asked).symm⟩
  | cons a as ih =>
    rw [accepted_cons, accepted_cons, dropWhile_cons, dropWhile_cons, List.take_succ_cons]
    have hrun : (recording accepts a).run (s, asked) =
        (((accepts a).run s).1, ((accepts a).run s).2, asked ++ [a]) := rfl
    rw [hrun]
    cases hanswer : ((accepts a).run s).1
    case true =>
      obtain ⟨hcount, hstate⟩ := ih (asked ++ [a]) ((accepts a).run s).2
      refine ⟨congrArg (· + 1) hcount, hstate.trans ?_⟩
      rw [List.append_assoc, List.singleton_append]
      rfl
    case false => exact ⟨rfl, rfl⟩

/-- A predicate that never refuses accepts all elements. -/
theorem accepted_eq_length {accepts : α → StateM σ Bool}
    (halways : ∀ a s, ((accepts a).run s).1 = true) (xs : List α) (s : σ) :
    accepted accepts xs s = xs.length := by
  induction xs generalizing s with
  | nil => rfl
  | cons a as ih => rw [accepted_cons, if_pos (halways a s), ih, List.length_cons]

end BoundedList

namespace CircularBuffer

variable {b c : CircularBuffer α} {xs : List α}

/-! ### Evicting -/

/-- **An eviction as it goes on.**  A round finds the buffer empty, or asks about the element that is
then the oldest, gives its slot free if that is accepted, and goes on with the next round. -/
inductive Evicts (accepts : α → StateM σ Bool) : CircularBuffer α → σ → Eviction α σ → Prop where
  | empty {b : CircularBuffer α} {s : σ} (hempty : b.isEmpty) : Evicts accepts b s ⟨b, 0, s⟩
  | refused {b : CircularBuffer α} {s s' : σ} {a : α} (hnot : ¬ b.isEmpty)
      (holdest : b.element 0 = .ok a) (hanswer : (accepts a).run s = (false, s')) :
      Evicts accepts b s ⟨b, 0, s'⟩
  | accepted {b : CircularBuffer α} {s s' : σ} {a : α} {e : Eviction α σ} (hnot : ¬ b.isEmpty)
      (holdest : b.element 0 = .ok a) (hanswer : (accepts a).run s = (true, s'))
      (hrest : Evicts accepts { b with free := b.free + 1 } s' e) :
      Evicts accepts b s ⟨e.buffer, e.count + 1, e.state⟩

/-- The eviction by a predicate, read off the list of the elements. -/
def evicted (b : CircularBuffer α) (accepts : α → StateM σ Bool) (xs : List α) (s : σ) :
    Eviction α σ where
  buffer := { b with free := b.free + BoundedList.accepted accepts xs s }
  count := BoundedList.accepted accepts xs s
  state := (BoundedList.dropWhile accepts xs s).2

theorem Contains.evictWhile_eq (h : b.Contains xs) (accepts : α → StateM σ Bool) (s : σ) :
    (b.evictWhile accepts s).result = .ok (b.evicted accepts xs s) := by
  obtain ⟨n, hresult, hle, hdrop⟩ := h.evictWhile accepts s
  rw [BoundedList.dropWhile_fst] at hdrop
  have hcount : BoundedList.accepted accepts xs s = n := by
    have hlength := congrArg List.length hdrop
    have hle' := BoundedList.accepted_le accepts xs s
    rw [List.length_drop, List.length_drop] at hlength
    omega
  rw [hresult, evicted, hcount]

/-- **The rounds of an eviction come to an end**, and the end is that of the list. -/
theorem Contains.evicts (h : b.Contains xs) (accepts : α → StateM σ Bool) (s : σ) :
    Evicts accepts b s (b.evicted accepts xs s) := by
  induction xs generalizing b s with
  | nil => exact .empty (h.isEmpty_iff.mpr rfl)
  | cons a as ih =>
    have hnot : ¬ b.isEmpty := fun hempty => List.cons_ne_nil a as (h.isEmpty_iff.mp hempty)
    have holdest : b.element 0 = .ok a := h.element_eq (Nat.zero_lt_succ as.length)
    rw [evicted, BoundedList.accepted_cons, BoundedList.dropWhile_cons]
    by_cases hyes : ((accepts a).run s).1
    · -- One slot more is free, and the buffer contains what follows the oldest element.
      have hrest := ih (h.drop (n := 1) (Nat.le_add_left 1 as.length)) ((accepts a).run s).2
      have hround := Evicts.accepted hnot holdest (Prod.ext hyes rfl) hrest
      simp only [if_pos hyes]
      rw [evicted] at hround
      simpa only [Nat.add_assoc, Nat.add_comm 1] using hround
    · simp only [if_neg hyes]
      exact .refused hnot holdest (Prod.ext (eq_false_of_ne_true hyes) rfl)

/-- The rounds leave no choice. -/
theorem Evicts.unique {accepts : α → StateM σ Bool} {s : σ} {e e' : Eviction α σ}
    (h : Evicts accepts b s e) (h' : Evicts accepts b s e') : e = e' := by
  induction h generalizing e' with
  | empty hempty =>
    cases h' with
    | empty => rfl
    | refused hnot => exact absurd hempty hnot
    | accepted hnot => exact absurd hempty hnot
  | refused hnot holdest hanswer =>
    cases h' with
    | empty hempty => exact absurd hempty hnot
    | refused _ holdest' hanswer' =>
      obtain rfl := Except.ok.inj (holdest.symm.trans holdest')
      rw [(Prod.mk.inj (hanswer.symm.trans hanswer')).2]
    | accepted _ holdest' hanswer' =>
      obtain rfl := Except.ok.inj (holdest.symm.trans holdest')
      nomatch (Prod.mk.inj (hanswer.symm.trans hanswer')).1
  | accepted hnot holdest hanswer _ ih =>
    cases h' with
    | empty hempty => exact absurd hempty hnot
    | refused _ holdest' hanswer' =>
      obtain rfl := Except.ok.inj (holdest.symm.trans holdest')
      nomatch (Prod.mk.inj (hanswer.symm.trans hanswer')).1
    | accepted _ holdest' hanswer' hrest' =>
      obtain rfl := Except.ok.inj (holdest.symm.trans holdest')
      obtain rfl := (Prod.mk.inj (hanswer.symm.trans hanswer')).2
      rw [ih hrest']

/-- What an eviction by a predicate asks and leaves. -/
structure EvictsInOrder (b : CircularBuffer α) (accepts : α → StateM σ Bool) (s : σ)
    (e : Eviction α σ) : Prop where
  result : (b.evictWhile accepts s).result = .ok e
  /-- The rounds come to an end, and to no other. -/
  rounds : ∀ e', Evicts accepts b s e' ↔ e' = e
  /-- As many elements are accepted as are counted, and one more is refused if there is one. -/
  answers : ((b.toList.take (e.count + 1)).mapM accepts).run s =
    (List.replicate e.count true ++ (if e.count < b.toList.length then [false] else []), e.state)
  /-- The elements that are asked about, oldest first and once each. -/
  asked : (b.evictWhile (BoundedList.recording accepts) (s, [])).result =
    .ok ⟨e.buffer, e.count, e.state, b.toList.take (e.count + 1)⟩
  count_le : e.count ≤ b.toList.length
  contents : e.buffer.toList = b.toList.drop e.count
  slots : e.buffer.slots = b.slots
  cursor : e.buffer.cursor = b.cursor
  free : e.buffer.free = b.free + e.count
  cleared : (∀ a s, ((accepts a).run s).1 = true) → e.buffer = b.clear

theorem Contains.evictsInOrder (h : b.Contains xs) (accepts : α → StateM σ Bool) (s : σ) :
    b.EvictsInOrder accepts s (b.evicted accepts xs s) := by
  have hle := BoundedList.accepted_le accepts xs s
  have hlist := h.toList_eq
  have hevicts := h.evicts accepts s
  constructor
  case result => exact h.evictWhile_eq accepts s
  case rounds =>
    intro e'
    constructor
    · exact fun h' => h'.unique hevicts
    · rintro rfl
      exact hevicts
  case answers =>
    rw [hlist]
    exact BoundedList.run_mapM_take accepts xs s
  case asked =>
    obtain ⟨hcount, hstate⟩ := BoundedList.dropWhile_recording accepts xs [] s
    rw [h.evictWhile_eq, evicted, hcount, hstate, hlist]
    rfl
  case count_le => rwa [hlist]
  case contents =>
    rw [hlist]
    exact (h.drop hle).toList_eq
  case slots => rfl
  case cursor => rfl
  case free => rfl
  case cleared =>
    intro halways
    have hlength := h.length_add_free
    have hfree : b.free + xs.length = b.capacity := by omega
    rw [evicted, BoundedList.accepted_eq_length halways, hfree]
    rfl

/-! ### What free slots still hold -/

/-- A free slot that the cursor reaches after a number of additions, and what it holds until then. -/
structure Spares (b : CircularBuffer α) (slot additions : Nat) (a : α) : Prop where
  lt : additions < b.free
  slot_eq : (b.cursor + additions) % b.capacity = slot
  holds : b.slots[slot]? = some (some a)

/-- How many elements an operation adds. -/
def Operation.additions : Operation α σ → Nat
  | .push _ => 1
  | .pushFront _ => 1
  | .pushAll as => as.length
  | .evictWhile _ => 0
  | .clear => 0

namespace Spares

variable {slot n : Nat} {a : α}

/-- An addition at the newest side writes to the slot of the cursor. -/
theorem push (hs : b.Spares slot (n + 1) a) (hvalid : b.Valid) (x : α) :
    (b.push x).result.Spares slot n a := by
  have hlt := hs.lt
  have hfree := hvalid.free_le
  constructor
  case lt =>
    rw [free_push]
    omega
  case slot_eq =>
    rw [capacity_push]
    show ((b.cursor + 1) % b.capacity + n) % b.capacity = slot
    rw [Nat.mod_add_mod, Nat.add_assoc, Nat.add_comm 1]
    exact hs.slot_eq
  case holds =>
    have hne : b.cursor ≠ slot := by
      rw [← hs.slot_eq]
      intro heq
      have hmod : 0 ≡ n + 1 [MOD b.capacity] := by
        refine Nat.ModEq.add_left_cancel' b.cursor ?_
        show (b.cursor + 0) % b.capacity = _
        rw [← heq]
        exact Nat.mod_eq_of_lt hvalid.cursor_lt
      exact absurd (Nat.ModEq.eq_of_lt_of_lt hmod (by omega) (by omega)) (Nat.succ_ne_zero n).symm
    show (b.slots.setIfInBounds b.cursor (some x))[slot]? = _
    rw [Array.getElem?_setIfInBounds, if_neg hne]
    exact hs.holds

/-- An addition at the oldest side writes to the slots of the elements and to that of the cursor. -/
theorem pushFront (hs : b.Spares slot (n + 1) a) (hvalid : b.Valid) (x : α) :
    (b.pushFront x).result.Spares slot n a := by
  have h := hvalid.contains
  have hlength := h.length_add_free
  have hlt := hs.lt
  have hroom : b.toList.length < b.capacity := by omega
  have hslot : b.slot (b.toList.length + (n + 1)) = slot := by
    have hround : b.cursor + b.free + (b.toList.length + (n + 1)) =
        b.cursor + (n + 1) + b.capacity := by omega
    rw [CircularBuffer.slot, hround, Nat.add_mod_right]
    exact hs.slot_eq
  constructor
  case lt =>
    rw [h.free_pushFront hroom]
    omega
  case slot_eq =>
    rw [capacity_pushFront, h.cursor_pushFront hroom, Nat.mod_add_mod, Nat.add_assoc, Nat.add_comm 1]
    exact hs.slot_eq
  case holds =>
    rw [← hslot, h.getElem?_pushFront hroom x (by omega), if_neg (by omega), if_neg (by omega),
      hslot]
    exact hs.holds

theorem pushAll (hvalid : b.Valid) (as : List α) (hs : b.Spares slot (as.length + n) a) :
    (b.pushAll as).result.Spares slot n a := by
  induction as generalizing b with
  | nil => rwa [List.length_nil, Nat.zero_add] at hs
  | cons x as ih =>
    rw [List.length_cons, Nat.add_right_comm] at hs
    exact ih (hvalid.contains.push x).valid (hs.push hvalid x)

/-- **An operation** brings the cursor closer by as many slots as it adds elements, and changes
nothing of what it has still to come by. -/
theorem onBuffer (hvalid : b.Valid) {op : Operation α σ} (hs : b.Spares slot (op.additions + n) a)
    {s s' : σ} (hop : op.onBuffer b s = .ok (c, s')) : c.Spares slot n a := by
  cases op with
  | push x =>
    obtain rfl := (Prod.mk.inj (Except.ok.inj hop)).1
    rw [Operation.additions, Nat.add_comm] at hs
    exact hs.push hvalid x
  | pushFront x =>
    obtain rfl := (Prod.mk.inj (Except.ok.inj hop)).1
    rw [Operation.additions, Nat.add_comm] at hs
    exact hs.pushFront hvalid x
  | pushAll as =>
    obtain rfl := (Prod.mk.inj (Except.ok.inj hop)).1
    exact hs.pushAll hvalid as
  | evictWhile accepts =>
    rw [Operation.onBuffer, hvalid.contains.evictWhile_eq] at hop
    obtain rfl := (Prod.mk.inj (Except.ok.inj hop)).1
    rw [Operation.additions, Nat.zero_add] at hs
    exact ⟨Nat.lt_add_right _ hs.lt, hs.slot_eq, hs.holds⟩
  | clear =>
    obtain rfl := (Prod.mk.inj (Except.ok.inj hop)).1
    rw [Operation.additions, Nat.zero_add] at hs
    exact ⟨Nat.lt_of_lt_of_le hs.lt hvalid.free_le, hs.slot_eq, hs.holds⟩

/-- **Any number of operations.** -/
theorem run (hvalid : b.Valid) (ops : List (Operation α σ)) (s : σ)
    (hs : b.Spares slot ((ops.map Operation.additions).sum + n) a) :
    ∃ c s', runOnBuffer ops b s = .ok (c, s') ∧ c.Valid ∧ c.Spares slot n a := by
  induction ops generalizing b s with
  | nil =>
    rw [List.map_nil, List.sum_nil, Nat.zero_add] at hs
    exact ⟨b, s, rfl, hvalid, hs⟩
  | cons op ops ih =>
    obtain ⟨c, hop, -, hc⟩ := hvalid.contains.onBuffer s op
    rw [List.map_cons, List.sum_cons, Nat.add_assoc] at hs
    obtain ⟨d, s', hrun, hd⟩ := ih hc.valid _ (hs.onBuffer hvalid hop)
    refine ⟨d, s', ?_, hd⟩
    rw [runOnBuffer, hop]
    exact hrun

/-- The cursor has come to the slot, and the next addition writes over it. -/
theorem written (hs : b.Spares slot 0 a) (hvalid : b.Valid) (x : α) :
    (b.push x).result.slots[slot]? = some (some x) ∧
      (b.pushFront x).result.slots[slot]? = some (x :: b.toList).getLast? := by
  have h := hvalid.contains
  have hlength := h.length_add_free
  have hlt := hs.lt
  have hcursor : b.cursor = slot := by
    rw [← hs.slot_eq]
    exact (Nat.mod_eq_of_lt hvalid.cursor_lt).symm
  have hroom : b.toList.length < b.capacity := by omega
  constructor
  · show (b.slots.setIfInBounds b.cursor (some x))[slot]? = _
    rw [hcursor, Array.getElem?_setIfInBounds, if_pos rfl, if_pos (hcursor ▸ hvalid.cursor_lt)]
  · -- The newest element moves to the slot of the cursor, or the new one goes there if it is alone.
    rw [← hcursor, ← h.slot_length, h.getElem?_pushFront hroom x hroom]
    cases hlist : b.toList with
    | nil => rfl
    | cons y ys =>
      have hlast := h.element?_eq ys.length (by rw [hlist]; exact Nat.lt_succ_self _)
      rw [hlist, List.getElem?_eq_getElem (Nat.lt_succ_self _)] at hlast
      rw [List.length_cons, if_neg (Nat.succ_ne_zero _), if_pos (Nat.le_refl _),
        List.getLast?_cons_cons, List.getLast?_eq_getElem?, List.length_cons, Nat.add_sub_cancel,
        List.getElem?_eq_getElem (Nat.lt_succ_self _)]
      exact Option.join_eq_some_iff.mp hlast

end Spares

/-- A slot that has been given free holds its element until the cursor has come by. -/
structure HeldUntil (b : CircularBuffer α) (slot additions : Nat) (a : α) : Prop where
  held : ∀ {τ : Type} (ops : List (Operation α τ)) (t : τ),
    (ops.map Operation.additions).sum ≤ additions → ∃ c t', runOnBuffer ops b t = .ok (c, t') ∧
      c.checkpoint.slots[slot]? = some (some a)
  /-- The next addition writes over it: at the newest side the new element, at the oldest side the
  newest. -/
  overwritten : ∀ {τ : Type} (ops : List (Operation α τ)) (t : τ),
    (ops.map Operation.additions).sum = additions → ∃ c t', runOnBuffer ops b t = .ok (c, t') ∧
      ∀ x, (c.push x).result.checkpoint.slots[slot]? = some (some x) ∧
        (c.pushFront x).result.checkpoint.slots[slot]? = some (x :: c.toList).getLast?

theorem Spares.heldUntil {slot n : Nat} {a : α} (hs : b.Spares slot n a) (hvalid : b.Valid) :
    b.HeldUntil slot n a := by
  constructor
  case held =>
    intro τ ops t hle
    rw [← Nat.add_sub_cancel' hle] at hs
    obtain ⟨c, t', hrun, -, hc⟩ := hs.run hvalid ops t
    exact ⟨c, t', hrun, Array.getElem?_toList.trans hc.holds⟩
  case overwritten =>
    intro τ ops t heq
    rw [← heq, ← Nat.add_zero (List.sum _)] at hs
    obtain ⟨c, t', hrun, hvalid', hc⟩ := hs.run hvalid ops t
    refine ⟨c, t', hrun, fun x => ?_⟩
    obtain ⟨hpush, hpushFront⟩ := hc.written hvalid' x
    exact ⟨Array.getElem?_toList.trans hpush, Array.getElem?_toList.trans hpushFront⟩

/-- What is given up is in free slots, the first of them behind those that were free before. -/
theorem Contains.spares_evicted (h : b.Contains xs) (accepts : α → StateM σ Bool) (s : σ) {i : Nat}
    (hi : i < BoundedList.accepted accepts xs s) (hlt : i < xs.length) :
    (b.evicted accepts xs s).buffer.Spares (b.slot i) (b.free + i) xs[i] := by
  have helement := h.element?_eq i hlt
  rw [List.getElem?_eq_getElem hlt] at helement
  refine ⟨Nat.add_lt_add_left hi b.free, ?_, Option.join_eq_some_iff.mp helement⟩
  rw [← Nat.add_assoc]
  rfl

/-- **An eviction asks in order and spares what it gives up.**  The predicate may keep a state.  It is
asked about the elements oldest first, once each, up to the first that it refuses; those that it
accepts are given up, by nothing but the number of free slots; and each of them can be read off the
checkpoint until additions have used up the free slots before its own and the next one writes over
it. -/
theorem evictWhile_asks_in_order_and_spares (h : b.Valid) (accepts : α → StateM σ Bool) (s : σ) :
    ∃ e, b.EvictsInOrder accepts s e ∧ ∀ i (hi : i < b.toList.length), i < e.count →
      e.buffer.HeldUntil ((b.cursor + b.free + i) % b.capacity) (b.free + i) b.toList[i] := by
  have hle := BoundedList.accepted_le accepts b.toList s
  refine ⟨_, h.contains.evictsInOrder accepts s, fun i hlt hi => ?_⟩
  exact (h.contains.spares_evicted accepts s hi hlt).heldUntil (h.contains.drop hle).valid

/-- A predicate that accepts as long as the sum is small gives up two of three elements, around the
end of the slots. -/
theorem evictWhile_asks_in_order_and_spares_wrapped : ∃ e, wrapped.Valid ∧
    wrapped.EvictsInOrder (fun a sum => (sum + a < 5, sum + a)) 0 e ∧ e.count = 2 ∧ e.state = 6 ∧
      e.buffer.toList = [3] ∧ e.buffer.HeldUntil 2 1 1 ∧ e.buffer.HeldUntil 3 2 2 := by
  have hvalid : wrapped.Valid := ⟨by decide, by decide, by decide, by decide⟩
  obtain ⟨e, he, hheld⟩ :=
    evictWhile_asks_in_order_and_spares hvalid (fun a sum => (sum + a < 5, sum + a)) (0 : Int64)
  have hresult : (wrapped.evictWhile (fun a sum => (sum + a < 5, sum + a)) (0 : Int64)).result =
      .ok ⟨⟨#[some 3, some 9, some 1, some 2], 1, 3⟩, 2, 6⟩ := rfl
  obtain rfl := Except.ok.inj (hresult.symm.trans he.result)
  exact ⟨_, hvalid, he, rfl, rfl, he.contents, hheld 0 (by decide) (by decide),
    hheld 1 (by decide) (by decide)⟩

end CircularBuffer

end Containers
