import Containers.CircularBuffer.Stored
import Containers.Proofs.CircularBuffer.BoundedList
import Containers.Proofs.CircularBuffer.Restoring
import Containers.Proofs.CircularBuffer.Span
import Containers.Proofs.Json.Reading

/-!
# Buffers that can come about

* `CircularBuffer.Reachable` — a buffer comes about empty, from a checkpoint, from a text or as a
  copy, and from another buffer by an operation;
* **`Reachable.valid`** — a way of coming about gives a valid buffer, and an operation keeps it
  valid;
* `Reachable.run` — nothing that is done to such a buffer fails, or changes its capacity;
* `NeverVacant` — no question and no eviction comes upon a slot that is counted as occupied and
  holds nothing;
* **`reachable_valid_and_neverVacant`** — all of this of every buffer that can come about;
* **`restore_accepts_exactly_and_loses_nothing`** — which checkpoints are accepted, what becomes of
  them, and that those of such buffers are among them.
-/

namespace Containers.CircularBuffer

variable {α : Type} {b c : CircularBuffer α}

/-- The buffer whose slots hold what a function makes of those of another. -/
def mapSlots (f : Option α → Option α) (b : CircularBuffer α) : CircularBuffer α :=
  { b with slots := b.slots.map f }

/-- A copy of a buffer, made by copying each element. -/
def copyBy (copy : α → α) (b : CircularBuffer α) : CircularBuffer α :=
  b.mapSlots (Option.map copy)

/-- The buffers that can come about. -/
inductive Reachable : CircularBuffer α → Prop where
  /-- A new buffer, however many slots there is room for. -/
  | made {room capacity : Nat} {b : CircularBuffer α} (h : ofCapacity room capacity = .ok b) :
      Reachable b
  | restored {c : Checkpoint α} {b : CircularBuffer α} (h : restore c = .ok b) : Reachable b
  /-- A buffer that is read off a text, whatever the stored form of its elements is. -/
  | read [Json.Stored α] {text : String} {b : CircularBuffer α} (h : ofText text = .ok b) :
      Reachable b
  | copied {b : CircularBuffer α} (h : Reachable b) (copy : α → α) : Reachable (b.copyBy copy)
  /-- What an operation makes of a buffer. -/
  | changed {σ : Type} {b c : CircularBuffer α} {s s' : σ} (h : Reachable b) (op : Operation α σ)
      (hop : op.onBuffer b s = .ok (c, s')) : Reachable c

/-! ### Ways of coming about -/

theorem contains_of_ofCapacity {room capacity : Nat} (h : ofCapacity room capacity = .ok b) :
    b.Contains [] := by
  rw [ofCapacity] at h
  split at h
  · nomatch h
  split at h
  · nomatch h
  obtain rfl := Except.ok.inj h
  have hcapacity : (⟨Array.replicate capacity none, 0, capacity⟩ : CircularBuffer α).capacity =
      capacity := Array.size_replicate
  refine ⟨?_, ?_, fun offset hlt => absurd hlt (Nat.not_lt_zero offset)⟩
  · rw [hcapacity]
    exact Nat.pos_of_ne_zero ‹_›
  · rw [hcapacity]
    exact Nat.zero_add capacity

/-- A buffer that is read off a text is restored from a checkpoint. -/
theorem exists_restore_of_ofText [Json.Stored α] {text : String} (h : ofText text = .ok b) :
    ∃ c : Checkpoint α, restore c = .ok b := by
  obtain ⟨rest, hreader, -⟩ := Json.Reader.whole_eq_ok_iff.mp h
  obtain ⟨c, -, hrule⟩ := Json.Reader.refine_eq_ok_iff.mp hreader
  cases hrestore : restore c with
  | error d =>
    rw [hrestore] at hrule
    nomatch hrule
  | ok c' =>
    rw [hrestore] at hrule
    obtain rfl := Except.ok.inj hrule
    exact ⟨c, hrestore⟩

@[simp] theorem capacity_mapSlots (f : Option α → Option α) (b : CircularBuffer α) :
    (b.mapSlots f).capacity = b.capacity :=
  Array.size_map

/-- A slot holds what a function that keeps an empty slot empty makes of what it held. -/
theorem element?_mapSlots {f : Option α → Option α} (hf : f none = none) (b : CircularBuffer α)
    (offset : Nat) : (b.mapSlots f).element? offset = f (b.element? offset) := by
  have hslot : (b.mapSlots f).slot offset = b.slot offset := by
    rw [slot, capacity_mapSlots]
    rfl
  rw [element?, hslot, element?]
  show (b.slots.map f)[b.slot offset]?.join = _
  rw [Array.getElem?_map]
  cases b.slots[b.slot offset]? with
  | none => exact hf.symm
  | some o => rfl

theorem Contains.copyBy {xs : List α} (h : b.Contains xs) (copy : α → α) :
    (b.copyBy copy).Contains (xs.map copy) := by
  have hcapacity : (b.copyBy copy).capacity = b.capacity := capacity_mapSlots _ b
  refine ⟨?_, ?_, ?_⟩
  · rw [hcapacity]
    exact h.cursor_lt
  · rw [hcapacity, List.length_map]
    exact h.length_add_free
  · intro offset hlt
    rw [List.length_map] at hlt
    rw [CircularBuffer.copyBy, element?_mapSlots rfl, h.element?_eq offset hlt, List.getElem?_map]

/-! ### What all of them keep -/

/-- **A buffer that can come about is valid.** -/
theorem Reachable.valid (h : b.Reachable) : b.Valid := by
  induction h with
  | made h => exact (contains_of_ofCapacity h).valid
  | restored h => exact (restore_eq_ok_iff.mp h).2
  | read h =>
    obtain ⟨c, hrestore⟩ := exists_restore_of_ofText h
    exact (restore_eq_ok_iff.mp hrestore).2
  | copied _ copy ih => exact (ih.contains.copyBy copy).valid
  | changed _ op hop ih =>
    -- On a buffer that contains a list, the operation has a result, and that contains one again.
    obtain ⟨c, honBuffer, -, hc⟩ := ih.contains.onBuffer _ op
    rw [honBuffer] at hop
    have hpair := Except.ok.inj hop
    rw [← (Prod.mk.inj hpair).1]
    exact hc.valid

/-- Operations one after the other lead from one buffer that can come about to another, which is as
large. -/
theorem Reachable.run {σ : Type} (h : b.Reachable) (ops : List (Operation α σ)) (s : σ) :
    ∃ c s', runOnBuffer ops b s = .ok (c, s') ∧ c.capacity = b.capacity ∧ c.Reachable := by
  induction ops generalizing b s with
  | nil => exact ⟨b, s, rfl, rfl, h⟩
  | cons op ops ih =>
    obtain ⟨c, hop, hcapacity, -⟩ := h.valid.contains.onBuffer s op
    obtain ⟨d, s', hrun, hcapacity', hd⟩ := ih (h.changed op hop) _
    refine ⟨d, s', ?_, hcapacity'.trans hcapacity, hd⟩
    rw [runOnBuffer, hop]
    exact hrun

/-! ### Nothing is vacant -/

/-- Neither a question nor an eviction comes upon a slot that is counted as occupied and holds
nothing. -/
structure NeverVacant (b : CircularBuffer α) : Prop where
  element : ∀ offset < b.size, ∃ a, b.element offset = .ok a
  oldest : b.oldest ≠ .error .vacant
  newest : b.newest ≠ .error .vacant
  get : ∀ index, b.get index ≠ .error .vacant
  visit : ∀ {τ : Type} (f : Nat → α → StateM τ Bool) (s : τ), ∃ s', b.visit f s = .ok s'
  traverse : ∀ script, ∃ answers, Traversal.run b.elements script = .ok answers
  evictWhile : ∀ {τ : Type} (accepts : α → StateM τ Bool) (s : τ),
    ∃ e, (b.evictWhile accepts s).result = .ok e

theorem answer_ne_vacant (o : Option α) : BoundedList.answer o ≠ .error .vacant := by
  cases o <;> nofun

theorem Contains.get_ne_vacant {xs : List α} (h : b.Contains xs) (index : Nat) :
    b.get index ≠ .error .vacant := by
  by_cases hlt : index < xs.length
  · rw [h.get_eq hlt]
    simp
  · have hpast : b.size ≤ index := by
      rw [h.size_eq]
      omega
    rw [CircularBuffer.get, if_pos hpast]
    simp

theorem Contains.neverVacant {xs : List α} (h : b.Contains xs) : b.NeverVacant := by
  constructor
  case element =>
    intro offset hlt
    rw [h.size_eq] at hlt
    exact ⟨_, h.element_eq hlt⟩
  case oldest =>
    rw [h.oldest_eq]
    exact answer_ne_vacant _
  case newest =>
    rw [h.newest_eq]
    exact answer_ne_vacant _
  case get => exact h.get_ne_vacant
  case visit =>
    intro τ f s
    exact ⟨_, h.actsAsList.visited f s⟩
  case traverse =>
    intro script
    obtain ⟨answers, hanswers, -⟩ := h.run_eq script
    exact ⟨answers, hanswers⟩
  case evictWhile =>
    intro τ accepts s
    obtain ⟨n, hresult, -⟩ := h.evictWhile accepts s
    exact ⟨_, hresult⟩

/-- **The parts of a buffer that can come about belong together**, nothing that can be asked of it
finds a vacant slot, and whatever is done to it next, its capacity stays and all of this holds
again. -/
theorem reachable_valid_and_neverVacant (h : b.Reachable) :
    b.Valid ∧ b.NeverVacant ∧
      ∀ {σ : Type} (ops : List (Operation α σ)) (s : σ), ∃ c s', runOnBuffer ops b s = .ok (c, s') ∧
        c.capacity = b.capacity ∧ c.Reachable ∧ c.Valid ∧ c.NeverVacant := by
  refine ⟨h.valid, h.valid.contains.neverVacant, ?_⟩
  intro σ ops s
  obtain ⟨c, s', hrun, hcapacity, hc⟩ := h.run ops s
  exact ⟨c, s', hrun, hcapacity, hc, hc.valid, hc.valid.contains.neverVacant⟩

/-- Three elements around the end of four slots come about from their checkpoint. -/
theorem restore_wrapped : restore ⟨[some 3, some 9, some 1, some 2], 1, 1⟩ = .ok wrapped :=
  rfl

theorem reachable_valid_and_neverVacant_wrapped :
    (wrapped.copyBy (· + 1)).Reachable ∧ ∃ c sum,
      runOnBuffer wrappedScript (wrapped.copyBy (· + 1)) 0 = .ok (c, sum) ∧ c.capacity = 4 ∧
        c.Valid ∧ c.NeverVacant := by
  have hreachable : (wrapped.copyBy (· + 1)).Reachable :=
    .copied (.restored restore_wrapped) (· + 1)
  obtain ⟨-, -, hrun⟩ := reachable_valid_and_neverVacant hreachable
  obtain ⟨c, sum, hrun, hcapacity, -, hvalid, hnever⟩ := hrun wrappedScript 0
  exact ⟨hreachable, c, sum, hrun, hcapacity.trans (capacity_mapSlots _ _), hvalid, hnever⟩

/-! ### Checkpoints -/

/-- **Restoring accepts exactly the checkpoints without a defect, and loses nothing.**  What is
accepted has the checkpoint that it was made from, in every slot; what is refused is refused for its
first defect; and the checkpoint of a buffer that can come about leads back to that buffer. -/
theorem restore_accepts_exactly_and_loses_nothing :
    (∀ c : Checkpoint α,
      ((∃ b, restore c = .ok b) ↔ ∀ d, c.Lacks d) ∧
      (∀ b, restore c = .ok b → b.checkpoint = c) ∧
      ∀ d, restore c = .error d ↔ c.FirstDefect d) ∧
    ∀ b : CircularBuffer α, b.Reachable → restore b.checkpoint = .ok b := by
  refine ⟨fun c => ⟨⟨?_, ?_⟩, ?_, ?_⟩, ?_⟩
  · rintro ⟨b, h⟩
    obtain ⟨rfl, hvalid⟩ := restore_eq_ok_iff.mp h
    exact valid_iff_lacks.mp hvalid
  · intro hlacks
    rcases restore_cases c with ⟨d, hfirst, -⟩ | ⟨-, hok⟩
    · exact absurd (hlacks d) hfirst.not_lacks
    · exact ⟨_, hok⟩
  · exact fun b h => (restore_eq_ok_iff.mp h).1
  · exact fun d => restore_eq_error_iff
  · exact fun b h => h.valid.restore_checkpoint

theorem restore_accepts_exactly_and_loses_nothing_wrapped :
    wrapped.Reachable ∧ restore wrapped.checkpoint = .ok wrapped ∧
      wrapped.checkpoint = ⟨[some 3, some 9, some 1, some 2], 1, 1⟩ := by
  obtain ⟨haccepts, hreturns⟩ := restore_accepts_exactly_and_loses_nothing (α := Int64)
  have hreachable : wrapped.Reachable := .restored restore_wrapped
  exact ⟨hreachable, hreturns wrapped hreachable, (haccepts _).2.1 wrapped restore_wrapped⟩

end Containers.CircularBuffer
