import Containers.CircularBuffer.Command
import Containers.Proofs.CircularBuffer.Reachable
import Containers.Proofs.SearchTree.Reachable

/-!
# Both forms of a request

A request that takes a refusal for an answer and one that rules it out do the same, and where one of
them fails, nothing has happened.

* `FailsFor` — an attempt fails for a given refusal, or has a result;
* `FormsAgree` — what is replied in both forms;
* `FailsCleanly` — what is replied in both forms, and what is left of the collection;
* `CircularBuffer.RequestsFailCleanly`, `SearchTree.RequestsFailCleanly` — all requests that may
  fail, each with its refusal, which depends on the request and the size alone;
* **`forms_agree_and_fail_cleanly`** — for every collection that can come about, and for making one.
-/

namespace Containers

variable {α β κ ρ ε : Type} {refusal? : Option Refusal}

/-! ### Refusals -/

/-- A refusal is worded alike wherever it is behind a fault. -/
theorem Fault.message_of_refusal? {fault : Fault} {refusal : Refusal}
    (h : fault.refusal? = some refusal) : fault.message = refusal.message := by
  cases fault with
  | refused r =>
    obtain rfl := Option.some.inj h
    rfl
  | unranked r =>
    obtain rfl := Option.some.inj h
    rfl
  | vacant => cases h
  | noRoom => cases h

/-- An attempt fails for a refusal if there is one to fail for, and else has a result. -/
def FailsFor (refusal? : Option Refusal) (attempt : Except Fault β) : Prop :=
  match refusal? with
  | some refusal => ∃ fault, attempt = .error fault ∧ fault.refusal? = some refusal
  | none => ∃ b, attempt = .ok b

/-! ### Replies -/

/-- What is replied to a request in both forms, where the answer is put into a reply. -/
structure FormsAgree (put : Except Refusal β → ρ) (refusal? : Option Refusal)
    (reply : Form → Except Abort ρ) : Prop where
  /-- One form aborts exactly where the other refuses, in the words of the refusal. -/
  aborts_iff : ∀ abort, reply .insisting = .error abort ↔
    ∃ refusal, reply .answering = .ok (put (.error refusal)) ∧ abort = ⟨refusal.message⟩
  found_iff : ∀ b, reply .insisting = .ok (put (.ok b)) ↔ reply .answering = .ok (put (.ok b))
  refuses_iff : ∀ refusal,
    reply .answering = .ok (put (.error refusal)) ↔ refusal? = some refusal
  /-- A request that takes refusals for answers is answered in any case. -/
  answers : ∃ answer, reply .answering = .ok (put answer)

theorem FailsFor.formsAgree {attempt : Except Fault β} (h : FailsFor refusal? attempt)
    {put : Except Refusal β → ρ} (hput : Function.Injective put) :
    FormsAgree put refusal? fun form => put <$> form.settle attempt := by
  have hok : ∀ x y, (Except.ok (put x) : Except Abort ρ) = .ok (put y) ↔ x = y := by
    intro x y
    rw [Except.ok.injEq]
    exact hput.eq_iff
  cases refusal? with
  | some refusal =>
    obtain ⟨fault, rfl, hrefusal⟩ := h
    have hanswering : put <$> Form.answering.settle (.error fault) =
        .ok (put (.error refusal)) := by
      rw [Form.settle, hrefusal]
      rfl
    have hinsisting : put <$> Form.insisting.settle (.error fault) =
        .error ⟨refusal.message⟩ := by
      rw [← Fault.message_of_refusal? hrefusal]
      rfl
    refine ⟨?_, ?_, ?_, _, hanswering⟩
    · intro abort
      simp only [hanswering, hinsisting, hok, Except.error.injEq]
      exact ⟨fun h => ⟨refusal, rfl, h.symm⟩, fun ⟨r, hr, h⟩ => hr ▸ h.symm⟩
    · intro b
      simp only [hanswering, hinsisting, hok, reduceCtorEq]
    · intro r
      simp only [hanswering, hok, Except.error.injEq, Option.some.injEq]
  | none =>
    obtain ⟨b, rfl⟩ := h
    have hboth : ∀ form : Form, put <$> form.settle (.ok b) = .ok (put (.ok b)) := by
      intro form
      cases form <;> rfl
    refine ⟨?_, ?_, ?_, _, hboth _⟩
    · intro abort
      simp only [hboth, hok, reduceCtorEq, false_and, exists_false]
    · intro b
      simp only [hboth]
    · intro r
      simp only [hboth, hok, reduceCtorEq]

/-- A request aborts for a refusal alone. -/
theorem FormsAgree.exists_refusal {put : Except Refusal β → ρ}
    {reply : Form → Except Abort ρ} (h : FormsAgree put refusal? reply)
    {form : Form} {abort : Abort} (habort : reply form = .error abort) :
    ∃ refusal : Refusal, abort = ⟨refusal.message⟩ := by
  cases form with
  | answering =>
    obtain ⟨answer, hanswer⟩ := h.answers
    rw [habort] at hanswer
    cases hanswer
  | insisting =>
    obtain ⟨refusal, -, heq⟩ := (h.aborts_iff abort).mp habort
    exact ⟨refusal, heq⟩

/-- The reply that an answer about an element makes. -/
def Reply.ofAnswer : Except Refusal α → Reply α
  | .ok a => .found a
  | .error refusal => .refused refusal

theorem Reply.ofAnswer_injective : Function.Injective (Reply.ofAnswer : _ → Reply α) := by
  intro x y h
  cases x <;> cases y <;> cases h <;> rfl

theorem Form.reply_eq (form : Form) (attempt : Except Fault α) :
    form.reply attempt = Reply.ofAnswer <$> form.settle attempt := by
  rw [Form.reply]
  cases form.settle attempt with
  | error abort => rfl
  | ok answer => cases answer <;> rfl

/-! ### Outcomes -/

/-- A request fails cleanly. -/
structure FailsCleanly (before : κ) (refusal? : Option Refusal)
    (run : Form → Outcome κ (Reply α) ε) : Prop where
  formsAgree : FormsAgree Reply.ofAnswer refusal? fun form => (run form).reply
  collection : (run .insisting).collection = (run .answering).collection
  events : (run .insisting).events = (run .answering).events
  /-- Unless something is found, all is as before and nothing is reported. -/
  unchanged : ∀ form, (∀ a, (run form).reply ≠ .ok (.found a)) →
    (run form).collection = before ∧ (run form).events = []

/-- A request leaves what comes of one attempt in either form. -/
theorem FailsFor.failsCleanly {before after : κ} {events : List ε} {attempt : Except Fault α}
    (h : FailsFor refusal? attempt) {run : Form → Outcome κ (Reply α) ε}
    (hrun : ∀ form, run form = ⟨after, form.reply attempt, events⟩)
    (hunchanged : refusal? ≠ none → after = before ∧ events = []) :
    FailsCleanly before refusal? run := by
  have hagree := h.formsAgree Reply.ofAnswer_injective
  simp only [← Form.reply_eq] at hagree
  refine ⟨by simpa only [hrun] using hagree, by rw [hrun, hrun], by rw [hrun, hrun], ?_⟩
  intro form hfound
  rw [hrun] at hfound ⊢
  apply hunchanged
  rintro rfl
  obtain ⟨a, rfl⟩ := h
  exact hfound a (by cases form <;> rfl)

/-- A question that may be refused. -/
theorem FailsFor.ask {query update : Type} [Commanded κ query update (Reply α) ε] {before : κ}
    {attempt : Except Fault α} (h : FailsFor refusal? attempt) {question : Form → query}
    (hask : ∀ form, Commanded.ask (question form) before = form.reply attempt) :
    FailsCleanly before refusal? fun form =>
      Command.run before (.ask (question form) : Command query update) :=
  h.failsCleanly (fun form => by rw [Command.run, hask]) fun _ => ⟨rfl, rfl⟩

/-! ### Buffers -/

namespace CircularBuffer

variable {b : CircularBuffer α} {xs : List α}

theorem ofCapacity_failsFor {room capacity : Nat} (h : capacity ≤ room) :
    FailsFor (if capacity = 0 then some .noCapacity else none)
      (ofCapacity room capacity : Except Fault (CircularBuffer α)) := by
  rw [ofCapacity]
  by_cases hzero : capacity = 0
  · rw [if_pos hzero, if_pos hzero]
    exact ⟨_, rfl, rfl⟩
  · rw [if_neg hzero, if_neg hzero, if_neg (Nat.not_lt.mpr h)]
    exact ⟨_, rfl⟩

theorem Contains.oldest_failsFor (h : b.Contains xs) :
    FailsFor (if b.size = 0 then some .noElements else none) b.oldest := by
  rw [h.oldest_eq, h.size_eq]
  cases xs with
  | nil => exact ⟨_, rfl, rfl⟩
  | cons x xs => exact ⟨x, rfl⟩

theorem Contains.newest_failsFor (h : b.Contains xs) :
    FailsFor (if b.size = 0 then some .noElements else none) b.newest := by
  rw [h.newest_eq, h.size_eq]
  cases hlast : xs.getLast? with
  | none =>
    rw [List.getLast?_eq_none_iff.mp hlast]
    exact ⟨_, rfl, rfl⟩
  | some x =>
    have hne : xs.length ≠ 0 := fun hzero => by
      rw [List.length_eq_zero_iff.mp hzero] at hlast
      cases hlast
    rw [if_neg hne]
    exact ⟨x, rfl⟩

theorem Contains.get_failsFor (h : b.Contains xs) (index : Nat) :
    FailsFor (if b.size ≤ index then some (.indexPastEnd index b.size) else none)
      (b.get index) := by
  by_cases hpast : b.size ≤ index
  · rw [CircularBuffer.get, if_pos hpast, if_pos hpast]
    exact ⟨_, rfl, rfl⟩
  · have hlt : index < xs.length := h.size_eq ▸ Nat.lt_of_not_le hpast
    rw [if_neg hpast, h.get_eq hlt]
    exact ⟨_, rfl⟩

/-- What may be asked of a buffer in vain. -/
structure RequestsFailCleanly [Element α] (b : CircularBuffer α) : Prop where
  oldest : FailsCleanly b (if b.size = 0 then some .noElements else none) fun form =>
    Command.run b (.ask (.oldest form) : Command (Query α) (Update α))
  newest : FailsCleanly b (if b.size = 0 then some .noElements else none) fun form =>
    Command.run b (.ask (.newest form) : Command (Query α) (Update α))
  get : ∀ index,
    FailsCleanly b (if b.size ≤ index then some (.indexPastEnd index b.size) else none) fun form =>
      Command.run b (.ask (.get form index) : Command (Query α) (Update α))

theorem Contains.requestsFailCleanly [Element α] (h : b.Contains xs) : b.RequestsFailCleanly where
  oldest := h.oldest_failsFor.ask fun _ => rfl
  newest := h.newest_failsFor.ask fun _ => rfl
  get index := (h.get_failsFor index).ask fun _ => rfl

end CircularBuffer

/-! ### Trees -/

namespace SearchTree

open BinaryTree

variable {t : SearchTree α} {p : BinaryTree (NodeId × α)}

/-- Why a rank is refused, by the number of values. -/
def rankRefusal? (rank : Int) (size : Nat) : Option Refusal :=
  if size = 0 then some .noElements
  else if -size ≤ rank ∧ rank < size then none
  else some (.rankOutside rank size)

/-- Why a position is refused, by the number of values. -/
def positionRefusal? (position size : Nat) : Option Refusal :=
  if position < size then none else some (refusalAt position size).cause

theorem valueAt_failsFor (xs : List α) (rank : Int) :
    FailsFor (rankRefusal? rank xs.length) (valueAt xs rank) := by
  rw [rankRefusal?]
  by_cases hbounds : -(xs.length : Int) ≤ rank ∧ rank < xs.length
  · obtain ⟨i, hposition, hlt⟩ := position?_lt_iff.mpr hbounds
    rw [if_neg (by omega), if_pos hbounds]
    exact ⟨xs[i], valueAt_of_lt hlt ((position?_eq_some_iff hlt).mp hposition)⟩
  · rw [if_neg hbounds, valueAt_of_outside hbounds]
    by_cases hempty : xs.length = 0
    · rw [if_pos hempty, if_pos hempty]
      exact ⟨_, rfl, rfl⟩
    · rw [if_neg hempty, if_neg hempty]
      exact ⟨_, rfl, rfl⟩

/-- What may be asked of a tree, or be taken out of it, in vain. -/
structure RequestsFailCleanly [Element α] (t : SearchTree α) : Prop where
  get : ∀ rank, FailsCleanly t (rankRefusal? rank t.size) fun form =>
    Command.run t (.ask (.get form rank) : Command (Query α) (Update α))
  removeAt : ∀ position, FailsCleanly t (positionRefusal? position t.size) fun form =>
    Command.run t (.perform (.removeAt form position) : Command (Query α) (Update α))
  /-- A removal fails while it looks for the node, before there is a report or a changed link. -/
  removeAt_error_iff : ∀ position fault, (t.removeAt position).result = .error fault ↔
    ∃ refusal, t.locateFromStart position = .error refusal ∧ fault = .unranked refusal

section Represents

variable (h : t.arena.Represents p)
include h

theorem get_failsFor (rank : Int) : FailsFor (rankRefusal? rank t.size) (t.get rank) := by
  rw [get_eq h, size_eq_length h]
  exact valueAt_failsFor t.toList rank

theorem removeAt_error_iff (position : Nat) (fault : Fault) :
    (t.removeAt position).result = .error fault ↔
      ∃ refusal, t.locateFromStart position = .error refusal ∧ fault = .unranked refusal := by
  constructor
  · intro hresult
    have hge : p.numNodes ≤ position := by
      by_contra hlt
      obtain ⟨a, arena, q, -, hspec, -⟩ := removeAt_spec h (Nat.lt_of_not_le hlt)
      rw [hspec] at hresult
      cases hresult
    rw [removeAt_refused h hge] at hresult
    exact ⟨_, locateFromStart_refused h hge, (Except.error.inj hresult).symm⟩
  · rintro ⟨refusal, hlocate, rfl⟩
    rw [SearchTree.removeAt, hlocate]
    rfl

theorem perform_removeAt_failsCleanly [Element α] (position : Nat) :
    FailsCleanly t (positionRefusal? position t.size) fun form =>
      Command.run t (.perform (.removeAt form position) : Command (Query α) (Update α)) := by
  have hsize : t.size = p.numNodes := h.size_eq
  rw [positionRefusal?, hsize]
  by_cases hlt : position < p.numNodes
  · obtain ⟨a, arena, q, -, hspec, -⟩ := removeAt_spec h hlt
    have hfound : FailsFor none (.ok a) := ⟨a, rfl⟩
    have hrun : ∀ form, t.perform (.removeAt form position) =
        ⟨⟨arena, t.unique⟩, form.reply (.ok a), (t.removeAt position).events⟩ := by
      intro form
      rw [perform, hspec]
    rw [if_pos hlt]
    exact hfound.failsCleanly hrun fun hsome => absurd rfl hsome
  · have hspec := removeAt_refused h (Nat.le_of_not_lt hlt)
    have hfails : FailsFor (some (refusalAt position p.numNodes).cause)
        (.error (.unranked (refusalAt position p.numNodes)) : Except Fault α) :=
      ⟨_, rfl, rfl⟩
    have hrun : ∀ form, t.perform (.removeAt form position) =
        ⟨t, form.reply (.error (.unranked (refusalAt position p.numNodes))), []⟩ := by
      intro form
      rw [perform, hspec]
    rw [if_neg hlt]
    exact hfails.failsCleanly hrun fun _ => ⟨rfl, rfl⟩

end Represents

theorem Reachable.requestsFailCleanly [Element α] (h : t.Reachable) : t.RequestsFailCleanly := by
  obtain ⟨p, hp⟩ := h.exists_represents
  exact ⟨fun rank => (get_failsFor hp rank).ask fun _ => rfl,
    perform_removeAt_failsCleanly hp, removeAt_error_iff hp⟩

end SearchTree

/-- **Both forms of a request agree, and a failure leaves no trace.**  This holds of every buffer
and tree that can come about and for every argument, and of making a buffer of any capacity that
there is room for, however much that is. -/
theorem forms_agree_and_fail_cleanly [Element α] :
    (∀ room capacity : Nat, capacity ≤ room →
      FormsAgree id (if capacity = 0 then some .noCapacity else none) fun form =>
        form.settle (CircularBuffer.ofCapacity room capacity : Except Fault (CircularBuffer α))) ∧
    (∀ b : CircularBuffer α, b.Reachable → b.RequestsFailCleanly) ∧
    ∀ t : SearchTree α, t.Reachable → t.RequestsFailCleanly := by
  refine ⟨?_, ?_, ?_⟩
  · intro room capacity hle
    have hfails := CircularBuffer.ofCapacity_failsFor (α := α) hle
    simpa only [id_map] using hfails.formsAgree Function.injective_id
  · intro b h
    exact h.valid.contains.requestsFailCleanly
  · intro t h
    exact h.requestsFailCleanly

/-- Values on both sides of the root, with a node of two children below it. -/
def SearchTree.branching : SearchTree Int64 :=
  (SearchTree.ofList [4, 2, 6, 1, 3]).result

/-- No slots, a position just past the end, and a position past the greatest rank. -/
theorem forms_agree_and_fail_cleanly_pastEnd :
    0 ≤ 4 ∧ CircularBuffer.wrapped.Reachable ∧ SearchTree.branching.Reachable ∧
    Form.insisting.settle (CircularBuffer.ofCapacity 4 0 : Except Fault (CircularBuffer Int64)) =
      .error ⟨"Fixed capacity collections require a capacity of at least 1!"⟩ ∧
    (Command.run CircularBuffer.wrapped (.ask (.get .insisting 3) :
        Command (CircularBuffer.Query Int64) (CircularBuffer.Update Int64))).reply =
      .error ⟨"Index 3 out of bounds for collection with 3 elements!"⟩ ∧
    ∃ outcome, Command.run SearchTree.branching
        (.perform (.removeAt .insisting 9223372036854775808) :
          Command (SearchTree.Query Int64) (SearchTree.Update Int64)) = outcome ∧
      outcome.reply =
        .error ⟨"Rank 9223372036854775807 out of bounds for collection with 5 elements!"⟩ ∧
      outcome.collection = SearchTree.branching ∧ outcome.events = [] := by
  obtain ⟨hmaking, hbuffer, htree⟩ := forms_agree_and_fail_cleanly (α := Int64)
  have hwrapped : CircularBuffer.wrapped.Reachable := .restored CircularBuffer.restore_wrapped
  have hbranching : SearchTree.branching.Reachable := .ofList _
  have hzero := hmaking 4 0 (Nat.zero_le 4)
  have hget := ((hbuffer _ hwrapped).get 3).formsAgree
  have hremove := (htree _ hbranching).removeAt 9223372036854775808
  have habort := (hremove.formsAgree.aborts_iff _).mpr
    ⟨.rankOutside 9223372036854775807 5,
      (hremove.formsAgree.refuses_iff _).mpr (by decide +kernel), rfl⟩
  have hunchanged := hremove.unchanged .insisting fun a hfound => by
    rw [habort] at hfound
    cases hfound
  refine ⟨Nat.zero_le 4, hwrapped, hbranching, ?_, ?_, _, rfl, habort, hunchanged⟩
  · exact (hzero.aborts_iff _).mpr ⟨.noCapacity, (hzero.refuses_iff _).mpr rfl, rfl⟩
  · exact (hget.aborts_iff _).mpr ⟨.indexPastEnd 3 3, (hget.refuses_iff _).mpr rfl, rfl⟩

end Containers
