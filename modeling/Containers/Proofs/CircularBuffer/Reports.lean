import Containers.CircularBuffer.Command
import Containers.Proofs.CircularBuffer.BoundedList

/-!
# What a buffer reports

Every element that is handed in is still there, or its loss is reported, or everything was cleared.

* `CircularBuffer.Tally` — what passes by during a run: how many elements are handed in, the events,
  and how many elements are there whenever all of them are cleared;
* `Tally.Balances` — nothing comes from nowhere and nothing goes without a trace;
* `CircularBuffer.Occupies` — an element stands in a slot that is in use;
* `CircularBuffer.ReportsLosses` — which elements an operation loses, and what it reports of them;
* **`losses_are_reported`** — the balance of a run, and the reports of every operation in it.
-/

namespace Containers.CircularBuffer

variable {α σ : Type} {b c : CircularBuffer α} {xs : List α}

/-! ### Keeping the tally -/

/-- Whether an element took the slot of another. -/
def Event.isOverwrite : Event → Bool
  | .overwroteOldest _ => true
  | .overwroteNewest _ => true
  | .evicted .. => false

/-- How many elements were given up because a predicate accepted them. -/
def Event.evictions : Event → Nat
  | .overwroteOldest _ => 0
  | .overwroteNewest _ => 0
  | .evicted count _ => count

/-- An overwrite is traced, an eviction is noted for debugging with its number. -/
theorem Event.note_spec (e : Event) :
    e.note.level = (if e.isOverwrite then .trace else .debug) ∧
      ∀ n, ("evicted", n) ∈ e.note.fields ↔ e.isOverwrite = false ∧ n = e.evictions := by
  cases e <;> simp [Event.note, Event.isOverwrite, Event.evictions]

/-- What passes by while operations are done. -/
structure Tally where
  /-- How many elements are handed in. -/
  given : Nat
  events : List Event
  /-- How many elements are there when all of them are cleared. -/
  cleared : Nat

namespace Tally

def empty : Tally :=
  ⟨0, [], 0⟩

/-- One thing after the other. -/
def append (t u : Tally) : Tally :=
  ⟨t.given + u.given, t.events ++ u.events, t.cleared + u.cleared⟩

def overwrites (t : Tally) : Nat :=
  t.events.countP Event.isOverwrite

def evictions (t : Tally) : Nat :=
  (t.events.map Event.evictions).sum

/-- What was there and what was handed in is what is there afterwards and what was lost. -/
def Balances (t : Tally) (before after : Nat) : Prop :=
  before + t.given = after + t.overwrites + t.evictions + t.cleared

theorem overwrites_append (t u : Tally) : (t.append u).overwrites = t.overwrites + u.overwrites :=
  List.countP_append

theorem evictions_append (t u : Tally) : (t.append u).evictions = t.evictions + u.evictions := by
  rw [evictions, append, List.map_append, List.sum_append]
  rfl

/-- Balances add up. -/
theorem Balances.append {t u : Tally} {before between after : Nat} (ht : t.Balances before between)
    (hu : u.Balances between after) : (t.append u).Balances before after := by
  rw [Balances] at ht hu ⊢
  rw [overwrites_append, evictions_append]
  show before + (t.given + u.given) = after + _ + _ + (t.cleared + u.cleared)
  omega

end Tally

/-- What passes by during an operation. -/
def Operation.tally (b : CircularBuffer α) (s : σ) : Operation α σ → Tally
  | .push a => ⟨1, (b.push a).events, 0⟩
  | .pushFront a => ⟨1, (b.pushFront a).events, 0⟩
  | .pushAll as => ⟨as.length, (b.pushAll as).events, 0⟩
  | .evictWhile accepts => ⟨0, (b.evictWhile accepts s).events, 0⟩
  | .clear => ⟨0, [], b.size⟩

/-- What passes by during operations, one after the other. -/
def tallyRun : List (Operation α σ) → CircularBuffer α → σ → Tally
  | [], _, _ => .empty
  | op :: ops, b, s =>
    match op.onBuffer b s with
    | .ok (c, s') => (op.tally b s).append (tallyRun ops c s')
    | .error _ => op.tally b s

/-- What a command asks to be done, where the elements asked about are kept. -/
def Update.operation [Element α] : Update α → Operation α (List α)
  | .push a => .push a
  | .pushFront a => .pushFront a
  | .pushAll as => .pushAll as
  | .clear => .clear
  | .evictWhile condition => .evictWhile condition.holds

/-- A command reports what its operation reports. -/
theorem events_perform [Element α] (b : CircularBuffer α) (u : Update α) :
    (b.perform u).events = (u.operation.tally b []).events := by
  cases u with
  | evictWhile condition =>
    rw [CircularBuffer.perform, Update.operation, Operation.tally]
    cases b.evictWhile condition.holds [] with
    | mk result events => cases result <;> rfl
  | _ => rfl

/-! ### One operation -/

/-- A slot is in use and holds an element. -/
def Occupies (b : CircularBuffer α) (slot : Nat) (a : α) : Prop :=
  (∃ offset < b.size, b.slot offset = slot) ∧ b.slots[slot]? = some (some a)

theorem Contains.occupies (h : b.Contains xs) {offset : Nat} (hlt : offset < xs.length) :
    b.Occupies (b.slot offset) xs[offset] := by
  refine ⟨⟨offset, h.size_eq ▸ hlt, rfl⟩, ?_⟩
  have helement := h.element?_eq offset hlt
  rw [List.getElem?_eq_getElem hlt] at helement
  exact Option.join_eq_some_iff.mp helement

/-- What a buffer loses by an operation and what it reports of that. -/
structure ReportsLosses (b : CircularBuffer α) : Prop where
  push_of_room : b.isFull = false → ∀ a,
    (b.push a).events = [] ∧ (b.push a).result.toList = b.toList ++ [a]
  /-- The oldest element gives its slot to the new one. -/
  push_of_full : b.isFull = true → ∀ a, ∃ slot oldest rest,
    (b.push a).events = [.overwroteOldest slot] ∧ b.Occupies slot oldest ∧
      b.toList = oldest :: rest ∧ (b.push a).result.toList = rest ++ [a]
  pushFront_of_room : b.isFull = false → ∀ a,
    (b.pushFront a).events = [] ∧ (b.pushFront a).result.toList = a :: b.toList
  /-- The newest element gives its slot to the new one. -/
  pushFront_of_full : b.isFull = true → ∀ a, ∃ slot newest rest,
    (b.pushFront a).events = [.overwroteNewest slot] ∧ b.Occupies slot newest ∧
      b.toList = rest ++ [newest] ∧ (b.pushFront a).result.toList = rest ++ [a]
  /-- Elements that are added together are reported one by one. -/
  pushAll : ∀ {τ : Type} (as : List α) (s : τ),
    tallyRun [.pushAll as] b s = tallyRun (as.map .push) b s ∧
      runOnBuffer [.pushAll as] b s = runOnBuffer (as.map .push) b s
  /-- An eviction is reported if it gives up an element, with what it leaves. -/
  evictWhile : ∀ {τ : Type} (accepts : α → StateM τ Bool) (s : τ), ∃ e,
    (b.evictWhile accepts s).result = .ok e ∧ e.buffer.toList = b.toList.drop e.count ∧
      e.count + e.buffer.size = b.size ∧
      (b.evictWhile accepts s).events = if e.count = 0 then [] else [.evicted e.count e.buffer.size]

/-- Adding elements together is adding one after the other. -/
theorem tallyRun_pushAll (b : CircularBuffer α) (as : List α) (s : σ) :
    tallyRun [.pushAll as] b s = tallyRun (as.map .push) b s ∧
      runOnBuffer [.pushAll as] b s = runOnBuffer (as.map .push) b s := by
  induction as generalizing b with
  | nil => exact ⟨rfl, rfl⟩
  | cons a as ih =>
    obtain ⟨htally, hrun⟩ := ih (b.push a).result
    refine ⟨?_, hrun⟩
    rw [List.map_cons]
    show _ = ((Operation.push a).tally b s).append (tallyRun (as.map .push) (b.push a).result s)
    rw [← htally]
    show (⟨as.length + 1 + 0, _, _⟩ : Tally) = ⟨1 + (as.length + 0), _, _⟩
    congr 1
    · omega
    · exact List.append_assoc _ _ _

section Contains

variable (h : b.Contains xs)
include h

theorem Contains.push_of_full_reports (hfull : b.isFull = true) (a : α) :
    ∃ slot oldest rest, (b.push a).events = [.overwroteOldest slot] ∧ b.Occupies slot oldest ∧
      b.toList = oldest :: rest ∧ (b.push a).result.toList = rest ++ [a] := by
  have hlength := h.isFull_iff.mp hfull
  have hpos := Nat.zero_lt_of_lt h.cursor_lt
  have hresult := h.push_of_full hlength a
  cases xs with
  | nil => exact absurd hlength (Nat.ne_of_lt hpos)
  | cons x xs =>
    refine ⟨b.cursor, x, xs, if_pos hfull, ?_, h.toList_eq, hresult.toList_eq⟩
    rw [h.cursor_of_full hlength]
    exact h.occupies (Nat.zero_lt_succ xs.length)

theorem Contains.pushFront_of_full_reports (hfull : b.isFull = true) (a : α) :
    ∃ slot newest rest, (b.pushFront a).events = [.overwroteNewest slot] ∧
      b.Occupies slot newest ∧ b.toList = rest ++ [newest] ∧
      (b.pushFront a).result.toList = rest ++ [a] := by
  have hlength := h.isFull_iff.mp hfull
  have hpos := Nat.zero_lt_of_lt h.cursor_lt
  have hresult := h.pushFront_of_full hlength a
  have hlast : b.size - 1 < xs.length := by
    rw [h.size_eq]
    omega
  have hne : xs ≠ [] := List.ne_nil_of_length_pos (by omega)
  refine ⟨b.slot (b.size - 1), xs[b.size - 1], xs.dropLast, ?_, h.occupies hlast, ?_,
    hresult.toList_eq⟩
  · rw [CircularBuffer.pushFront, if_pos hfull]
  · rw [h.toList_eq]
    conv_lhs => rw [← List.dropLast_concat_getLast hne]
    simp only [List.getLast_eq_getElem, h.size_eq]

theorem Contains.evictWhile_reports (accepts : α → StateM σ Bool) (s : σ) : ∃ e,
    (b.evictWhile accepts s).result = .ok e ∧ e.buffer.toList = b.toList.drop e.count ∧
      e.count + e.buffer.size = b.size ∧
      (b.evictWhile accepts s).events =
        if e.count = 0 then [] else [.evicted e.count e.buffer.size] := by
  obtain ⟨n, s', haccepted, hle, -⟩ := h.accepted_eq accepts (Nat.zero_add xs.length) s
  have hdrop := h.drop hle
  have hevict : b.evictWhile accepts s =
      { result := .ok ⟨{ b with free := b.free + n }, n, s'⟩
        events := if n = 0 then [] else
          [.evicted n ({ b with free := b.free + n } : CircularBuffer α).size] } := by
    rw [CircularBuffer.evictWhile, h.size_eq, haccepted]
  refine ⟨⟨{ b with free := b.free + n }, n, s'⟩, by rw [hevict], ?_, ?_, by rw [hevict]⟩
  · rw [h.toList_eq]
    exact hdrop.toList_eq
  · rw [hdrop.size_eq, h.size_eq, List.length_drop]
    show n + (xs.length - n) = xs.length
    omega

/-- **A valid buffer reports what it loses.** -/
theorem Contains.reportsLosses : b.ReportsLosses := by
  have hroom : b.isFull = false → xs.length < b.capacity := by
    intro hfull
    have hlength := h.length_add_free
    have hne : xs.length ≠ b.capacity := fun heq => by simp [h.isFull_iff.mpr heq] at hfull
    omega
  constructor
  case push_of_room =>
    intro hfull a
    rw [h.toList_eq]
    exact ⟨if_neg (Bool.not_eq_true _ ▸ hfull), (h.push_of_room (hroom hfull) a).toList_eq⟩
  case push_of_full => exact h.push_of_full_reports
  case pushFront_of_room =>
    intro hfull a
    rw [h.toList_eq]
    refine ⟨?_, (h.pushFront_of_room (hroom hfull) a).toList_eq⟩
    rw [CircularBuffer.pushFront, if_neg (Bool.not_eq_true _ ▸ hfull)]
    rfl
  case pushFront_of_full => exact h.pushFront_of_full_reports
  case pushAll =>
    intro τ as s
    exact tallyRun_pushAll b as s
  case evictWhile =>
    intro τ accepts s
    exact h.evictWhile_reports accepts s

end Contains

/-! ### Balances -/

theorem Valid.size_eq_length (h : b.Valid) : b.size = b.toList.length :=
  h.contains.size_eq

/-- One element more in the buffer, or one that was overwritten. -/
theorem ReportsLosses.balances_push (hreports : b.ReportsLosses) (h : b.Valid) (a : α)
    (hc : (b.push a).result.Valid) :
    Tally.Balances ⟨1, (b.push a).events, 0⟩ b.size (b.push a).result.size := by
  rw [Tally.Balances, h.size_eq_length, hc.size_eq_length]
  cases hfull : b.isFull with
  | false =>
    obtain ⟨hevents, hlist⟩ := hreports.push_of_room hfull a
    rw [hevents, hlist, List.length_append]
    rfl
  | true =>
    obtain ⟨slot, oldest, rest, hevents, -, hbefore, hafter⟩ := hreports.push_of_full hfull a
    rw [hevents, hbefore, hafter, List.length_append]
    rfl

theorem ReportsLosses.balances_pushFront (hreports : b.ReportsLosses) (h : b.Valid) (a : α)
    (hc : (b.pushFront a).result.Valid) :
    Tally.Balances ⟨1, (b.pushFront a).events, 0⟩ b.size (b.pushFront a).result.size := by
  rw [Tally.Balances, h.size_eq_length, hc.size_eq_length]
  cases hfull : b.isFull with
  | false =>
    obtain ⟨hevents, hlist⟩ := hreports.pushFront_of_room hfull a
    rw [hevents, hlist]
    rfl
  | true =>
    obtain ⟨slot, newest, rest, hevents, -, hbefore, hafter⟩ := hreports.pushFront_of_full hfull a
    rw [hevents, hbefore, hafter, List.length_append, List.length_append]
    rfl

theorem Contains.balances_pushAll (h : b.Contains xs) (as : List α) :
    Tally.Balances ⟨as.length, (b.pushAll as).events, 0⟩ b.size (b.pushAll as).result.size := by
  induction as generalizing b xs with
  | nil => rfl
  | cons a as ih =>
    have hfirst := h.reportsLosses.balances_push h.valid a (h.push a).valid
    have hall := hfirst.append (ih (h.push a))
    rwa [Tally.append, Nat.add_comm] at hall

/-- **One operation balances.** -/
theorem Contains.balances (h : b.Contains xs) {op : Operation α σ} {s s' : σ}
    (hop : op.onBuffer b s = .ok (c, s')) : (op.tally b s).Balances b.size c.size := by
  have hreports := h.reportsLosses
  cases op with
  | push a =>
    obtain ⟨rfl, -⟩ := Prod.mk.inj (Except.ok.inj hop)
    exact hreports.balances_push h.valid a (h.push a).valid
  | pushFront a =>
    obtain ⟨rfl, -⟩ := Prod.mk.inj (Except.ok.inj hop)
    exact hreports.balances_pushFront h.valid a (h.pushFront a).valid
  | pushAll as =>
    obtain ⟨rfl, -⟩ := Prod.mk.inj (Except.ok.inj hop)
    exact h.balances_pushAll as
  | evictWhile accepts =>
    obtain ⟨e, hresult, -, hcount, hevents⟩ := hreports.evictWhile accepts s
    rw [Operation.onBuffer, hresult] at hop
    obtain ⟨rfl, -⟩ := Prod.mk.inj (Except.ok.inj hop)
    rw [Operation.tally, hevents, Tally.Balances, ← hcount]
    split
    · next hzero =>
      rw [hzero]
      show 0 + e.buffer.size + 0 = e.buffer.size + 0 + 0 + 0
      omega
    · show e.count + e.buffer.size + 0 = e.buffer.size + 0 + (e.count + 0) + 0
      omega
  | clear =>
    obtain ⟨rfl, -⟩ := Prod.mk.inj (Except.ok.inj hop)
    rw [h.clear.size_eq]
    show b.size + 0 = 0 + 0 + 0 + b.size
    omega

/-- **A run balances.** -/
theorem Contains.balances_run (h : b.Contains xs) {ops : List (Operation α σ)} {s s' : σ}
    (hrun : CircularBuffer.runOnBuffer ops b s = .ok (c, s')) :
    (tallyRun ops b s).Balances b.size c.size := by
  induction ops generalizing b xs s with
  | nil =>
    obtain ⟨rfl, -⟩ := Prod.mk.inj (Except.ok.inj hrun)
    rfl
  | cons op ops ih =>
    obtain ⟨d, hop, -, hd⟩ := h.onBuffer s op
    rw [CircularBuffer.runOnBuffer, hop] at hrun
    rw [tallyRun, hop]
    exact (h.balances hop).append (ih hd hrun)

/-- **Every element that a buffer loses is accounted for.**  Whatever is done to a valid buffer,
what it held and was given is what it holds, what was overwritten, what was evicted and what was
cleared, the second and third as the events tell.  All along the way each operation reports what it
loses, by the slot or by the number, and reports nothing else; nor does a command. -/
theorem losses_are_reported (h : b.Valid) (ops : List (Operation α σ)) (s : σ) :
    (∃ c s', runOnBuffer ops b s = .ok (c, s') ∧ (tallyRun ops b s).Balances b.size c.size) ∧
    (∀ before, before <+: ops → ∃ c s', runOnBuffer before b s = .ok (c, s') ∧
      c.Valid ∧ c.ReportsLosses) ∧
    (∀ [Element α] (c : CircularBuffer α),
      (∀ u, (c.perform u).events = (u.operation.tally c []).events) ∧
      ∀ q, (Command.run c (.ask q : Command (Query α) (Update α))).events = []) ∧
    ∀ e : Event, e.note.level = (if e.isOverwrite then .trace else .debug) ∧
      ∀ n, ("evicted", n) ∈ e.note.fields ↔ e.isOverwrite = false ∧ n = e.evictions := by
  refine ⟨?_, ?_, ?_, Event.note_spec⟩
  · obtain ⟨c, hrun, -, -⟩ := h.contains.runOnBuffer ops s
    exact ⟨c, _, hrun, h.contains.balances_run hrun⟩
  · intro before _
    obtain ⟨c, hrun, -, hc⟩ := h.contains.runOnBuffer before s
    exact ⟨c, _, hrun, hc.valid, hc.reportsLosses⟩
  · intro _ c
    exact ⟨events_perform c, fun q => rfl⟩

/-- Fills the last slot, overwrites at both sides, gives up elements that are small together, and
clears what is left. -/
def losingScript : List (Operation Int64 Int64) :=
  [.pushFront 7, .pushFront 8, .pushAll [4, 5], .evictWhile fun a sum => (sum + a < 15, sum + a),
    .clear]

theorem losses_are_reported_wrapped : wrapped.Valid ∧ ∃ c s',
    runOnBuffer losingScript wrapped 0 = .ok (c, s') ∧
      (tallyRun losingScript wrapped 0).Balances wrapped.size c.size ∧
      tallyRun losingScript wrapped 0 =
        ⟨4, [.overwroteNewest 1, .overwroteOldest 2, .overwroteOldest 3, .evicted 3 1], 1⟩ := by
  have hvalid : wrapped.Valid := ⟨by decide, by decide, by decide, by decide⟩
  obtain ⟨⟨c, s', hrun, hbalance⟩, -, -, -⟩ := losses_are_reported hvalid losingScript 0
  exact ⟨hvalid, c, s', hrun, hbalance, by rfl⟩

end Containers.CircularBuffer
