import Containers.Stack
import Containers.Proofs.Forms
import Containers.Proofs.Guarded.Grouping
import Containers.Proofs.SearchTree.Links

/-!
# Guarded collections stay whole

A lock that is left by an abort lets the next caller in, so what an abort leaves has to be fit for
use.  It is, because no command aborts once it has changed something.

* `CircularBuffer.sound_valid`, `SearchTree.sound_wellFormed`, `Stack.sound` — the commands of each
  collection keep its invariant, and abort without a trace;
* **`guard_adds_grouping_only`** — what a guard does, for every collection and behind every lawful
  lock, and that buffers, trees and stacks stay whole behind it;
* `Counted.lock` — a lawful lock, which counts those who look.
-/

namespace Containers

namespace CircularBuffer

variable {α : Type} [Element α] {b : CircularBuffer α} {xs : List α}

theorem Contains.exists_refusal_of_ask (h : b.Contains xs) {q : Query α} {abort : Abort}
    (habort : b.ask q = .error abort) : ∃ refusal : Refusal, abort = ⟨refusal.message⟩ := by
  cases q with
  | oldest form => exact h.requestsFailCleanly.oldest.formsAgree.exists_refusal habort
  | newest form => exact h.requestsFailCleanly.newest.formsAgree.exists_refusal habort
  | get form index => exact (h.requestsFailCleanly.get index).formsAgree.exists_refusal habort
  | visit bound =>
    obtain ⟨s, hs⟩ := h.neverVacant.visit bound.goesOn []
    rw [ask, hs] at habort
    cases habort
  | traverse script =>
    obtain ⟨answers, hanswers⟩ := h.neverVacant.traverse script
    rw [ask, hanswers] at habort
    cases habort
  | _ => cases habort

/-- No update of a valid buffer aborts, and every one leaves a valid buffer. -/
theorem Contains.perform (h : b.Contains xs) (u : Update α) :
    (∃ reply, (b.perform u).reply = .ok reply) ∧ (b.perform u).collection.Valid := by
  cases u with
  | push a => exact ⟨⟨_, rfl⟩, (h.push a).valid⟩
  | pushFront a => exact ⟨⟨_, rfl⟩, (h.pushFront a).valid⟩
  | pushAll as => exact ⟨⟨_, rfl⟩, (h.pushAll as).valid⟩
  | clear => exact ⟨⟨_, rfl⟩, h.clear.valid⟩
  | evictWhile condition =>
    obtain ⟨n, hresult, hle, -⟩ := h.evictWhile condition.holds []
    rw [CircularBuffer.perform]
    cases hevict : b.evictWhile condition.holds [] with
    | mk result events =>
      rw [hevict] at hresult
      subst hresult
      exact ⟨⟨_, rfl⟩, (h.drop hle).valid⟩

theorem sound_valid : Sound (Valid (α := α)) where
  kept b hb command := by
    cases command with
    | ask q => exact hb
    | perform u => exact (hb.contains.perform u).2
  aborts b hb command abort habort := by
    cases command with
    | ask q => exact ⟨hb.contains.exists_refusal_of_ask habort, rfl, rfl⟩
    | perform u =>
      obtain ⟨⟨reply, hreply⟩, -⟩ := hb.contains.perform u
      rw [Command.run, show Commanded.perform u b = b.perform u from rfl, hreply] at habort
      cases habort

end CircularBuffer

namespace SearchTree

open BinaryTree

variable {α : Type} [Element α] {t : SearchTree α} {p : BinaryTree (NodeId × α)}

theorem exists_refusal_of_ask (h : t.arena.Represents p) {q : Query α} {abort : Abort}
    (habort : t.ask q = .error abort) : ∃ refusal : Refusal, abort = ⟨refusal.message⟩ := by
  cases q with
  | get form rank =>
    have hcleanly : FailsCleanly t (rankRefusal? rank t.size) fun form =>
        Command.run t (.ask (.get form rank) : Command (Query α) (Update α)) :=
      (get_failsFor h rank).ask fun _ => rfl
    exact hcleanly.formsAgree.exists_refusal habort
  | visit bound =>
    rw [ask, visit_eq h] at habort
    cases habort
  | traverse script =>
    obtain ⟨v, hiterates⟩ := exists_iterates h script
    rw [ask, hiterates.run] at habort
    cases habort
  | _ => cases habort

theorem perform_aborts (h : t.arena.Represents p) {u : Update α} {abort : Abort}
    (habort : (t.perform u).reply = .error abort) :
    (∃ refusal : Refusal, abort = ⟨refusal.message⟩) ∧ (t.perform u).collection = t ∧
      (t.perform u).events = [] := by
  cases u with
  | removeAt form position =>
    have hcleanly := perform_removeAt_failsCleanly h position
    refine ⟨hcleanly.formsAgree.exists_refusal habort, hcleanly.unchanged form fun a hfound => ?_⟩
    cases habort.symm.trans hfound
  | _ => cases habort

theorem sound_wellFormed [Std.TransOrd α] : Sound (WellFormed (α := α)) where
  kept t ht command := by
    cases command with
    | ask q => exact ht
    | perform u =>
      exact wellFormed_iff_laidOut.mpr (preserved_ascends.perform (wellFormed_iff_laidOut.mp ht) u)
  aborts t ht command abort habort := by
    obtain ⟨p, hp, -⟩ := wellFormed_iff_laidOut.mp ht
    cases command with
    | ask q => exact ⟨exists_refusal_of_ask hp habort, rfl, rfl⟩
    | perform u => exact perform_aborts hp habort

end SearchTree

theorem Stack.sound (α : Type) : Sound fun _ : Stack α => True where
  kept _ _ _ := trivial
  aborts s _ command abort habort := by
    cases command with
    | ask q => cases q; cases habort
    | perform u => cases u <;> cases habort

/-- **A guard adds nothing but grouping.**  Whatever the collection and however it is locked, calls
leave what their commands leave on the bare collection, one by one up to the first of each group
that aborts, with the same replies and events; questions leave it as it is; and the lock lets the
next call in.  Where a group of commands for a buffer, a tree or a stack aborts, what was done
before is kept, the command that aborted has done nothing, and the collection is as well-formed as
before. -/
theorem guard_adds_grouping_only :
    (∀ (κ query update reply event : Type) [Commanded κ query update reply event],
      AddsGroupingOnly κ) ∧
    (∀ (α : Type) [Element α], StaysWhole fun b : CircularBuffer α => b.Valid) ∧
    (∀ (α : Type) [Element α] [Std.TransOrd α], StaysWhole fun t : SearchTree α => t.WellFormed) ∧
    ∀ α : Type, StaysWhole fun _ : Stack α => True :=
  ⟨fun _ _ _ _ _ _ => addsGroupingOnly, fun _ _ => CircularBuffer.sound_valid.staysWhole,
    fun _ _ _ => SearchTree.sound_wellFormed.staysWhole, fun α => (Stack.sound α).staysWhole⟩

/-- A lock that counts those who look and knows of the one who changes something. -/
structure Counted (κ : Type) where
  collection : κ
  readers : Nat
  writing : Bool

/-- Readers keep a writer out, and a writer keeps all others out. -/
def Counted.lock (κ : Type) : Lock κ (Counted κ) where
  make c := ⟨c, 0, false⟩
  inside := Counted.collection
  enter
    | .shared, s => if s.writing then none else some { s with readers := s.readers + 1 }
    | .exclusive, s => if s.writing || s.readers ≠ 0 then none else some { s with writing := true }
  put c s := { s with collection := c }
  leave
    | .shared, _, s => { s with readers := s.readers - 1 }
    | .exclusive, _, s => { s with writing := false }

theorem Counted.lawful (κ : Type) : (Counted.lock κ).Lawful
    (fun s => s.readers = 0 ∧ s.writing = false)
    (fun access s => if access = .shared then s.readers = 1 ∧ s.writing = false
      else s.readers = 0 ∧ s.writing = true) where
  make _ := ⟨⟨rfl, rfl⟩, rfl⟩
  enter := by
    rintro access ⟨c, readers, writing⟩ ⟨rfl, rfl⟩
    cases access <;> exact ⟨_, rfl, ⟨rfl, rfl⟩, rfl⟩
  put _ s h := ⟨h, rfl⟩
  putIdle _ s h := ⟨h, rfl⟩
  leave := by
    rintro access aborted ⟨c, readers, writing⟩ h
    cases access <;> obtain ⟨rfl, rfl⟩ := h <;> exact ⟨⟨rfl, rfl⟩, rfl⟩

/-- Questions of which the second aborts, a group that aborts behind an addition and before the
buffer is cleared, and two more groups. -/
def CircularBuffer.interrupted :
    List (Call (CircularBuffer.Query Int64) (CircularBuffer.Update Int64)) :=
  [.read [.size, .get .insisting 3],
    .write [.perform (.push 4), .ask (.get .insisting 9), .perform .clear],
    .write [.perform (.pushFront 5)], .bypass [.ask (.oldest .answering)]]

/-- A removal, one that finds nothing, and an insertion that is skipped; and a question. -/
def SearchTree.interrupted : List (Call (SearchTree.Query Int64) (SearchTree.Update Int64)) :=
  [.write [.perform (.removeAt .answering 1), .perform (.removeAt .insisting 9),
      .perform (.insert 8)],
    .read [.size]]

/-- What was done before an abort is kept, the rest of the group is not done, and the lock lets the
later groups in. -/
theorem guard_adds_grouping_only_interrupted :
    CircularBuffer.wrapped.Valid ∧ SearchTree.branching.WellFormed ∧
    (∃ s, (Counted.lock _).session ((Counted.lock _).make CircularBuffer.wrapped)
        CircularBuffer.interrupted = some s ∧
      s.left.collection.toList = [1, 2, 3, 5] ∧ s.left.collection.Valid ∧
      (∃ parts, Explains parts CircularBuffer.wrapped CircularBuffer.interrupted
        { s with left := ⟨s.left.collection⟩ }) ∧
      s.replies = [.error ⟨"Index 3 out of bounds for collection with 3 elements!"⟩,
        .error ⟨"Index 9 out of bounds for collection with 4 elements!"⟩, .ok [.done],
        .ok [.found 1]]) ∧
    ∃ s, (Counted.lock _).session ((Counted.lock _).make SearchTree.branching)
        SearchTree.interrupted = some s ∧
      s.left.collection.toList = [1, 3, 4, 6] ∧ s.left.collection.WellFormed ∧
      s.replies = [.error ⟨"Rank 9 out of bounds for collection with 4 elements!"⟩,
        .ok [.count 4]] := by
  obtain ⟨hgrouping, hbuffers, htrees, -⟩ := guard_adds_grouping_only
  have hvalid : CircularBuffer.wrapped.Valid := ⟨by decide, by decide, by decide, by decide⟩
  have hwhole : SearchTree.branching.WellFormed :=
    SearchTree.wellFormed_iff_laidOut.mpr (SearchTree.Reachable.ofList _).ascends
  obtain ⟨s, hs, -, hparts⟩ := (hgrouping (CircularBuffer Int64) _ _ _ _).session
    (Counted.lawful _) CircularBuffer.wrapped CircularBuffer.interrupted
  obtain ⟨s', hs', hinside⟩ := (hbuffers Int64).session (Counted.lawful _) _ hvalid
    CircularBuffer.interrupted
  obtain ⟨t, ht, hordered⟩ := (htrees Int64).session (Counted.lawful _) _ hwhole
    SearchTree.interrupted
  obtain rfl := Option.some.inj (hs.symm.trans hs')
  obtain rfl := Option.some.inj hs
  obtain rfl := Option.some.inj ht
  exact ⟨hvalid, hwhole, ⟨_, rfl, rfl, hinside, hparts, rfl⟩, _, rfl, rfl, hordered, rfl⟩

end Containers
