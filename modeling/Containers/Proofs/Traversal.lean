import Containers.Traversal.Script

/-!
# Traversing as a list

A traversal that gives the elements of a list from its front is as good as the list: a visit calls
its function for the elements of the list, draining gives the list, and comparing compares lists.

* `Traversal.Gives` — the elements that a place gives from its front, to the end;
* `visitList` — the visit of a list: calls with the ranks and the elements, up to and including the
  first call that answers false;
* `Traversal.Alongside` — a relation between the places of two traversals that taking keeps.

**`visit_eq_visitList`**, **`drain_front_eq`** and **`same_eq`** need one fact of a traversal: what
it gives.
**`Alongside.run`** compares two traversals at all of their ends: whatever the script, related
places answer the same, and neither is at fault.
-/

namespace Containers

variable {κ κ' ε ε' α σ : Type}

/-- Calls `f` with the ranks from `rank` on and the elements of a list, in order, up to and
including the first call that answers false. -/
def visitList (f : Nat → α → StateM σ Bool) : (rank : Nat) → List α → σ → σ
  | _, [], s => s
  | rank, a :: as, s =>
    let (goOn, s) := (f rank a).run s
    if goOn then visitList f (rank + 1) as s else s

namespace Traversal

variable [Traversal κ ε α]

/-- From its front, a place gives the elements of a list and then nothing. -/
def Gives (c : κ) : List α → Prop
  | [] => ∃ c' : κ, take (front κ) c = .ok (none, c')
  | a :: as => ∃ c' : κ, take (front κ) c = .ok (some a, c') ∧ Gives c' as

theorem visitUpTo_eq (f : Nat → α → StateM σ Bool) {c : κ} {as : List α} (h : Gives c as)
    {limit : Nat} (hlimit : as.length ≤ limit) (rank : Nat) (s : σ) :
    visitUpTo f limit rank c s = .ok (visitList f rank as s) := by
  induction as generalizing c limit rank s with
  | nil =>
    obtain ⟨c', hc'⟩ := h
    cases limit with
    | zero => rfl
    | succ limit =>
      rw [visitUpTo, hc']
      rfl
  | cons a as ih =>
    obtain ⟨c', hc', h⟩ := h
    cases limit with
    | zero => simp at hlimit
    | succ limit =>
      rw [visitUpTo, hc', visitList]
      show (if ((f rank a).run s).1 then _ else _) =
        Except.ok (if ((f rank a).run s).1 then _ else _)
      split
      · exact ih h (Nat.le_of_succ_le_succ hlimit) _ _
      · rfl

/-- **A visit** is the visit of the list of the elements. -/
theorem visit_eq_visitList (f : Nat → α → StateM σ Bool) {c : κ} {as : List α} (h : Gives c as)
    (hremaining : as.length ≤ remaining c) (s : σ) :
    visit f c s = .ok (visitList f 0 as s) :=
  visitUpTo_eq f h hremaining 0 s

/-! ### One element after the other -/

theorem nth_of_none {e : ε} {c c' : κ} (h : take e c = .ok (none, c')) (n : Nat) :
    nth e n c = .ok (none, c') := by
  cases n with
  | zero => exact h
  | succ n =>
    rw [nth, h]
    rfl

theorem nth_of_some {e : ε} {a : α} {c c' : κ} (h : take e c = .ok (some a, c')) (n : Nat) :
    nth e (n + 1) c = nth e n c' := by
  rw [nth, h]
  rfl

theorem takeUpTo_of_none {e : ε} {c c' : κ} (h : take e c = .ok (none, c')) (limit : Nat) :
    takeUpTo e (limit + 1) c = .ok ([], c') := by
  rw [takeUpTo, h]
  rfl

theorem takeUpTo_of_some {e : ε} {a : α} {as : List α} {c c' c'' : κ} {limit : Nat}
    (h : take e c = .ok (some a, c')) (hrest : takeUpTo e limit c' = .ok (as, c'')) :
    takeUpTo e (limit + 1) c = .ok (a :: as, c'') := by
  rw [takeUpTo, h]
  show (takeUpTo e limit c').bind _ = _
  rw [hrest]
  rfl

theorem takeUpTo_front_eq {c : κ} {as : List α} (h : Gives c as) {limit : Nat}
    (hlimit : as.length ≤ limit) : ∃ c', takeUpTo (front κ) limit c = .ok (as, c') := by
  induction as generalizing c limit with
  | nil =>
    obtain ⟨c', hc'⟩ := h
    cases limit with
    | zero => exact ⟨c, rfl⟩
    | succ limit => exact ⟨c', takeUpTo_of_none hc' limit⟩
  | cons a as ih =>
    obtain ⟨c', hc', h⟩ := h
    cases limit with
    | zero => simp at hlimit
    | succ limit =>
      obtain ⟨c'', hc''⟩ := ih h (Nat.le_of_succ_le_succ hlimit)
      exact ⟨c'', takeUpTo_of_some hc' hc''⟩

/-- **Draining** from the front gives the list of the elements. -/
theorem drain_front_eq {c : κ} {as : List α} (h : Gives c as)
    (hremaining : as.length ≤ remaining c) : ∃ c', drain (front κ) c = .ok (as, c') :=
  takeUpTo_front_eq h hremaining

theorem run_cons {c c' : κ} {step : Step ε} {script : List (Step ε)} {answer : Answer α}
    {answers : List (Answer α)} (h : perform c step = .ok (answer, c'))
    (hrest : run c' script = .ok answers) : run c (step :: script) = .ok (answer :: answers) := by
  rw [run, h]
  show (run c' script).bind _ = _
  rw [hrest]
  rfl

/-! ### Comparing -/

section Same

variable [Traversal κ' ε' α] [BEq α]

theorem sameUpTo_of_none {c c' : κ} {d d' : κ'} {b : Option α}
    (hc : take (front κ) c = .ok (none, c')) (hd : take (front κ') d = .ok (b, d')) (limit : Nat) :
    sameUpTo (limit + 1) c d = .ok b.isNone := by
  rw [sameUpTo, hc, hd]
  cases b <;> rfl

theorem sameUpTo_of_some {c c' : κ} {d d' : κ'} {a : α} {b : Option α}
    (hc : take (front κ) c = .ok (some a, c')) (hd : take (front κ') d = .ok (b, d'))
    (limit : Nat) :
    sameUpTo (limit + 1) c d = if b.any (a == ·) then sameUpTo limit c' d' else .ok false := by
  rw [sameUpTo, hc, hd]
  cases b <;> rfl

theorem sameUpTo_eq {c : κ} {d : κ'} {as bs : List α} (hc : Gives c as) (hd : Gives d bs)
    {limit : Nat} (hlimit : as.length < limit) : sameUpTo limit c d = .ok (as == bs) := by
  induction as generalizing c d bs limit with
  | nil =>
    obtain ⟨limit, rfl⟩ := Nat.exists_eq_succ_of_ne_zero (Nat.ne_zero_of_lt hlimit)
    obtain ⟨c', hc'⟩ := hc
    cases bs with
    | nil =>
      obtain ⟨d', hd'⟩ := hd
      exact sameUpTo_of_none hc' hd' limit
    | cons b bs =>
      obtain ⟨d', hd', -⟩ := hd
      exact sameUpTo_of_none hc' hd' limit
  | cons a as ih =>
    obtain ⟨limit, rfl⟩ := Nat.exists_eq_succ_of_ne_zero (Nat.ne_zero_of_lt hlimit)
    obtain ⟨c', hc', hc⟩ := hc
    cases bs with
    | nil =>
      obtain ⟨d', hd'⟩ := hd
      exact sameUpTo_of_some hc' hd' limit
    | cons b bs =>
      obtain ⟨d', hd', hd⟩ := hd
      rw [sameUpTo_of_some hc' hd', Option.any_some, ih hc hd (Nat.lt_of_succ_lt_succ hlimit),
        List.cons_beq_cons]
      cases a == b <;> rfl

/-- **A comparison** of two places is that of the lists of their elements. -/
theorem same_eq {c : κ} {d : κ'} {as bs : List α} (hc : Gives c as) (hd : Gives d bs)
    (hremaining : as.length ≤ remaining c) : same c d = .ok (as == bs) :=
  sameUpTo_eq hc hd (Nat.lt_succ_of_le hremaining)

end Same

/-! ### Two traversals side by side -/

section Alongside

variable [Traversal κ' ε α]

/-- Places of two traversals that `R` relates have as much before them and give the same at every
end, and what is left after that is related again. -/
structure Alongside (R : κ → κ' → Prop) : Prop where
  remaining : ∀ {c : κ} {d : κ'}, R c d → remaining c = remaining d
  take : ∀ {c : κ} {d : κ'}, R c d → ∀ e : ε, ∃ (a : Option α) (c' : κ) (d' : κ'),
    take e c = .ok (a, c') ∧ take e d = .ok (a, d') ∧ R c' d'

namespace Alongside

variable {R : κ → κ' → Prop} {c : κ} {d : κ'}

theorem nth (h : Alongside R) (hcd : R c d) (e : ε) (n : Nat) :
    ∃ (a : Option α) (c' : κ) (d' : κ'),
      nth e n c = .ok (a, c') ∧ nth e n d = .ok (a, d') ∧ R c' d' := by
  induction n generalizing c d with
  | zero => exact h.take hcd e
  | succ n ih =>
    obtain ⟨a, c', d', hc, hd, hnext⟩ := h.take hcd e
    cases a with
    | none => exact ⟨none, c', d', nth_of_none hc _, nth_of_none hd _, hnext⟩
    | some a =>
      rw [nth_of_some hc, nth_of_some hd]
      exact ih hnext

theorem takeUpTo (h : Alongside R) (hcd : R c d) (e : ε) (limit : Nat) :
    ∃ (as : List α) (c' : κ) (d' : κ'),
      takeUpTo e limit c = .ok (as, c') ∧ takeUpTo e limit d = .ok (as, d') ∧ R c' d' := by
  induction limit generalizing c d with
  | zero => exact ⟨[], c, d, rfl, rfl, hcd⟩
  | succ limit ih =>
    obtain ⟨a, c', d', hc, hd, hnext⟩ := h.take hcd e
    cases a with
    | none => exact ⟨[], c', d', takeUpTo_of_none hc limit, takeUpTo_of_none hd limit, hnext⟩
    | some a =>
      obtain ⟨as, c'', d'', hc', hd', hlast⟩ := ih hnext
      exact ⟨a :: as, c'', d'', takeUpTo_of_some hc hc', takeUpTo_of_some hd hd', hlast⟩

theorem perform (h : Alongside R) (hcd : R c d) (step : Step ε) :
    ∃ (answer : Answer α) (c' : κ) (d' : κ'),
      perform c step = .ok (answer, c') ∧ perform d step = .ok (answer, d') ∧ R c' d' := by
  cases step with
  | next e =>
    obtain ⟨a, c', d', hc, hd, hnext⟩ := h.take hcd e
    refine ⟨.element a, c', d', ?_, ?_, hnext⟩
    · rw [Traversal.perform, hc]
      rfl
    · rw [Traversal.perform, hd]
      rfl
  | nth e n =>
    obtain ⟨a, c', d', hc, hd, hnext⟩ := h.nth hcd e n
    refine ⟨.element a, c', d', ?_, ?_, hnext⟩
    · rw [Traversal.perform, hc]
      rfl
    · rw [Traversal.perform, hd]
      rfl
  | rest e =>
    obtain ⟨as, c', d', hc, hd, hnext⟩ := h.takeUpTo hcd e (Traversal.remaining c)
    refine ⟨.elements as, c', d', ?_, ?_, hnext⟩
    · rw [Traversal.perform, drain, hc]
      rfl
    · rw [Traversal.perform, drain, ← h.remaining hcd, hd]
      rfl
  | length =>
    refine ⟨.length (Traversal.remaining c), c, d, rfl, ?_, hcd⟩
    rw [h.remaining hcd]
    rfl
  | bounds =>
    refine ⟨.bounds (Traversal.remaining c) (Traversal.remaining c), c, d, rfl, ?_, hcd⟩
    rw [h.remaining hcd]
    rfl

/-- **A script** is answered the same at related places, and without a fault. -/
theorem run (h : Alongside R) (hcd : R c d) (script : List (Step ε)) :
    ∃ answers : List (Answer α), run c script = .ok answers ∧ run d script = .ok answers := by
  induction script generalizing c d with
  | nil => exact ⟨[], rfl, rfl⟩
  | cons step script ih =>
    obtain ⟨answer, c', d', hc, hd, hnext⟩ := h.perform hcd step
    obtain ⟨answers, hc', hd'⟩ := ih hnext
    exact ⟨answer :: answers, run_cons hc hc', run_cons hd hd'⟩

end Alongside

end Alongside

end Traversal

end Containers
