import Mathlib.Data.List.DropRight
import Containers.Proofs.Traversal

/-!
# Cursors in lists

What a traversal with two ends does, said of a list and in closed form.  The list is cut in three:
what was taken at its front, what is left, and what was taken at its back.  So what is left is a
stretch of the list, and no element is taken twice.

* `Cursor α` — the three parts; `Cursor.whole` puts them together again;
* `Cursor.ahead`, `Cursor.drop` — what an end has still to give, and the parts after some of it was
  given;
* `Cursor.perform`, `Cursor.run` — one step and a script, with the parts after it;
* `Traversal.runTo` — a script on any traversal, with the place after it;
* `Traversal.Follows` — a relation between places and cursors that taking keeps;
* `Traversal.Iterates` — a script is answered as by the cursor of a list.

**`Follows.iterates`** — a traversal that follows the cursor of a list at each single element follows
it through every script.  **`list_follows_cursor`** — the list of what is left is such a traversal.
-/

namespace Containers

variable {κ ε α : Type}

/-- A list in three parts: what was taken at its front, what is left, and what was taken at its
back. -/
structure Cursor (α : Type) where
  before : List α
  left : List α
  after : List α

namespace Cursor

/-- The cursor before anything is taken. -/
def ofList (xs : List α) : Cursor α :=
  ⟨[], xs, []⟩

def whole (c : Cursor α) : List α :=
  c.before ++ c.left ++ c.after

/-- What is left, in the order in which an end gives it. -/
def ahead (c : Cursor α) : End → List α
  | .front => c.left
  | .back => c.left.reverse

/-- The parts after `n` elements were taken at an end, or all where there are not so many. -/
def drop (c : Cursor α) (n : Nat) : End → Cursor α
  | .front => ⟨c.before ++ c.left.take n, c.left.drop n, c.after⟩
  | .back => ⟨c.before, c.left.rdrop n, c.left.rtake n ++ c.after⟩

/-- Does one step. -/
def perform (c : Cursor α) : Step End → Answer α × Cursor α
  | .next e => (.element (c.ahead e).head?, c.drop 1 e)
  | .nth e n => (.element (c.ahead e)[n]?, c.drop (n + 1) e)
  | .rest e => (.elements (c.ahead e), c.drop c.left.length e)
  | .length => (.length c.left.length, c)
  | .bounds => (.bounds c.left.length c.left.length, c)

/-- Does the steps of a script in order. -/
def run (c : Cursor α) : List (Step End) → List (Answer α) × Cursor α
  | [] => ([], c)
  | step :: script =>
    let (answer, c) := c.perform step
    let (answers, c) := c.run script
    (answer :: answers, c)

theorem run_cons (c : Cursor α) (step : Step End) (script : List (Step End)) :
    c.run (step :: script) = ((c.perform step).1 :: ((c.perform step).2.run script).1,
      ((c.perform step).2.run script).2) :=
  rfl

/-! ### Taking -/

/-- **Nothing is lost and nothing comes twice.** -/
@[simp] theorem whole_drop (c : Cursor α) (n : Nat) (e : End) : (c.drop n e).whole = c.whole := by
  cases e with
  | front =>
    show c.before ++ c.left.take n ++ c.left.drop n ++ c.after = c.before ++ c.left ++ c.after
    rw [List.append_assoc c.before, List.take_append_drop]
  | back =>
    show c.before ++ c.left.rdrop n ++ (c.left.rtake n ++ c.after) = c.before ++ c.left ++ c.after
    rw [← List.append_assoc, List.append_assoc c.before, List.rdrop, List.rtake,
      List.take_append_drop]

@[simp] theorem ahead_drop (c : Cursor α) (n : Nat) (e : End) :
    (c.drop n e).ahead e = (c.ahead e).drop n := by
  cases e with
  | front => rfl
  | back =>
    show (c.left.rdrop n).reverse = c.left.reverse.drop n
    rw [List.rdrop_eq_reverse_drop_reverse, List.reverse_reverse]

theorem length_ahead (c : Cursor α) (e : End) : (c.ahead e).length = c.left.length := by
  cases e with
  | front => rfl
  | back => exact List.length_reverse

/-- Taking some elements and then some more. -/
theorem drop_drop (c : Cursor α) (m n : Nat) (e : End) :
    (c.drop m e).drop n e = c.drop (m + n) e := by
  cases e with
  | front =>
    have hbefore : c.before ++ c.left.take m ++ (c.left.drop m).take n =
        c.before ++ c.left.take (m + n) := by
      rw [List.append_assoc, List.take_add]
    simp only [drop, hbefore, List.drop_drop]
  | back =>
    have hleft : (c.left.rdrop m).rdrop n = c.left.rdrop (m + n) := by
      simp only [List.rdrop_eq_reverse_drop_reverse, List.reverse_reverse, List.drop_drop]
    have hafter : (c.left.rdrop m).rtake n ++ (c.left.rtake m ++ c.after) =
        c.left.rtake (m + n) ++ c.after := by
      rw [← List.append_assoc]
      simp only [List.rdrop_eq_reverse_drop_reverse, List.rtake_eq_reverse_take_reverse,
        List.reverse_reverse, List.take_add, List.reverse_append]
    simp only [drop, hleft, hafter]

@[simp] theorem drop_zero (c : Cursor α) (e : End) : c.drop 0 e = c := by
  cases e with
  | front => simp only [drop, List.take_zero, List.drop_zero, List.append_nil]
  | back => simp only [drop, List.rtake_zero, List.rdrop_zero, List.nil_append]

/-- Where nothing is left, nothing is taken. -/
theorem drop_of_nil {c : Cursor α} (h : c.left = []) (n : Nat) (e : End) : c.drop n e = c := by
  obtain ⟨before, left, after⟩ := c
  obtain rfl : left = [] := h
  cases e with
  | front => simp only [drop, List.take_nil, List.drop_nil, List.append_nil]
  | back => simp only [drop, List.rtake_nil, List.rdrop_nil, List.nil_append]

theorem left_eq_nil_of_ahead {c : Cursor α} {e : End} (h : c.ahead e = []) : c.left = [] := by
  rw [← List.length_eq_zero_iff, ← c.length_ahead e, h, List.length_nil]

theorem ahead_of_nil {c : Cursor α} (h : c.left = []) (e : End) : c.ahead e = [] := by
  rw [← List.length_eq_zero_iff, c.length_ahead e, h, List.length_nil]

end Cursor

/-- What a step tells where nothing is left. -/
def Step.blank : Step ε → Answer α
  | .next _ => .element none
  | .nth _ _ => .element none
  | .rest _ => .elements []
  | .length => .length 0
  | .bounds => .bounds 0 0

/-- The same step at other ends. -/
def Step.map {ε' : Type} (f : ε → ε') : Step ε → Step ε'
  | .next e => .next (f e)
  | .nth e n => .nth (f e) n
  | .rest e => .rest (f e)
  | .length => .length
  | .bounds => .bounds

@[simp] theorem Step.map_id : Step.map (id : ε → ε) = id :=
  funext fun step => by cases step <;> rfl

theorem Step.blank_map {ε' : Type} (f : ε → ε') (step : Step ε) :
    (step.map f).blank = (step.blank : Answer α) := by
  cases step <;> rfl

namespace Cursor

theorem perform_of_nil {c : Cursor α} (h : c.left = []) (step : Step End) :
    c.perform step = (step.blank, c) := by
  cases step with
  | next e => rw [perform, ahead_of_nil h, drop_of_nil h]; rfl
  | nth e n => rw [perform, ahead_of_nil h, drop_of_nil h]; rfl
  | rest e => rw [perform, ahead_of_nil h, drop_of_nil h]; rfl
  | length => rw [perform, h]; rfl
  | bounds => rw [perform, h]; rfl

/-- **At the end there is nothing more to tell.** -/
theorem run_of_nil {c : Cursor α} (h : c.left = []) (script : List (Step End)) :
    c.run script = (script.map Step.blank, c) := by
  induction script with
  | nil => rfl
  | cons step script ih =>
    rw [run_cons, perform_of_nil h, ih]
    rfl

end Cursor

/-! ### Following a cursor -/

namespace Traversal

variable [Traversal κ ε α]

/-- Does the steps of a script in order and gives their answers and the place after them. -/
def runTo (p : κ) : List (Step ε) → Except Fault (List (Answer α) × κ)
  | [] => return ([], p)
  | step :: script => do
    let (answer, p) ← perform p step
    let (answers, p) ← runTo p script
    return (answer :: answers, p)

theorem runTo_cons {p q r : κ} {step : Step ε} {script : List (Step ε)} {answer : Answer α}
    {answers : List (Answer α)} (h : perform p step = .ok (answer, q))
    (hrest : runTo q script = .ok (answers, r)) :
    runTo p (step :: script) = .ok (answer :: answers, r) := by
  rw [runTo, h]
  show (runTo q script).bind _ = _
  rw [hrest]
  rfl

/-- The answers are the same whether or not the place after them is asked for. -/
theorem run_eq_runTo (p : κ) (script : List (Step ε)) :
    run p script = Prod.fst <$> runTo p script := by
  induction script generalizing p with
  | nil => rfl
  | cons step script ih =>
    rw [run, runTo]
    cases perform p step with
    | error fault => rfl
    | ok next =>
      show (run next.2 script).bind _ = Prod.fst <$> (runTo next.2 script).bind _
      rw [ih]
      cases runTo next.2 script <;> rfl

/-- Places that `R` relates to a cursor have as many elements before them and give the same at every
end, and what is left after that is related again.  Where `Alongside` compares two traversals, this
one says what the answers are. -/
structure Follows (toEnd : ε → End) (R : κ → Cursor α → Prop) : Prop where
  remaining : ∀ {p : κ} {c : Cursor α}, R p c → remaining p = c.left.length
  take : ∀ {p : κ} {c : Cursor α}, R p c → ∀ e : ε, ∃ p' : κ,
    take e p = .ok ((c.ahead (toEnd e)).head?, p') ∧ R p' (c.drop 1 (toEnd e))

namespace Follows

variable {toEnd : ε → End} {R : κ → Cursor α → Prop} {p : κ} {c : Cursor α}

theorem nth (h : Follows toEnd R) (hpc : R p c) (e : ε) (n : Nat) :
    ∃ p' : κ, nth e n p = .ok ((c.ahead (toEnd e))[n]?, p') ∧ R p' (c.drop (n + 1) (toEnd e)) := by
  induction n generalizing p c with
  | zero =>
    rw [← List.head?_eq_getElem?]
    exact h.take hpc e
  | succ n ih =>
    obtain ⟨q, htake, hq⟩ := h.take hpc e
    cases hahead : c.ahead (toEnd e) with
    | nil =>
      have hleft := Cursor.left_eq_nil_of_ahead hahead
      rw [hahead] at htake
      rw [Cursor.drop_of_nil hleft] at hq ⊢
      exact ⟨q, nth_of_none htake _, hq⟩
    | cons a as =>
      rw [hahead] at htake
      obtain ⟨q', hnth, hq'⟩ := ih hq
      rw [Cursor.ahead_drop, hahead] at hnth
      rw [Cursor.drop_drop, Nat.add_comm 1] at hq'
      exact ⟨q', (nth_of_some htake n).trans hnth, hq'⟩

theorem takeUpTo (h : Follows toEnd R) (hpc : R p c) (e : ε) (limit : Nat) :
    ∃ p' : κ, takeUpTo e limit p = .ok ((c.ahead (toEnd e)).take limit, p') ∧
      R p' (c.drop limit (toEnd e)) := by
  induction limit generalizing p c with
  | zero =>
    rw [Cursor.drop_zero]
    exact ⟨p, rfl, hpc⟩
  | succ limit ih =>
    obtain ⟨q, htake, hq⟩ := h.take hpc e
    cases hahead : c.ahead (toEnd e) with
    | nil =>
      have hleft := Cursor.left_eq_nil_of_ahead hahead
      rw [hahead] at htake
      rw [Cursor.drop_of_nil hleft] at hq ⊢
      exact ⟨q, takeUpTo_of_none htake _, hq⟩
    | cons a as =>
      rw [hahead] at htake
      obtain ⟨q', hrest, hq'⟩ := ih hq
      rw [Cursor.ahead_drop, hahead] at hrest
      rw [Cursor.drop_drop, Nat.add_comm 1] at hq'
      exact ⟨q', takeUpTo_of_some htake hrest, hq'⟩

/-- **One step.** -/
theorem perform (h : Follows toEnd R) (hpc : R p c) (step : Step ε) :
    ∃ p' : κ, perform p step = .ok ((c.perform (step.map toEnd)).1, p') ∧
      R p' (c.perform (step.map toEnd)).2 := by
  cases step with
  | next e =>
    obtain ⟨q, htake, hq⟩ := h.take hpc e
    refine ⟨q, ?_, hq⟩
    rw [Traversal.perform, htake]
    rfl
  | nth e n =>
    obtain ⟨q, hnth, hq⟩ := h.nth hpc e n
    refine ⟨q, ?_, hq⟩
    rw [Traversal.perform, hnth]
    rfl
  | rest e =>
    obtain ⟨q, htake, hq⟩ := h.takeUpTo hpc e c.left.length
    rw [List.take_of_length_le (Nat.le_of_eq (c.length_ahead _))] at htake
    refine ⟨q, ?_, hq⟩
    rw [Traversal.perform, drain, h.remaining hpc, htake]
    rfl
  | length =>
    refine ⟨p, ?_, hpc⟩
    rw [Traversal.perform, h.remaining hpc]
    rfl
  | bounds =>
    refine ⟨p, ?_, hpc⟩
    rw [Traversal.perform, h.remaining hpc]
    rfl

/-- **A script.** -/
theorem runTo (h : Follows toEnd R) (hpc : R p c) (script : List (Step ε)) :
    ∃ p' : κ, runTo p script = .ok ((c.run (script.map (Step.map toEnd))).1, p') ∧
      R p' (c.run (script.map (Step.map toEnd))).2 := by
  induction script generalizing p c with
  | nil => exact ⟨p, rfl, hpc⟩
  | cons step script ih =>
    obtain ⟨q, hstep, hq⟩ := h.perform hpc step
    obtain ⟨r, hrest, hr⟩ := ih hq
    exact ⟨r, runTo_cons hstep hrest, hr⟩

end Follows

/-- A script leads from one place to another and comes to the answers and the cursor of a list. -/
structure Iterates (p : κ) (script : List (Step ε)) (outcome : List (Answer α) × Cursor α)
    (q : κ) : Prop where
  run : run p script = .ok outcome.1
  runTo : runTo p script = .ok (outcome.1, q)
  /-- The number that the length and its bounds are told by. -/
  remaining : remaining q = outcome.2.left.length
  ended : outcome.2.left = [] → ∀ more : List (Step ε),
    Traversal.run q more = .ok (more.map Step.blank)

/-- **A traversal that follows a cursor** at each single element follows it through every script. -/
theorem Follows.iterates {toEnd : ε → End} {R : κ → Cursor α → Prop} (h : Follows toEnd R) {p : κ}
    {c : Cursor α} (hpc : R p c) (script : List (Step ε)) :
    ∃ q, Iterates p script (c.run (script.map (Step.map toEnd))) q ∧
      R q (c.run (script.map (Step.map toEnd))).2 := by
  obtain ⟨q, hrunTo, hq⟩ := h.runTo hpc script
  refine ⟨q, ⟨?_, hrunTo, h.remaining hq, ?_⟩, hq⟩
  · rw [run_eq_runTo, hrunTo]
    rfl
  · intro hend more
    obtain ⟨r, hmore, -⟩ := h.runTo hq more
    rw [run_eq_runTo, hmore, Cursor.run_of_nil hend, List.map_map]
    exact congrArg Except.ok (List.map_congr_left fun step _ => Step.blank_map toEnd step)

/-- **The rest of a list follows the cursor** in it: it is what is left. -/
theorem list_follows_cursor :
    Follows id fun (as : List α) (c : Cursor α) => as = c.left where
  remaining := by
    rintro as c rfl
    rfl
  take := by
    rintro as ⟨before, _, after⟩ rfl e
    cases e with
    | front =>
      cases as with
      | nil => exact ⟨[], rfl, rfl⟩
      | cons a as => exact ⟨as, rfl, rfl⟩
    | back =>
      refine ⟨as.dropLast, ?_, ?_⟩
      · show Except.ok (as.getLast?, as.dropLast) = .ok (as.reverse.head?, as.dropLast)
        rw [List.head?_reverse]
      · simp only [id, Cursor.drop, List.rdrop, List.dropLast_eq_take]

end Traversal

end Containers
