import Containers.Json.Scalar
/-!
# Sequences

* `Json.items` — the elements of a sequence with at least one, up to the closing bracket;
* `Json.sequence` — a reader for a sequence of elements of one kind;
* `Json.sequenceWithin` — and one that counts the bracket;
* `Json.writeSequence` — a sequence as it is written, without blanks.
-/

namespace Containers.Json

variable {α : Type}

/-! ### Reading -/

/-- The elements of a sequence up to its closing bracket, for a text that starts with one. -/
def items (item : Reader α) (s : List Char) : Except Problem (List α × List Char) :=
  match h : item.run s with
  | .error problem => .error problem
  | .ok (a, r) =>
    have := item.shortens h
    match hr : skipBlanks r with
    | ']' :: r => .ok ([a], r)
    | ',' :: r' =>
      have := length_lt_of_skipBlanks hr
      match items item r' with
      | .error problem => .error problem
      | .ok (as, r) => .ok (a :: as, r)
    | [] => .error .cutShort
    | _ :: _ => .error .malformed
termination_by s.length

theorem length_of_items {item : Reader α} {s r : List Char} {as : List α}
    (h : items item s = .ok (as, r)) : r.length < s.length := by
  fun_induction items item s generalizing as r with
  | case1 => simp at h
  | case2 s a r₁ hrun h₁ r₂ hr =>
    have h₂ := length_lt_of_skipBlanks hr
    simp only [Except.ok.injEq, Prod.mk.injEq] at h
    rw [← h.2]
    omega
  | case3 => simp at h
  | case4 s a r₁ hrun h₁ r₂ hr h₂ as' r₃ hitems ih =>
    have h₃ := ih hitems
    simp only [Except.ok.injEq, Prod.mk.injEq] at h
    rw [← h.2]
    omega
  | case5 => simp at h
  | case6 => simp at h

/-- A sequence of elements of one kind, for a bracket that may be opened. -/
def sequence (item : Reader α) : Reader (List α) where
  run s :=
    match skipBlanks s with
    | '[' :: r =>
      match skipBlanks r with
      | ']' :: r => .ok ([], r)
      | r => items item r
    | r => .error (mismatch "a sequence" r)
  shortens {s r as} h := by
    split at h
    · next r₁ hr₁ =>
      have h₁ := length_lt_of_skipBlanks hr₁
      split at h
      · next r₂ hr₂ =>
        have h₂ := length_lt_of_skipBlanks hr₂
        simp only [Except.ok.injEq, Prod.mk.injEq] at h
        rw [← h.2]
        omega
      · have h₂ := length_skipBlanks r₁
        have h₃ := length_of_items h
        omega
    · simp at h

/-- A sequence of elements of one kind, by the number of brackets that may still be opened. -/
def sequenceWithin (item : Nat → Reader α) : Nat → Reader (List α) :=
  Reader.within ['['] fun depth => sequence (item depth)

/-! ### Writing -/

/-- A sequence of elements as they are written. -/
def writeSequence (write : α → List Char) (as : List α) : List Char :=
  '[' :: separated (as.map write) ++ [']']

end Containers.Json
