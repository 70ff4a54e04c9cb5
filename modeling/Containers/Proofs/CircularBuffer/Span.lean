import Containers.CircularBuffer.Span
import Containers.Proofs.CircularBuffer.BoundedList
import Containers.Proofs.CircularBuffer.Contents
import Containers.Proofs.Cursor
import Containers.Proofs.Traversal

/-!
# Spans as lists

What is left of a traversal of a buffer is a stretch of its elements, and either end gives what the
end of that stretch gives.

* `Span.Holds` — the elements between the two offsets of a span;
* `Holds.take_front`, `Holds.take_back` — one element at an end;
* **`alongside_list`** — a span and the list of its elements go side by side;
* `Contains.run_eq` — a script on a buffer is a script on the list of its elements;
* `Span.StandsAt` — the offsets of a span are those of a cursor in the list of the whole buffer;
* **`follows_cursor`** — and they stay so, whichever end is taken from;
* **`elements_iterate_as_cursor`** — any script on a buffer, in closed form.
-/

namespace Containers.CircularBuffer

variable {α : Type} {b : CircularBuffer α} {xs : List α}

namespace Span

/-- A span of a buffer that contains a list holds the elements between its offsets. -/
structure Holds (s : Span α) (xs : List α) : Prop where
  exists_contains : ∃ all, s.buffer.Contains all ∧ s.back ≤ all.length ∧
    xs = (all.take s.back).drop s.front
  front_le_back : s.front ≤ s.back

variable {s : Span α}

theorem Holds.length_eq (h : s.Holds xs) : xs.length = s.back - s.front := by
  obtain ⟨all, -, hback, rfl⟩ := h.exists_contains
  rw [List.length_drop, List.length_take, Nat.min_eq_left hback]

theorem Holds.take_of_empty (h : s.Holds xs) (hempty : s.front = s.back) (e : End) :
    s.take e = .ok (none, s) ∧ xs = [] := by
  refine ⟨if_pos hempty, List.eq_nil_of_length_eq_zero ?_⟩
  rw [h.length_eq, hempty, Nat.sub_self]

/-- The element at the front, and what is left behind it. -/
theorem Holds.take_front (h : s.Holds xs) (hne : s.front ≠ s.back) :
    ∃ a as, xs = a :: as ∧ s.take .front = .ok (some a, { s with front := s.front + 1 }) ∧
      ({ s with front := s.front + 1 } : Span α).Holds as := by
  have hle := h.front_le_back
  obtain ⟨all, hall, hback, rfl⟩ := h.exists_contains
  have hlt : s.front < (all.take s.back).length := by
    rw [List.length_take]
    omega
  refine ⟨all[s.front], (all.take s.back).drop (s.front + 1), ?_, hall.take_front hne (by omega),
    ⟨all, hall, hback, rfl⟩, ?_⟩
  · rw [List.drop_eq_getElem_cons hlt, List.getElem_take]
  · show s.front + 1 ≤ s.back
    omega

/-- The element at the back, and what is left before it. -/
theorem Holds.take_back (h : s.Holds xs) (hne : s.front ≠ s.back) :
    ∃ a as, xs = as ++ [a] ∧ s.take .back = .ok (some a, { s with back := s.back - 1 }) ∧
      ({ s with back := s.back - 1 } : Span α).Holds as := by
  have hle := h.front_le_back
  obtain ⟨all, hall, hback, rfl⟩ := h.exists_contains
  have hlt : s.back - 1 < all.length := by omega
  have hnext : s.back = s.back - 1 + 1 := by omega
  have hfront : s.front ≤ (all.take (s.back - 1)).length := by
    rw [List.length_take]
    omega
  refine ⟨all[s.back - 1], (all.take (s.back - 1)).drop s.front, ?_, hall.take_back hne hlt,
    ⟨all, hall, Nat.le_of_lt hlt, rfl⟩, ?_⟩
  · conv_lhs => rw [hnext, List.take_succ_eq_append_getElem hlt]
    rw [List.drop_append_of_le_length hfront]
  · show s.front ≤ s.back - 1
    omega

/-- **A span goes side by side with the list of its elements**, at both ends. -/
theorem alongside_list : Traversal.Alongside (Span.Holds : Span α → List α → Prop) where
  remaining := by
    intro s xs h
    exact h.length_eq.symm
  take := by
    intro s xs h e
    by_cases hempty : s.front = s.back
    · obtain ⟨htake, rfl⟩ := h.take_of_empty hempty e
      refine ⟨none, s, [], htake, ?_, h⟩
      cases e <;> rfl
    · cases e with
      | front =>
        obtain ⟨a, as, rfl, htake, has⟩ := h.take_front hempty
        exact ⟨some a, _, as, htake, rfl, has⟩
      | back =>
        obtain ⟨a, as, rfl, htake, has⟩ := h.take_back hempty
        refine ⟨some a, _, as, htake, ?_, has⟩
        show Except.ok ((as ++ [a]).getLast?, (as ++ [a]).dropLast) = _
        rw [List.getLast?_concat, List.dropLast_concat]

end Span

theorem Contains.holds_elements (h : b.Contains xs) : b.elements.Holds xs := by
  refine ⟨⟨xs, h, Nat.le_of_eq h.size_eq, ?_⟩, Nat.zero_le _⟩
  show xs = (xs.take b.size).drop 0
  rw [h.size_eq, List.take_length, List.drop_zero]

/-- **A script** on a buffer is answered, and as the list of its elements answers it. -/
theorem Contains.run_eq (h : b.Contains xs) (script : List (Step End)) :
    ∃ answers, Traversal.run b.elements script = .ok answers ∧
      Traversal.run xs script = .ok answers :=
  Span.alongside_list.run h.holds_elements script

/-! ### Spans and cursors -/

namespace Span

/-- The two offsets of a span of a buffer are those of a cursor in its list. -/
structure StandsAt (s : Span α) (b : CircularBuffer α) (c : Cursor α) : Prop where
  buffer : s.buffer = b
  front : s.front = c.before.length
  back : s.back = c.before.length + c.left.length
  whole : c.whole = b.toList

variable {s : Span α} {c : Cursor α}

theorem StandsAt.holds (h : s.StandsAt b c) (hvalid : b.Valid) : s.Holds c.left := by
  obtain ⟨rfl, hfront, hback, hwhole⟩ := h
  have hall : s.buffer.toList = c.before ++ c.left ++ c.after := hwhole.symm
  refine ⟨⟨s.buffer.toList, hvalid.contains, ?_, ?_⟩, ?_⟩
  · rw [hall, hback, List.length_append, List.length_append]
    exact Nat.le_add_right _ _
  · rw [hall, hback, hfront, ← List.length_append, List.take_left, List.drop_left]
  · rw [hback, hfront]
    exact Nat.le_add_right _ _

/-- The span at an end of which one element was taken. -/
theorem StandsAt.drop_one (h : s.StandsAt b c) (hne : s.front ≠ s.back) :
    ({ s with front := s.front + 1 } : Span α).StandsAt b (c.drop 1 .front) ∧
      ({ s with back := s.back - 1 } : Span α).StandsAt b (c.drop 1 .back) := by
  obtain ⟨hbuffer, hfront, hback, hwhole⟩ := h
  have hleft : 1 ≤ c.left.length := by omega
  constructor
  · refine ⟨hbuffer, ?_, ?_, (c.whole_drop 1 .front).trans hwhole⟩
    · simp only [Cursor.drop, List.length_append, List.length_take]
      omega
    · simp only [Cursor.drop, List.length_append, List.length_take, List.length_drop]
      omega
  · refine ⟨hbuffer, hfront, ?_, (c.whole_drop 1 .back).trans hwhole⟩
    simp only [Cursor.drop, List.rdrop, List.length_take]
    omega

/-- **A span follows the cursor** in the list of its buffer. -/
theorem follows_cursor (hvalid : b.Valid) :
    Traversal.Follows id fun (s : Span α) c => s.StandsAt b c where
  remaining := by
    intro s c h
    exact (h.holds hvalid).length_eq.symm
  take := by
    intro s c h e
    have hholds := h.holds hvalid
    by_cases hempty : s.front = s.back
    · obtain ⟨htake, hleft⟩ := hholds.take_of_empty hempty e
      rw [Cursor.ahead_of_nil hleft, Cursor.drop_of_nil hleft]
      exact ⟨s, htake, h⟩
    · obtain ⟨hfront, hback⟩ := h.drop_one hempty
      cases e with
      | front =>
        obtain ⟨a, as, hleft, htake, -⟩ := hholds.take_front hempty
        refine ⟨_, htake.trans ?_, hfront⟩
        rw [id, Cursor.ahead, hleft, List.head?_cons]
      | back =>
        obtain ⟨a, as, hleft, htake, -⟩ := hholds.take_back hempty
        refine ⟨_, htake.trans ?_, hback⟩
        rw [id, Cursor.ahead, hleft, List.reverse_append, List.reverse_singleton,
          List.singleton_append, List.head?_cons]

end Span

/-- **Any script on the elements of a buffer** is answered as by the cursor in their list: what is
left is a stretch of the list between the two offsets, each end takes from its side of it, and once
nothing is left nothing more is given. -/
theorem elements_iterate_as_cursor (h : b.Valid) (script : List (Step End)) :
    ∃ s : Span α, Traversal.Iterates b.elements script ((Cursor.ofList b.toList).run script) s ∧
      s.StandsAt b ((Cursor.ofList b.toList).run script).2 := by
  have hstart : b.elements.StandsAt b (Cursor.ofList b.toList) := by
    refine ⟨rfl, rfl, ?_, List.append_nil _⟩
    show b.size = 0 + b.toList.length
    rw [Nat.zero_add, h.contains.size_eq]
  have hiterates := (Span.follows_cursor h).iterates hstart script
  rwa [Step.map_id, List.map_id] at hiterates

/-- From both ends of three elements around the end of four slots, past the last of them. -/
theorem elements_iterate_as_cursor_wrapped : ∃ s : Span Int64, wrapped.Valid ∧
    Traversal.Iterates wrapped.elements [.next .back, .length, .nth .front 1, .nth .back 0, .bounds]
      ([.element (some 3), .length 2, .element (some 2), .element none, .bounds 0 0],
        ⟨[1, 2], [], [3]⟩) s ∧
    s.front = 2 ∧ s.back = 2 ∧ Traversal.run s [.next .front, .rest .back] =
      .ok [.element none, .elements []] := by
  have hvalid : wrapped.Valid := ⟨by decide, by decide, by decide, by decide⟩
  obtain ⟨s, hiterates, hstands⟩ := elements_iterate_as_cursor hvalid
    [.next .back, .length, .nth .front 1, .nth .back 0, .bounds]
  exact ⟨s, hvalid, hiterates, hstands.front, hstands.back, hiterates.ended rfl _⟩

end Containers.CircularBuffer
