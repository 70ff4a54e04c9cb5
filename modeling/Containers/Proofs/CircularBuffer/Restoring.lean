import Containers.CircularBuffer.Checkpoint
import Containers.Proofs.CircularBuffer.Contents

/-!
# Restoring a buffer from a checkpoint

A checkpoint may come from anywhere, so its parts need not belong together.

* `Checkpoint.Lacks` — what a checkpoint without a certain defect is like, in its own terms;
* `Checkpoint.FirstDefect` — the defect that is come upon first;
* **`restore_cases`** — either there is a first defect and it is named, or there is none and the
  parts are taken as they are;
* **`restore_eq_ok_iff`** and **`restore_eq_error_iff`** — the same by its outcome;
* `restore_checkpoint` — a valid buffer comes back as it was.
-/

namespace Containers

variable {α : Type}

/-! ### Defects -/

namespace Checkpoint

/-- What a checkpoint is like that does not have a defect. -/
def Lacks (c : Checkpoint α) : Defect → Prop
  | .noSlots => c.slots ≠ []
  | .cursorPastEnd => c.cursor < c.slots.length
  | .tooManyFree => c.free ≤ c.slots.length
  | .vacantSlot => ∀ i < c.slots.length - c.free,
      ∃ a, c.slots[(c.cursor + c.free + i) % c.slots.length]? = some (some a)

/-- The defects that are looked for before another. -/
def Defect.earlier : Defect → List Defect
  | noSlots => []
  | cursorPastEnd => [noSlots]
  | tooManyFree => [noSlots, cursorPastEnd]
  | vacantSlot => [noSlots, cursorPastEnd, tooManyFree]

/-- A checkpoint has a defect and none of those that are looked for before it. -/
structure FirstDefect (c : Checkpoint α) (d : Defect) : Prop where
  lacks_earlier : ∀ e ∈ d.earlier, c.Lacks e
  not_lacks : ¬ c.Lacks d

theorem FirstDefect.unique {c : Checkpoint α} {d e : Defect} (hd : c.FirstDefect d)
    (he : c.FirstDefect e) : d = e := by
  -- Of two different defects one is looked for before the other.
  have horder : d ∈ e.earlier ∨ e ∈ d.earlier ∨ d = e := by
    cases d <;> cases e <;> decide
  rcases horder with hearlier | hearlier | rfl
  · exact absurd (he.lacks_earlier d hearlier) hd.not_lacks
  · exact absurd (hd.lacks_earlier e hearlier) he.not_lacks
  · rfl

/-- A slot of a checkpoint holds an element if the slot of the buffer with the same parts does. -/
theorem isSome_element?_iff (c : Checkpoint α) (i : Nat) :
    ((⟨c.slots.toArray, c.cursor, c.free⟩ : CircularBuffer α).element? i).isSome ↔
      ∃ a, c.slots[(c.cursor + c.free + i) % c.slots.length]? = some (some a) := by
  rw [CircularBuffer.element?, List.getElem?_toArray]
  show (c.slots[(c.cursor + c.free + i) % c.slots.length]?.join).isSome ↔ _
  cases c.slots[(c.cursor + c.free + i) % c.slots.length]? with
  | none => simp
  | some v => cases v <;> simp

end Checkpoint

/-! ### Restoring -/

namespace CircularBuffer

/-- A buffer is valid if its checkpoint has no defect. -/
theorem valid_iff_lacks {b : CircularBuffer α} : b.Valid ↔ ∀ d, b.checkpoint.Lacks d := by
  have hoccupied : ∀ i, (b.element? i).isSome ↔
      ∃ a, b.slots.toList[(b.cursor + b.free + i) % b.slots.toList.length]? = some (some a) :=
    b.checkpoint.isSome_element?_iff
  constructor
  · intro h d
    cases d with
    | noSlots => exact List.ne_nil_of_length_pos h.capacity_pos
    | cursorPastEnd => exact h.cursor_lt
    | tooManyFree => exact h.free_le
    | vacantSlot => exact fun i hi => (hoccupied i).mp (h.occupied i hi)
  · intro h
    constructor
    case capacity_pos => exact List.length_pos_iff.mpr (h .noSlots)
    case cursor_lt => exact h .cursorPastEnd
    case free_le => exact h .tooManyFree
    case occupied => exact fun i hi => (hoccupied i).mpr (h .vacantSlot i hi)

/-- The search for an occupied slot that holds nothing succeeds where there is one. -/
theorem any_isNone_iff (c : Checkpoint α) :
    ((List.range (c.slots.length - c.free)).any fun i =>
        ((⟨c.slots.toArray, c.cursor, c.free⟩ : CircularBuffer α).element? i).isNone) ↔
      ¬ c.Lacks .vacantSlot := by
  have hlacks : c.Lacks .vacantSlot ↔ ∀ i < c.slots.length - c.free,
      ((⟨c.slots.toArray, c.cursor, c.free⟩ : CircularBuffer α).element? i).isSome :=
    forall₂_congr fun i _ => (c.isSome_element?_iff i).symm
  rw [hlacks, List.any_eq_true]
  simp

/-- **Restoring** names the first defect, and where there is none it takes the parts as they
are. -/
theorem restore_cases (c : Checkpoint α) :
    (∃ d, c.FirstDefect d ∧ restore c = .error d) ∨
      (∀ d, c.Lacks d) ∧ restore c = .ok ⟨c.slots.toArray, c.cursor, c.free⟩ := by
  by_cases hempty : c.Lacks .noSlots
  case neg =>
    refine .inl ⟨.noSlots, ⟨nofun, hempty⟩, if_pos ?_⟩
    exact List.length_eq_zero_iff.mpr (not_not.mp hempty)
  have hempty' : ¬ c.slots.length = 0 := fun h => hempty (List.length_eq_zero_iff.mp h)
  by_cases hcursor : c.Lacks .cursorPastEnd
  case neg =>
    refine .inl ⟨.cursorPastEnd, ⟨by simpa [Checkpoint.Defect.earlier], hcursor⟩, ?_⟩
    exact (if_neg hempty').trans (if_pos (Nat.not_lt.mp hcursor))
  have hcursor' : ¬ c.slots.length ≤ c.cursor := Nat.not_le.mpr hcursor
  by_cases hfree : c.Lacks .tooManyFree
  case neg =>
    refine .inl ⟨.tooManyFree, ⟨by simp [Checkpoint.Defect.earlier, hempty, hcursor], hfree⟩, ?_⟩
    exact (if_neg hempty').trans ((if_neg hcursor').trans (if_pos (Nat.not_le.mp hfree)))
  have hfree' : ¬ c.slots.length < c.free := Nat.not_lt.mpr hfree
  have hlast : restore c = if (List.range (c.slots.length - c.free)).any fun i =>
      ((⟨c.slots.toArray, c.cursor, c.free⟩ : CircularBuffer α).element? i).isNone then
        .error .vacantSlot else .ok ⟨c.slots.toArray, c.cursor, c.free⟩ :=
    (if_neg hempty').trans ((if_neg hcursor').trans (if_neg hfree'))
  rw [hlast]
  by_cases hoccupied : c.Lacks .vacantSlot
  · refine .inr ⟨?_, if_neg fun hany => (any_isNone_iff c).mp hany hoccupied⟩
    intro d
    cases d <;> assumption
  · refine .inl ⟨.vacantSlot, ⟨?_, hoccupied⟩, if_pos ((any_isNone_iff c).mpr hoccupied)⟩
    simp [Checkpoint.Defect.earlier, hempty, hcursor, hfree]

/-- **A checkpoint is accepted** as a buffer that is valid and has just this checkpoint. -/
theorem restore_eq_ok_iff {c : Checkpoint α} {b : CircularBuffer α} :
    restore c = .ok b ↔ b.checkpoint = c ∧ b.Valid := by
  constructor
  · intro h
    rcases restore_cases c with ⟨d, -, herror⟩ | ⟨hlacks, hok⟩
    · rw [herror] at h
      nomatch h
    · obtain rfl := Except.ok.inj (hok.symm.trans h)
      exact ⟨rfl, valid_iff_lacks.mpr hlacks⟩
  · rintro ⟨rfl, hvalid⟩
    rcases restore_cases b.checkpoint with ⟨d, hfirst, -⟩ | ⟨-, hok⟩
    · exact absurd (valid_iff_lacks.mp hvalid d) hfirst.not_lacks
    · exact hok

/-- **A checkpoint is refused** for its first defect. -/
theorem restore_eq_error_iff {c : Checkpoint α} {d : Checkpoint.Defect} :
    restore c = .error d ↔ c.FirstDefect d := by
  rcases restore_cases c with ⟨e, hfirst, herror⟩ | ⟨hlacks, hok⟩
  · rw [herror]
    constructor
    · intro h
      exact Except.error.inj h ▸ hfirst
    · exact fun h => congrArg Except.error (hfirst.unique h)
  · rw [hok]
    constructor
    · exact fun h => nomatch h
    · exact fun h => absurd (hlacks d) h.not_lacks

/-- A valid buffer comes back as it was. -/
theorem Valid.restore_checkpoint {b : CircularBuffer α} (h : b.Valid) :
    restore b.checkpoint = .ok b :=
  restore_eq_ok_iff.mpr ⟨rfl, h⟩

end CircularBuffer

end Containers
