import Containers.Proofs.CircularBuffer.Reachable
import Containers.Proofs.Json.Stored

/-!
# Reading stored buffers

A buffer is stored slot by slot, with the word for nothing where a slot holds nothing.  Whether it
comes back as it was therefore hangs on whether that word is the form of an element, too.

* `text_eq` — a buffer is written as its checkpoint is;
* `Checkpoint.settled`, `CircularBuffer.settled` — what is left of a checkpoint and of a buffer:
  slots with an element that is written as the word for nothing are empty;
* **`reads_checkpoint`** and **`ofText_text`** — what is left is what is read, and it is restored;
* **`goesTooDeep_checkpoint`** — a checkpoint is not read if it has too many brackets inside each
  other;
* `ofText_text_of_left`, `ofText_text_of_not_left` — that is a buffer if all elements in use are
  left;
* **`stored_form_reads_back`** — all comes back where no element is written as the word for nothing;
  `Stacked` — elements with as many brackets as may be opened, and with one more;
* **`stored_form_of_optional_elements`** — what comes back of a buffer of optional integers;
* `stored_form_loses_null_element` — an element in use that does not.
-/

namespace Containers

open Json

variable {α : Type}

/-! ### Checkpoints -/

namespace Checkpoint

variable [Stored α] {depth : Nat}

/-- What is left of a checkpoint when it is stored: an element that is written as the word for
nothing is taken for nothing. -/
def settled (c : Checkpoint α) : Checkpoint α :=
  { c with slots := c.slots.map settle }

theorem settled_eq [Nested α] (h : Faithful α) (c : Checkpoint α) : c.settled = c := by
  have hslots : c.slots.map settle = c.slots := by
    rw [List.map_congr_left fun o _ => h.settle_eq o, List.map_id']
  rw [settled, hslots]

/-- The members of a checkpoint as it is written. -/
def entries (c : Checkpoint α) : List (String × List Char) :=
  [("slots", writeSequence writeOption c.slots), ("cursor", writeNat c.cursor),
    ("free", writeNat c.free)]

/-- The members of a checkpoint fill the draft of what its slots are read as and its numbers. -/
theorem fills_entries {c : Checkpoint α} {slots : List (Option α)}
    (hslots : (Stored.reader depth : Reader (List (Option α))).Reads
      (writeSequence writeOption c.slots) slots)
    (hcursor : c.cursor < UInt64.size) (hfree : c.free < UInt64.size) :
    (shape depth).Fills (shape depth).blank c.entries
      ⟨some slots, some c.cursor, some c.free⟩ := by
  have hslots := hslots.refine (fun slots => .ok (⟨some slots, none, none⟩ : Draft α)) rfl
  have hcursor := (reads_natural hcursor).refine
    (fun n => .ok (⟨some slots, some n, none⟩ : Draft α)) rfl
  have hfree := (reads_natural hfree).refine
    (fun n => .ok (⟨some slots, some c.cursor, some n⟩ : Draft α)) rfl
  exact .cons rfl rfl hslots (.cons rfl rfl hcursor (.cons rfl rfl hfree .nil))

variable [Nested α] {c : Checkpoint α}

/-- **A written checkpoint** is read as what is left of it, if all its brackets may be opened. -/
theorem reads_checkpoint (h : Readable α) (hcursor : c.cursor < UInt64.size)
    (hfree : c.free < UInt64.size) (hle : Nested.nesting c ≤ depth) :
    (reader depth).Reads (writeRecord c.entries) c.settled := by
  cases depth with
  | zero => exact absurd hle (Nat.not_succ_le_zero _)
  | succ depth =>
    have hslots := reads_sequenceWithin (Nat.le_of_succ_le_succ hle)
      (begins_writeOption h.begins) h.reads_option
    exact Shape.reads_record (fills_entries hslots hcursor hfree) (List.cons_ne_nil _ _) rfl

/-- Nothing is lost of a checkpoint whose elements are never written as the word for nothing. -/
theorem ofText_text (h : Faithful α) (hcursor : c.cursor < UInt64.size)
    (hfree : c.free < UInt64.size) (hnesting : Nested.nesting c ≤ nestingLimit) :
    ofText c.text = .ok c := by
  have hreads := reads_checkpoint h.toReadable hcursor hfree hnesting
  rw [settled_eq h] at hreads
  exact hreads.whole

/-- **A written checkpoint goes too deep** if not all its brackets may be opened. -/
theorem goesTooDeep_checkpoint (h : Faithful α) (hlt : depth < Nested.nesting c) :
    (reader depth : Reader (Checkpoint α)).GoesTooDeep (writeRecord c.entries) := by
  cases depth with
  | zero => exact Shape.goesTooDeep_recordWithin_zero _ _
  | succ depth =>
    have hslots := goesTooDeep_sequenceWithin (Nat.lt_of_succ_lt_succ hlt)
      (begins_writeOption h.begins) (fun o depth hle => ⟨_, h.toReadable.reads_option o depth hle⟩)
      h.goesTooDeep_option
    have hfill := hslots.refine fun slots => .ok (⟨some slots, none, none⟩ : Draft α)
    exact Shape.goesTooDeep_record rfl rfl hfill _

end Checkpoint

/-! ### Buffers -/

namespace CircularBuffer

section Stored

variable [Stored α] [Nested α] {b : CircularBuffer α}

omit [Nested α] in
/-- A buffer is written as its checkpoint is. -/
theorem text_eq (b : CircularBuffer α) : b.text = b.checkpoint.text := by
  rw [text, Array.toList_map]
  rfl

/-- What is left of a buffer when it is stored. -/
def settled (b : CircularBuffer α) : CircularBuffer α :=
  b.mapSlots settle

omit [Nested α] in
theorem element?_settled (b : CircularBuffer α) (offset : Nat) :
    b.settled.element? offset = settle (b.element? offset) :=
  element?_mapSlots rfl b offset

omit [Nested α] in
theorem checkpoint_settled (b : CircularBuffer α) :
    b.settled.checkpoint = b.checkpoint.settled := by
  have hslots : b.settled.slots.toList = b.slots.toList.map settle := Array.toList_map
  rw [checkpoint, hslots]
  rfl

omit [Stored α] [Nested α] in
/-- The cursor of a valid buffer and the number of its free slots can be read back. -/
theorem Valid.lt_size (h : b.Valid) (hroom : b.capacity < UInt64.size) :
    b.cursor < UInt64.size ∧ b.free < UInt64.size :=
  ⟨Nat.lt_trans h.cursor_lt hroom, Nat.lt_of_le_of_lt h.free_le hroom⟩

/-- **What is read of a stored buffer** is what is left of it, as long as that is a buffer. -/
theorem ofText_text (h : Readable α) (hvalid : b.Valid) (hroom : b.capacity < UInt64.size)
    (hnesting : Nested.nesting b.checkpoint ≤ nestingLimit) :
    ofText b.text = (restore b.settled.checkpoint).mapError fun d =>
      .unfit (.rejected d.message) := by
  obtain ⟨hcursor, hfree⟩ := hvalid.lt_size hroom
  have hreads := Checkpoint.reads_checkpoint (c := b.checkpoint) h hcursor hfree hnesting
  rw [text_eq, checkpoint_settled]
  cases hrestore : restore b.checkpoint.settled with
  | error d =>
    refine hreads.whole_refine_error ?_
    rw [hrestore]
    rfl
  | ok c =>
    refine Reader.Reads.whole (hreads.refine _ ?_)
    rw [hrestore]
    rfl

/-- What is left is a buffer if every element is. -/
theorem Valid.ofText_text_of_left (h : Readable α) (hvalid : b.Valid)
    (hroom : b.capacity < UInt64.size) (hnesting : Nested.nesting b.checkpoint ≤ nestingLimit)
    (hleft : ∀ offset < b.size, (settle (b.element? offset)).isSome) :
    ofText b.text = .ok b.settled := by
  have hcapacity : b.settled.capacity = b.capacity := capacity_mapSlots _ b
  have hsettled : b.settled.Valid := by
    constructor
    case capacity_pos => exact hcapacity.symm ▸ hvalid.capacity_pos
    case cursor_lt => exact hcapacity.symm ▸ hvalid.cursor_lt
    case free_le => exact hcapacity.symm ▸ hvalid.free_le
    case occupied =>
      intro offset hlt
      rw [size, hcapacity] at hlt
      rw [element?_settled]
      exact hleft offset hlt
  rw [ofText_text h hvalid hroom hnesting, hsettled.restore_checkpoint]
  rfl

/-- What is left is no buffer if an element in use is not. -/
theorem Valid.ofText_text_of_not_left (h : Readable α) (hvalid : b.Valid)
    (hroom : b.capacity < UInt64.size) (hnesting : Nested.nesting b.checkpoint ≤ nestingLimit)
    {offset : Nat} (hlt : offset < b.size)
    (hnone : settle (b.element? offset) = none) :
    ofText (α := α) b.text =
      .error (.unfit (.rejected Checkpoint.Defect.vacantSlot.message)) := by
  have hlength : b.settled.slots.toList.length = b.capacity := capacity_mapSlots settle b
  have hdefect : b.settled.checkpoint.FirstDefect .vacantSlot := by
    constructor
    case lacks_earlier =>
      -- The numbers are those of a valid buffer.
      intro e he
      cases e with
      | noSlots => exact List.ne_nil_of_length_pos (hlength.symm ▸ hvalid.capacity_pos)
      | cursorPastEnd => exact hvalid.cursor_lt.trans_eq hlength.symm
      | tooManyFree => exact hvalid.free_le.trans_eq hlength.symm
      | vacantSlot => exact absurd he (by decide)
    case not_lacks =>
      intro hlacks
      have hlt' : offset < b.settled.slots.toList.length - b.free := hlength.symm ▸ hlt
      have hsome : (b.settled.element? offset).isSome :=
        (b.settled.checkpoint.isSome_element?_iff offset).mpr (hlacks offset hlt')
      rw [element?_settled, hnone] at hsome
      nomatch hsome
  rw [ofText_text h hvalid hroom hnesting, restore_eq_error_iff.mpr hdefect]
  rfl

end Stored

/-- **A stored buffer comes back as it was**, whatever its elements are, as long as none of them
is written as the word for nothing.  So it is with integers, strings, entries, and lists of what
is read back.  The text is that of the checkpoint, which comes back from it, too.

The bound on the capacity is that of the 64 bits that the cursor and the number of free slots are
read into.  The bound on the nesting is that of the brackets that a reader opens: the checkpoint has
two around every element, so that an element may have as many inside each other as are left.  A
text with more is read neither as a buffer nor as a checkpoint, but told to be too deep. -/
theorem stored_form_reads_back :
    (Faithful Int64 ∧ Faithful String ∧ Faithful Entry ∧
      ∀ (α : Type) [Stored α] [Nested α], Faithful α → Faithful (List α)) ∧
    (∀ (α : Type) [Nested α] (c : Checkpoint α) (depth : Nat), Nested.nesting c ≤ depth + 2 ↔
      ∀ a, some a ∈ c.slots → Nested.nesting a ≤ depth) ∧
    ∀ (α : Type) [Stored α] [Nested α], Faithful α → ∀ b : CircularBuffer α, b.Reachable →
      b.capacity < UInt64.size →
        b.text = b.checkpoint.text ∧
        (Nested.nesting b.checkpoint ≤ nestingLimit →
          ofText b.text = .ok b ∧ Checkpoint.ofText b.text = .ok b.checkpoint) ∧
        (nestingLimit < Nested.nesting b.checkpoint →
          ofText (α := α) b.text = .error .tooDeep ∧
            Checkpoint.ofText (α := α) b.text = .error .tooDeep) := by
  refine ⟨⟨faithful_int64, faithful_string, faithful_entry, ?_⟩, ?_, ?_⟩
  · exact fun α _ _ h => faithful_list h.toReadable
  · exact fun α _ c depth => Checkpoint.nesting_le_iff
  · intro α _ _ h b hreachable hroom
    have hvalid := hreachable.valid
    refine ⟨text_eq b, fun hle => ?_, fun hlt => ?_⟩
    · obtain ⟨hcursor, hfree⟩ := hvalid.lt_size hroom
      refine ⟨?_, ?_⟩
      · rw [ofText_text h.toReadable hvalid hroom hle, checkpoint_settled,
          Checkpoint.settled_eq h, hvalid.restore_checkpoint]
        rfl
      · rw [text_eq]
        exact Checkpoint.ofText_text h hcursor hfree hle
    · have hdeep := Checkpoint.goesTooDeep_checkpoint h hlt
      rw [text_eq]
      exact ⟨(hdeep.refine _).whole, hdeep.whole⟩

/-- Integers in so many lists inside each other. -/
def Stacked : Nat → Type
  | 0 => Int64
  | n + 1 => List (Stacked n)

namespace Stacked

instance stored : (n : Nat) → Stored (Stacked n)
  | 0 => inferInstanceAs (Stored Int64)
  | n + 1 =>
    have := stored n
    inferInstanceAs (Stored (List (Stacked n)))

instance nested : (n : Nat) → Nested (Stacked n)
  | 0 => inferInstanceAs (Nested Int64)
  | n + 1 =>
    have := nested n
    inferInstanceAs (Nested (List (Stacked n)))

theorem faithful : ∀ n, Faithful (Stacked n)
  | 0 => faithful_int64
  | n + 1 => faithful_list (faithful n).toReadable

/-- Zero in so many lists inside each other. -/
def zero : (n : Nat) → Stacked n
  | 0 => (0 : Int64)
  | n + 1 => [zero n]

theorem nesting_zero : ∀ n, Nested.nesting (zero n) = n
  | 0 => rfl
  | n + 1 => by
    show max (Nested.nesting (zero n)) 0 + 1 = n + 1
    rw [nesting_zero, Nat.max_zero]

/-- A buffer of one slot that holds zero in so many lists. -/
def slot (n : Nat) : CircularBuffer (Stacked n) :=
  ⟨#[some (zero n)], 0, 0⟩

theorem nesting_slot (n : Nat) : Nested.nesting (slot n).checkpoint = n + 2 := by
  show max (Nested.nesting (zero n)) 0 + 1 + 1 = n + 2
  rw [nesting_zero, Nat.max_zero]

end Stacked

/-- Three elements around the end of four slots are read back, and so is one with 125 brackets, but
not one with 126. -/
theorem stored_form_reads_back_wrapped :
    wrapped.Reachable ∧ wrapped.capacity < UInt64.size ∧ Faithful Int64 ∧
      Nested.nesting wrapped.checkpoint ≤ nestingLimit ∧ ofText wrapped.text = .ok wrapped ∧
      Checkpoint.ofText (α := Int64) wrapped.text = .ok ⟨[some 3, some 9, some 1, some 2], 1, 1⟩ ∧
      Nested.nesting (Stacked.slot 125).checkpoint ≤ nestingLimit ∧
      ofText (Stacked.slot 125).text = .ok (Stacked.slot 125) ∧
      nestingLimit < Nested.nesting (Stacked.slot 126).checkpoint ∧
      ofText (α := Stacked 126) (Stacked.slot 126).text = .error .tooDeep := by
  have hreachable : wrapped.Reachable := .restored restore_wrapped
  have hnesting : Nested.nesting wrapped.checkpoint ≤ nestingLimit := by decide
  have hslot : ∀ n, (Stacked.slot n).Reachable := fun n =>
    .restored (c := (Stacked.slot n).checkpoint) rfl
  have hfits : Nested.nesting (Stacked.slot 125).checkpoint ≤ nestingLimit := by
    rw [Stacked.nesting_slot]
    decide
  have hdeep : nestingLimit < Nested.nesting (Stacked.slot 126).checkpoint := by
    rw [Stacked.nesting_slot]
    decide
  obtain ⟨⟨hfaithful, -⟩, -, hreads⟩ := stored_form_reads_back
  obtain ⟨-, hshallow, -⟩ := hreads Int64 hfaithful wrapped hreachable (by decide)
  obtain ⟨-, hshallow', -⟩ := hreads _ (Stacked.faithful 125) _ (hslot 125) (by decide)
  obtain ⟨-, -, htooDeep⟩ := hreads _ (Stacked.faithful 126) _ (hslot 126) (by decide)
  exact ⟨hreachable, by decide, hfaithful, hnesting, (hshallow hnesting).1, (hshallow hnesting).2,
    hfits, (hshallow' hfits).1, hdeep, (htooDeep hdeep).1⟩

/-! ### Optional elements -/

section Optional

variable {b : CircularBuffer (Option α)}

theorem settled_option [Stored α] [Nested α] (h : Faithful α) (b : CircularBuffer (Option α)) :
    b.settled = b.mapSlots fun o => o.filter Option.isSome := by
  rw [settled, funext (settle_option h)]

theorem none_mem_toList_iff (b : CircularBuffer (Option α)) :
    none ∈ b.toList ↔ ∃ offset < b.size, b.element? offset = some none := by
  rw [toList, List.mem_filterMap]
  simp only [List.mem_range]

theorem some_none_mem_slots (h : none ∈ b.toList) : some none ∈ b.slots := by
  obtain ⟨offset, -, hnone⟩ := b.none_mem_toList_iff.mp h
  exact Array.mem_of_getElem? (Option.join_eq_some_iff.mp hnone)

/-- **A stored buffer of optional values** comes back as it was just if none of its slots holds
nothing as an element.  Such an element in use makes the text unfit; one that is out of use is
forgotten, and its slot comes back empty. -/
theorem stored_form_of_optional_elements [Stored α] [Nested α] (h : Faithful α)
    (hreachable : b.Reachable) (hroom : b.capacity < UInt64.size)
    (hnesting : Nested.nesting b.checkpoint ≤ nestingLimit) :
    (ofText b.text = .ok b ↔ some none ∉ b.slots) ∧
    (none ∈ b.toList → ofText (α := Option α) b.text =
      .error (.unfit (.rejected Checkpoint.Defect.vacantSlot.message))) ∧
    (none ∉ b.toList → ofText b.text = .ok (b.mapSlots fun o => o.filter Option.isSome)) := by
  have hreadable := readable_option h
  have hvalid := hreachable.valid
  have hlost : none ∈ b.toList → ofText (α := Option α) b.text =
      .error (.unfit (.rejected Checkpoint.Defect.vacantSlot.message)) := by
    intro hmem
    obtain ⟨offset, hlt, hnone⟩ := b.none_mem_toList_iff.mp hmem
    refine hvalid.ofText_text_of_not_left hreadable hroom hnesting hlt ?_
    rw [hnone, settle_option h]
    rfl
  have hleft : none ∉ b.toList →
      ofText b.text = .ok (b.mapSlots fun o => o.filter Option.isSome) := by
    intro hmem
    rw [← settled_option h]
    refine hvalid.ofText_text_of_left hreadable hroom hnesting fun offset hlt => ?_
    obtain ⟨a, ha⟩ := Option.isSome_iff_exists.mp (hvalid.occupied offset hlt)
    -- The slot is occupied, and what it holds is not the value for nothing.
    cases a with
    | none => exact absurd (b.none_mem_toList_iff.mpr ⟨offset, hlt, ha⟩) hmem
    | some a => rw [ha, settle_option h]; rfl
  refine ⟨⟨?_, ?_⟩, hlost, hleft⟩
  · intro hok hslot
    have hmem : none ∉ b.toList := fun hmem => nomatch (hlost hmem).symm.trans hok
    have hsame : (b.mapSlots fun o => o.filter Option.isSome) = b :=
      Except.ok.inj ((hleft hmem).symm.trans hok)
    rw [← hsame] at hslot
    obtain ⟨o, -, ho⟩ := Array.mem_map.mp hslot
    nomatch (Option.filter_eq_some_iff.mp ho).2
  · intro hslot
    rw [hleft fun hmem => hslot (some_none_mem_slots hmem), mapSlots]
    have hkept : ∀ o ∈ b.slots, o.filter Option.isSome = id o := by
      rintro (_ | _ | a) ho
      · rfl
      · exact absurd ho hslot
      · rfl
    rw [Array.map_congr_left hkept, Array.map_id]

/-- The oldest of two slots holds nothing as an element, in use or not. -/
def nullThenSeven (free : Nat) : CircularBuffer (Option Int64) :=
  ⟨#[some none, some (some 7)], 0, free⟩

theorem stored_form_of_optional_elements_nullThenSeven :
    (nullThenSeven 1).Reachable ∧ (nullThenSeven 1).capacity < UInt64.size ∧
      Nested.nesting (nullThenSeven 1).checkpoint ≤ nestingLimit ∧ none ∉ (nullThenSeven 1).toList ∧
      ofText (nullThenSeven 1).text = .ok ⟨#[none, some (some (7 : Int64))], 0, 1⟩ := by
  have hreachable : (nullThenSeven 1).Reachable :=
    .restored (c := (nullThenSeven 1).checkpoint) rfl
  have hmem : none ∉ (nullThenSeven 1).toList := by decide
  obtain ⟨-, -, hleft⟩ :=
    stored_form_of_optional_elements faithful_int64 hreachable (by decide) (by decide)
  refine ⟨hreachable, by decide, by decide, hmem, ?_⟩
  rw [hleft hmem, mapSlots, nullThenSeven, List.map_toArray]
  rfl

/-- With its first slot in use, such a buffer is not read back at all, and with that slot out of use
it comes back as another. -/
theorem stored_form_loses_null_element :
    ((nullThenSeven 0).Reachable ∧
      (nullThenSeven 0).text = "\x7b\"slots\":[null,7],\"cursor\":0,\"free\":0\x7d" ∧
      ofText (α := Option Int64) (nullThenSeven 0).text =
        .error (.unfit (.rejected Checkpoint.Defect.vacantSlot.message))) ∧
    (nullThenSeven 1).Reachable ∧ ofText (nullThenSeven 1).text ≠ .ok (nullThenSeven 1) := by
  have hreadable := readable_option faithful_int64
  have hinUse : restore (nullThenSeven 0).checkpoint = .ok (nullThenSeven 0) := rfl
  have houtOfUse : restore (nullThenSeven 1).checkpoint = .ok (nullThenSeven 1) := rfl
  refine ⟨⟨.restored hinUse, by decide +kernel, ?_⟩, .restored houtOfUse, ?_⟩
  · have hvalid := (restore_eq_ok_iff.mp hinUse).2
    have hlt : 0 < (nullThenSeven 0).size := by decide
    exact hvalid.ofText_text_of_not_left hreadable (by decide) (by decide) hlt rfl
  · have hvalid := (restore_eq_ok_iff.mp houtOfUse).2
    have hsettled : (nullThenSeven 1).settled.slots = #[none, some (some 7)] := List.map_toArray
    rw [hvalid.ofText_text_of_left hreadable (by decide) (by decide) (by decide)]
    intro hsame
    rw [Except.ok.inj hsame] at hsettled
    exact absurd hsettled (by decide)

end Optional

end CircularBuffer

end Containers
