import Containers.Proofs.CircularBuffer.Stored
import Containers.Proofs.Json.Severable

/-!
# Stored buffers that are cut short

* `Checkpoint.run_draft_cut` — a written checkpoint runs out wherever it is cut;
* `Checkpoint.deepens_reader` — to read it with more brackets changes nothing, unless there was one
  too many;
* **`cut_stored_form_runs_out`** — so what is left of a stored buffer is never read, nor taken for
  anything else than a text that ends too early or that is too deep.
-/

namespace Containers

open Json

variable {α : Type} [Stored α] [Nested α]

namespace Checkpoint

/-- **A written checkpoint runs out** wherever it is cut, if its brackets may be opened. -/
theorem run_draft_cut (h : Severable α) {c : Checkpoint α}
    (hcursor : c.cursor < UInt64.size) (hfree : c.free < UInt64.size) {depth : Nat}
    (hle : Nested.nesting c.slots ≤ depth) {p : List Char} (hp : Cut p c.text.toList) :
    (shape (α := α) depth).draft.run p = .error .cutShort := by
  have hlist : Severable (List (Option α)) := severable_list (severable_option h)
  obtain ⟨slots, hslots⟩ := hlist.reads c.slots depth hle
  rw [text, String.toList_ofList] at hp
  refine Shape.run_draft_cut (fills_entries hslots hcursor hfree) (List.cons_ne_nil _ _) ?_ hp
  intro entry hentry field hfield d
  simp only [entries, List.mem_cons, List.not_mem_nil, or_false] at hentry
  rcases hentry with rfl | rfl | rfl
  · obtain rfl := Option.some.inj hfield
    exact (hlist.severed c.slots depth hle).refine _
  · obtain rfl := Option.some.inj hfield
    exact (severed_natural hcursor).refine _
  · obtain rfl := Option.some.inj hfield
    exact (severed_natural hfree).refine _

/-- So does the reader of checkpoints, which opens the bracket around the fields, too. -/
theorem run_reader_cut (h : Severable α) {c : Checkpoint α} (hcursor : c.cursor < UInt64.size)
    (hfree : c.free < UInt64.size) {depth : Nat} (hle : Nested.nesting c ≤ depth) {p : List Char}
    (hp : Cut p c.text.toList) : (reader (α := α) depth).run p = .error .cutShort := by
  cases depth with
  | zero => exact absurd hle (Nat.not_succ_le_zero _)
  | succ depth =>
    exact Reader.refine_of_error
      (run_draft_cut h hcursor hfree (Nat.le_of_succ_le_succ hle) hp) _

theorem shallower_shape (h : Severable α) (depth : Nat) :
    (shape (α := α) depth).Shallower (shape (depth + 1)) where
  name := rfl
  blank := rfl
  finish := rfl
  fields := by
    have hslots := h.deepens.orNull.sequenceWithin depth
    exact .cons ⟨rfl, rfl, fun d => hslots.refine fun slots => .ok { d with slots := some slots }⟩
      (.cons (Field.shallower_refl _) (.cons (Field.shallower_refl _) .nil))

/-- To read a checkpoint with more brackets changes nothing, unless there was one too many. -/
theorem deepens_reader (h : Severable α) :
    Reader.Deepens (reader : Nat → Reader (Checkpoint α)) :=
  deepens_recordWithin (shallower_shape h)

/-- **What is left of a written checkpoint** is never read, whatever number of brackets may be
opened. -/
theorem run_reader_cut_or_tooDeep (h : Severable α) {c : Checkpoint α}
    (hcursor : c.cursor < UInt64.size) (hfree : c.free < UInt64.size) {p : List Char}
    (hp : Cut p c.text.toList) (depth : Nat) :
    (reader (α := α) depth).run p = .error .cutShort ∨
      (reader (α := α) depth).run p = .error .tooDeep := by
  -- With brackets for all of the checkpoint it runs out, so with less of them nothing else happens.
  have hall := run_reader_cut h hcursor hfree (Nat.le_max_right depth (Nested.nesting c)) hp
  exact ((deepens_reader h).of_le (Nat.le_max_left _ _)).run_error hall

end Checkpoint

namespace CircularBuffer

omit [Nested α] in
/-- A problem of a checkpoint is one of the buffer that it is restored to. -/
theorem ofText_of_run_error {t : String} {problem : Problem}
    (h : (Checkpoint.reader (α := α) nestingLimit).run t.toList = .error problem) :
    ofText (α := α) t = .error problem ∧ Checkpoint.ofText (α := α) t = .error problem :=
  ⟨Reader.whole_of_error (Reader.refine_of_error h _), Reader.whole_of_error h⟩

/-- **A stored buffer that is cut short is told to be cut short**, wherever the cut is: it is read
neither as a buffer nor as a checkpoint, and no other problem is reported.  So it is with
integers, strings, entries, and all that is made of these as lists and as optional elements.  The
bound on the capacity is that of the 64 bits that the cursor and the number of free slots are read
into, and the bound on the nesting is that of the brackets that a reader opens.  A buffer with more
of them inside each other is not read where it is cut, either: what is left of it ends too early
or has the one bracket too many. -/
theorem cut_stored_form_runs_out :
    (Severable Int64 ∧ Severable String ∧ Severable Entry ∧
      ∀ (α : Type) [Stored α] [Nested α], Severable α →
        Severable (List α) ∧ Severable (Option α)) ∧
    ∀ (α : Type) [Stored α] [Nested α], Severable α → ∀ b : CircularBuffer α, b.Reachable →
      b.capacity < UInt64.size →
      ∀ p : List Char, p <+: b.text.toList → p ≠ b.text.toList →
        (Nested.nesting b.checkpoint ≤ nestingLimit →
          ofText (α := α) (String.ofList p) = .error .cutShort ∧
            Checkpoint.ofText (α := α) (String.ofList p) = .error .cutShort) ∧
        ∃ problem, (problem = .cutShort ∨ problem = .tooDeep) ∧
          ofText (α := α) (String.ofList p) = .error problem ∧
            Checkpoint.ofText (α := α) (String.ofList p) = .error problem := by
  refine ⟨⟨severable_int64, severable_string, severable_entry,
    fun α _ _ h => ⟨severable_list h, severable_option h⟩⟩, ?_⟩
  intro α _ _ h b hreachable hroom p hprefix hne
  have hcut : Cut (String.ofList p).toList b.checkpoint.text.toList := by
    rw [String.toList_ofList, ← text_eq]
    exact cut_of_prefix hprefix hne
  obtain ⟨hcursor, hfree⟩ := hreachable.valid.lt_size hroom
  constructor
  · intro hnesting
    exact ofText_of_run_error (Checkpoint.run_reader_cut h hcursor hfree hnesting hcut)
  · rcases Checkpoint.run_reader_cut_or_tooDeep h hcursor hfree hcut nestingLimit with hrun | hrun
    · exact ⟨.cutShort, .inl rfl, ofText_of_run_error hrun⟩
    · exact ⟨.tooDeep, .inr rfl, ofText_of_run_error hrun⟩

/-- The brace alone is missing, and the text ends in a number. -/
theorem cut_stored_form_runs_out_wrapped :
    wrapped.Reachable ∧ wrapped.capacity < UInt64.size ∧ Severable Int64 ∧
      Nested.nesting wrapped.checkpoint ≤ nestingLimit ∧
      wrapped.text = "\x7b\"slots\":[3,9,1,2],\"cursor\":1,\"free\":1\x7d" ∧
      ofText (α := Int64) "\x7b\"slots\":[3,9,1,2],\"cursor\":1,\"free\":1" = .error .cutShort ∧
      Checkpoint.ofText (α := Int64) "\x7b\"slots\":[3,9,1,2],\"cursor\":1,\"free\":1" =
        .error .cutShort := by
  have hreachable : wrapped.Reachable := .restored restore_wrapped
  obtain ⟨⟨hseverable, -⟩, hcut⟩ := cut_stored_form_runs_out
  have hnesting : Nested.nesting wrapped.checkpoint ≤ nestingLimit := by decide
  obtain ⟨hruns, -⟩ := hcut Int64 hseverable wrapped hreachable (by decide)
    "\x7b\"slots\":[3,9,1,2],\"cursor\":1,\"free\":1".toList (by decide +kernel) (by decide +kernel)
  rw [String.ofList_toList] at hruns
  obtain ⟨hbuffer, hcheckpoint⟩ := hruns hnesting
  exact ⟨hreachable, by decide, hseverable, hnesting, by decide +kernel, hbuffer, hcheckpoint⟩

end CircularBuffer

end Containers
