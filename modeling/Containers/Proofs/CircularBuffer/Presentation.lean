import Containers.CircularBuffer.Stored
import Containers.Proofs.Json.Presentable

/-!
# Presentations of checkpoints

A checkpoint is read alike from every text that presents it: as a map with its fields in any order
and other members between them, or as the sequence of its fields, with blanks wherever they may
stand.

* `Checkpoint.ShowsField` — how the fields of a checkpoint may be presented;
* `finish_draftOf` — the first field that has not been seen is missing;
* **`reads_any_presentation`** — what is read of a map, of a sequence, and of a map with a second
  key for one of the fields.
-/

namespace Containers.Checkpoint

open Json

variable {α : Type}

/-- The fields of a checkpoint, in order. -/
def fieldNames : List String :=
  ["slots", "cursor", "free"]

/-- How the fields of a checkpoint may be presented. -/
def ShowsField [Shown α] (c : Checkpoint α) (name : String) (t : List Char) : Prop :=
  name = "slots" ∧ SequenceText (OptionText Shown.Shows) c.slots t ∨
    name = "cursor" ∧ t = writeNat c.cursor ∨ name = "free" ∧ t = writeNat c.free

/-- The draft that has just the fields of some names. -/
def draftOf (c : Checkpoint α) (seen : List String) : Draft α :=
  ⟨if "slots" ∈ seen then some c.slots else none,
    if "cursor" ∈ seen then some c.cursor else none,
    if "free" ∈ seen then some c.free else none⟩

variable [Stored α] {depth : Nat}

/-- **The first field that has not been seen** is missing, and nothing is if all have been. -/
theorem finish_draftOf (c : Checkpoint α) (seen : List String) :
    (shape depth).finish (c.draftOf seen) =
      match fieldNames.find? (· ∉ seen) with
      | none => .ok c
      | some name => .error (.missingField name) := by
  by_cases hslots : "slots" ∈ seen
  · by_cases hcursor : "cursor" ∈ seen
    · by_cases hfree : "free" ∈ seen
      · simp [draftOf, fieldNames, shape, hslots, hcursor, hfree]
      · simp [draftOf, fieldNames, shape, hslots, hcursor, hfree]
    · simp [draftOf, fieldNames, shape, hslots, hcursor]
  · simp [draftOf, fieldNames, shape, hslots]

variable [Nested α] [Shown α]

theorem describes (h : Presentable α) {c : Checkpoint α} (hcursor : c.cursor < UInt64.size)
    (hfree : c.free < UInt64.size) (hle : Nested.nesting c.slots ≤ depth) :
    (shape depth).Describes c.ShowsField c.draftOf where
  draft_nil := rfl
  filled_iff field hfield seen := by
    simp only [shape, List.mem_cons, List.not_mem_nil, or_false] at hfield
    rcases hfield with rfl | rfl | rfl
    · by_cases hmem : "slots" ∈ seen <;> simp [draftOf, hmem]
    · by_cases hmem : "cursor" ∈ seen <;> simp [draftOf, hmem]
    · by_cases hmem : "free" ∈ seen <;> simp [draftOf, hmem]
  ignoresBlanks field hfield d := by
    simp only [shape, List.mem_cons, List.not_mem_nil, or_false] at hfield
    rcases hfield with rfl | rfl | rfl
    · dsimp only
      exact (Reader.ignoresBlanks_within (fun _ => Reader.ignoresBlanks_sequence _) depth).refine _
    · dsimp only
      exact (Reader.ignoresBlanks_numeric _ _).refine _
    · dsimp only
      exact (Reader.ignoresBlanks_numeric _ _).refine _
  begins name t ht := by
    rcases ht with ⟨-, ht⟩ | ⟨-, rfl⟩ | ⟨-, rfl⟩
    · exact ht.begins
    · exact begins_writeNat _
    · exact begins_writeNat _
  reads field hfield seen t ht := by
    simp only [shape, List.mem_cons, List.not_mem_nil, or_false] at hfield
    rcases hfield with rfl | rfl | rfl
    · have hslots : SequenceText (OptionText Shown.Shows) c.slots t := by
        simpa [ShowsField] using ht
      dsimp only
      refine (h.reads_slots hle hslots).refine _ ?_
      simp [draftOf]
    · obtain rfl : t = writeNat c.cursor := by simpa [ShowsField] using ht
      dsimp only
      refine (reads_natural hcursor).refine _ ?_
      simp [draftOf]
    · obtain rfl : t = writeNat c.free := by simpa [ShowsField] using ht
      dsimp only
      refine (reads_natural hfree).refine _ ?_
      simp [draftOf]

/-- What is written is one of the presentations. -/
theorem recordText_written_checkpoint (h : Presentable α) (c : Checkpoint α) :
    RecordText fieldNames c.ShowsField c.text.toList := by
  have hnodup : fieldNames.Nodup := by decide
  rw [text, String.toList_ofList]
  refine recordText_written [("slots", writeSequence writeOption c.slots),
    ("cursor", writeNat c.cursor), ("free", writeNat c.free)] (List.cons_ne_nil _ _) ?_ hnodup
  intro entry hentry
  simp only [List.mem_cons, List.not_mem_nil, or_false] at hentry
  rcases hentry with rfl | rfl | rfl
  · refine .inl ⟨rfl, sequenceText_written c.slots fun o _ => ?_⟩
    cases o with
    | none => exact .absent
    | some a => exact .present (h.written a)
  · exact .inr (.inl ⟨rfl, rfl⟩)
  · exact .inr (.inr ⟨rfl, rfl⟩)

/-- **A checkpoint is read alike from every text that presents it**, with elements that are
integers, strings, entries or lists of what is presentable.  What is written is one of these texts.
From a map, the fields may come in any order and with any other members between them.  The first
field that such a map lacks is missing, and a second key of a field is reported where it stands,
whatever comes behind it.

The bounds are those of the 64 bits that the two numbers have, and of the brackets that a reader
opens.  The brackets in other members are not counted. -/
theorem reads_any_presentation :
    (Presentable Int64 ∧ Presentable String ∧ Presentable Entry ∧
      ∀ (α : Type) [Stored α] [Nested α] [Shown α], Presentable α → Presentable (List α)) ∧
    ∀ (α : Type) [Stored α] [Nested α] [Shown α], Presentable α → ∀ c : Checkpoint α,
      c.cursor < UInt64.size → c.free < UInt64.size → Nested.nesting c ≤ nestingLimit →
      RecordText fieldNames c.ShowsField c.text.toList ∧
      ∀ w t w' : List Char, Blanks w → Blanks w' →
        (TupleText fieldNames c.ShowsField t → ofText (String.ofList (w ++ (t ++ w'))) = .ok c) ∧
        (∀ seen, MapText fieldNames c.ShowsField seen t →
          ofText (String.ofList (w ++ (t ++ w'))) =
            match fieldNames.find? (· ∉ seen) with
            | none => .ok c
            | some name => .error (.unfit (.missingField name))) ∧
        ∀ name rest, RepeatText fieldNames c.ShowsField name t →
          ofText (α := α) (String.ofList (w ++ (t ++ rest))) =
            .error (.unfit (.duplicateField name)) := by
  refine ⟨⟨presentable_int64, presentable_string, Entry.presentable_entry,
    fun α _ _ _ => presentable_list⟩, ?_⟩
  intro α _ _ _ h c hcursor hfree hnesting
  refine ⟨recordText_written_checkpoint h c, fun w t w' hw hw' => ?_⟩
  have hslots : Nested.nesting c.slots ≤ nestingLimit - 1 := Nat.le_of_succ_le_succ hnesting
  have hdescribes := describes h hcursor hfree hslots
  have hignores := Shape.ignoresBlanks_draft (shape (α := α) (nestingLimit - 1))
  simp only [ofText, reader_nestingLimit, Shape.reader]
  refine ⟨fun ht => ?_, fun seen ht => ?_, fun name rest ht => ?_⟩
  · rw [(hdescribes.reads_tupleText ht).whole_refine hignores _ hw hw', finish_draftOf]
    rfl
  · rw [(hdescribes.reads_mapText ht).whole_refine hignores _ hw hw', finish_draftOf]
    cases fieldNames.find? (· ∉ seen) <;> rfl
  · have hrun := hdescribes.run_repeatText ht rest
    rw [← hignores.run_append hw] at hrun
    refine Reader.whole_of_error (Reader.refine_of_error ?_ _)
    rw [String.toList_ofList]
    exact hrun

/-- One slot of two is in use. -/
def halfFull : Checkpoint Int64 :=
  ⟨[some 1, none], 1, 1⟩

/-- The last field comes first, with some other member behind it.  The two that are left may follow,
or the brace, or the first field once more. -/
theorem reads_any_presentation_reordered :
    Presentable Int64 ∧ Nested.nesting halfFull ≤ nestingLimit ∧ Blanks [' '] ∧
      ofText " \x7b\"free\":1,\"x\":[\x7b\x7d],\"cursor\":1,\"slots\":[1 ,null]\x7d" =
        .ok halfFull ∧
      ofText (α := Int64) " \x7b\"free\":1,\"x\":[\x7b\x7d]\x7d" =
        .error (.unfit (.missingField "slots")) ∧
      ofText (α := Int64) " \x7b\"free\":1,\"x\":[\x7b\x7d],\"free\"?" =
        .error (.unfit (.duplicateField "free")) := by
  have hfree : MemberText fieldNames halfFull.ShowsField [] (writeMember ("free", ['1']))
      ["free"] :=
    memberText_written (by decide) (by decide) (.inr (.inr ⟨rfl, rfl⟩))
  have hvalue : Grammar none ['[', '\x7b', '\x7d', ']'] :=
    .bracket (b := .square) (.last .square blanks_nil (.empty .curly blanks_nil) blanks_nil)
  have hother : MemberText fieldNames halfFull.ShowsField ["free"] _ ["free"] :=
    .other (by decide) (keyText_quoted "x") blanks_nil blanks_nil hvalue
  have hcursor : MemberText fieldNames halfFull.ShowsField ["free"]
      (writeMember ("cursor", ['1'])) _ :=
    memberText_written (by decide) (by decide) (.inr (.inl ⟨rfl, rfl⟩))
  have hblank : Blanks [' '] := by decide
  have hone : OptionText Shown.Shows (some (1 : Int64)) ['1'] := .present rfl
  have hitems : SequenceText (OptionText Shown.Shows) halfFull.slots _ :=
    .items (.more blanks_nil hone hblank (.last blanks_nil .absent blanks_nil))
  have hslots : MemberText fieldNames halfFull.ShowsField ["cursor", "free"] _ _ :=
    memberText_written (by decide) (by decide) (.inl ⟨rfl, hitems⟩)
  have hall := MembersText.more hfree blanks_nil
    (.more hother blanks_nil (.more hcursor blanks_nil (.last hslots blanks_nil)))
  have hsome := MembersText.more hfree blanks_nil (.last hother blanks_nil)
  obtain ⟨⟨hpresentable, -⟩, hreads⟩ := reads_any_presentation
  have hnesting : Nested.nesting halfFull ≤ nestingLimit := by decide
  obtain ⟨-, hreads⟩ := hreads Int64 hpresentable halfFull (by decide) (by decide) hnesting
  have hreads := hreads [' ']
  refine ⟨hpresentable, hnesting, hblank, ?_, ?_, ?_⟩
  · obtain ⟨-, hmap, -⟩ := hreads _ [] hblank blanks_nil
    exact (congrArg ofText (by decide +kernel)).trans (hmap _ (.members hall))
  · obtain ⟨-, hmap, -⟩ := hreads _ [] hblank blanks_nil
    exact (congrArg ofText (by decide +kernel)).trans (hmap _ (.members hsome))
  · obtain ⟨-, -, hrepeat⟩ := hreads _ [] hblank blanks_nil
    have hagain := hrepeat "free" ['?'] (.mk hsome (by decide) (keyText_quoted "free"))
    exact (congrArg ofText (by decide +kernel)).trans hagain

end Containers.Checkpoint
