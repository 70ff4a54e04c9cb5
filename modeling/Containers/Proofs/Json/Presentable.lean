import Containers.Proofs.Json.Members
import Containers.Proofs.Json.Stored

/-!
# Presentations that are read alike

* `Json.Shown` — how the values of a type may be presented, with the instances for integers,
  strings, lists and entries;
* `Json.Presentable` — every presentation of a value is read as that value, and what is written
  for it is one of them;
* `presentable_int64`, `presentable_string`, `presentable_list`, `presentable_entry` — types of
  which this holds;
* **`Presentable.reads_slots`** — then it holds of slots, too, which may hold nothing.
-/

namespace Containers

open Json

/-! ### Presentations -/

/-- How the values of a type may be presented. -/
class Json.Shown (α : Type) where
  Shows : α → List Char → Prop

instance : Shown Int64 where
  Shows n t := t = writeInt n.toInt

instance : Shown String where
  Shows := StringText

instance {α : Type} [Shown α] : Shown (List α) where
  Shows := SequenceText Shown.Shows

namespace Entry

/-- How the fields of an entry may be presented. -/
def ShowsField (e : Entry) (name : String) (t : List Char) : Prop :=
  name = "key" ∧ Shown.Shows e.key t ∨ name = "tag" ∧ Shown.Shows e.tag t

instance : Shown Entry where
  Shows e := RecordText ["key", "tag"] e.ShowsField

end Entry

namespace Json

/-- Every presentation of a value is read as that value if its brackets may be opened, and what is
written for it is one of them. No presentation starts like the word for nothing. -/
structure Presentable (α : Type) [Stored α] [Nested α] [Shown α] : Prop where
  ignoresBlanks : ∀ depth : Nat, (Stored.reader depth : Reader α).IgnoresBlanks
  begins : ∀ (a : α) (t : List Char), Shown.Shows a t → Begins t
  head?_ne : ∀ (a : α) (t : List Char), Shown.Shows a t → t.head? ≠ some 'n'
  reads : ∀ (a : α) (depth : Nat), Nested.nesting a ≤ depth → ∀ t : List Char, Shown.Shows a t →
    (Stored.reader depth : Reader α).Reads t a
  written : ∀ a : α, Shown.Shows a (Stored.write a)

/-! ### Values without parts, and lists -/

theorem presentable_int64 : Presentable Int64 where
  ignoresBlanks _ := Reader.ignoresBlanks_numeric _ _
  begins n t h := by
    obtain rfl : t = writeInt n.toInt := h
    exact begins_writeInt n.toInt
  head?_ne n t h := by
    obtain rfl : t = writeInt n.toInt := h
    exact head?_writeInt_ne n.toInt
  reads n _ _ t h := by
    obtain rfl : t = writeInt n.toInt := h
    exact reads_integer n
  written n := rfl

theorem presentable_string : Presentable String where
  ignoresBlanks _ := Reader.ignoresBlanks_string
  begins s t h := StringText.begins h
  head?_ne s t h := by
    cases h
    exact fun hhead => absurd (Option.some.inj hhead) (by decide)
  reads s _ _ t h := reads_stringText h
  written s := .mk (spelled_written s.toList)

variable {α : Type}

/-- A sequence that is written is one of its presentations, if its elements are. -/
theorem sequenceText_written {Shows : α → List Char → Prop} {write : α → List Char} (as : List α)
    (hwritten : ∀ a ∈ as, Shows a (write a)) : SequenceText Shows as (writeSequence write as) := by
  have hitems : ∀ as : List α, as ≠ [] → (∀ a ∈ as, Shows a (write a)) →
      ItemsText Shows as (separated (as.map write)) := by
    intro as hne hwritten
    induction as with
    | nil => exact absurd rfl hne
    | cons a as ih =>
      have ha := hwritten a List.mem_cons_self
      by_cases hlast : as = []
      · subst hlast
        have hlast := ItemsText.last blanks_nil ha blanks_nil
        rwa [List.append_nil] at hlast
      · have hne' : as.map write ≠ [] := fun h => hlast (List.map_eq_nil_iff.mp h)
        have htail := ih hlast fun b hb => hwritten b (List.mem_cons_of_mem a hb)
        rw [List.map_cons, separated_cons hne']
        exact .more blanks_nil ha blanks_nil htail
  cases as with
  | nil => exact .empty blanks_nil
  | cons a as => exact .items (hitems (a :: as) (List.cons_ne_nil a as) hwritten)

section Nested

variable [Nested α] {Shows : α → List Char → Prop} {reader : Nat → Reader α} {as : List α}
  {depth : Nat} {t : List Char}

/-- **A sequence is read** as its elements if its brackets may be opened. -/
theorem reads_sequenceText_within (hignores : ∀ depth, (reader depth).IgnoresBlanks)
    (hbegins : ∀ a t, Shows a t → Begins t)
    (hreads : ∀ (a : α) (depth : Nat), Nested.nesting a ≤ depth → ∀ t, Shows a t →
      (reader depth).Reads t a)
    (hle : Nested.nesting as ≤ depth) (h : SequenceText Shows as t) :
    (sequenceWithin reader depth).Reads t as := by
  cases depth with
  | zero => exact absurd hle (Nat.not_succ_le_zero _)
  | succ depth =>
    exact reads_sequenceText (hignores depth) hbegins
      (fun a ha => hreads a depth (nesting_list_le_iff.mp hle a ha)) h

end Nested

theorem presentable_list [Stored α] [Nested α] [Shown α] (h : Presentable α) :
    Presentable (List α) where
  ignoresBlanks := Reader.ignoresBlanks_within fun _ => Reader.ignoresBlanks_sequence _
  begins as t ht := SequenceText.begins ht
  head?_ne as t ht := by
    cases ht <;> exact fun hhead => absurd (Option.some.inj hhead) (by decide)
  reads as depth hle t ht := reads_sequenceText_within h.ignoresBlanks h.begins h.reads hle ht
  written as := sequenceText_written as fun a _ => h.written a

/-- **Slots are read** as what they hold, and as nothing where that is what they show. -/
theorem Presentable.reads_slots [Stored α] [Nested α] [Shown α] (h : Presentable α)
    {slots : List (Option α)} {depth : Nat} (hle : Nested.nesting slots ≤ depth) {t : List Char}
    (ht : SequenceText (OptionText Shown.Shows) slots t) :
    (Stored.reader depth : Reader (List (Option α))).Reads t slots := by
  refine reads_sequenceText_within (fun depth => (h.ignoresBlanks depth).orNull)
    (fun o t ho => ho.begins h.begins) (fun o depth hle t ho => ?_) hle ht
  refine reads_optionText h.begins (fun a ha => h.reads a depth ?_) h.head?_ne ho
  rwa [Option.mem_def.mp ha] at hle

end Json

/-! ### Entries -/

namespace Entry

/-- The draft that has just the fields of some names. -/
def draftOf (e : Entry) (seen : List String) : Draft :=
  ⟨if "key" ∈ seen then some e.key else none, if "tag" ∈ seen then some e.tag else none⟩

theorem describes (e : Entry) : shape.Describes e.ShowsField e.draftOf where
  draft_nil := rfl
  filled_iff field hfield seen := by
    rcases List.mem_pair.mp hfield with rfl | rfl
    · show (if "key" ∈ seen then some e.key else none).isSome ↔ "key" ∈ seen
      by_cases h : "key" ∈ seen <;> simp [h]
    · show (if "tag" ∈ seen then some e.tag else none).isSome ↔ "tag" ∈ seen
      by_cases h : "tag" ∈ seen <;> simp [h]
  ignoresBlanks field hfield d := by
    have hinteger : integer.IgnoresBlanks := Reader.ignoresBlanks_numeric _ _
    have hstring : string.IgnoresBlanks := Reader.ignoresBlanks_string
    rcases List.mem_pair.mp hfield with rfl | rfl
    · dsimp only
      exact hinteger.refine _
    · dsimp only
      exact hstring.refine _
  begins name t h := by
    rcases h with ⟨-, h⟩ | ⟨-, h⟩
    · exact presentable_int64.begins _ _ h
    · exact presentable_string.begins _ _ h
  reads field hfield seen t h := by
    rcases List.mem_pair.mp hfield with rfl | rfl
    · have hshows : Shown.Shows e.key t := by simpa [ShowsField] using h
      have hreads : integer.Reads t e.key := presentable_int64.reads _ 0 (Nat.le_refl 0) _ hshows
      dsimp only
      refine hreads.refine _ ?_
      simp [draftOf]
    · have hshows : Shown.Shows e.tag t := by simpa [ShowsField] using h
      have hreads : string.Reads t e.tag := presentable_string.reads _ 0 (Nat.le_refl 0) _ hshows
      dsimp only
      refine hreads.refine _ ?_
      simp [draftOf]

theorem finish_draftOf (e : Entry) {seen : List String} (h : ∀ name ∈ shape.names, name ∈ seen) :
    shape.finish (e.draftOf seen) = .ok e := by
  have hkey : "key" ∈ seen := h "key" (by decide)
  have htag : "tag" ∈ seen := h "tag" (by decide)
  rw [draftOf, if_pos hkey, if_pos htag]
  rfl

theorem presentable_entry : Presentable Entry where
  ignoresBlanks := Reader.ignoresBlanks_within fun _ => (Shape.ignoresBlanks_draft shape).refine _
  begins e t h := RecordText.begins h
  head?_ne e t h := RecordText.head?_ne h
  reads e depth hle t h := by
    cases depth with
    | zero => exact absurd hle (Nat.not_succ_le_zero _)
    | succ depth => exact e.describes.reads_recordText (fun _ => e.finish_draftOf) h
  written e := by
    have hnodup : ["key", "tag"].Nodup := by decide
    refine recordText_written [("key", Stored.write e.key), ("tag", Stored.write e.tag)]
      (List.cons_ne_nil _ _) ?_ hnodup
    intro entry hentry
    rcases List.mem_pair.mp hentry with rfl | rfl
    · exact .inl ⟨rfl, presentable_int64.written e.key⟩
    · exact .inr ⟨rfl, presentable_string.written e.tag⟩

end Entry

end Containers
