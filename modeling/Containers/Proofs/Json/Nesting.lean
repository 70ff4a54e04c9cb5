import Containers.CircularBuffer.Stored
import Containers.Element.Entry
import Containers.Proofs.Json.Record

/-!
# Brackets inside each other

A reader counts the brackets that are open, and refuses one bracket too many.

* `Json.Nested` — how deep the brackets stand inside each other where a value is written, with the
  instances for integers, strings, lists, optional values, entries and checkpoints;
* `nesting_list_le_iff`, `Checkpoint.nesting_le_iff` — one more than in the elements, and two more;
* `Reader.GoesTooDeep` — a reader comes upon a bracket that it does not open any more;
* `goesTooDeep_within` — it does where none may be opened;
* **`goesTooDeep_sequence`** and **`goesTooDeep_record`** — it does where it does in a part, whatever
  stands behind that part.
-/

namespace Containers

open Json

/-! ### How deep a value is nested -/

/-- How many brackets are open at most where a value is written. -/
class Json.Nested (α : Type) where
  nesting : α → Nat

namespace Json

variable {α β : Type}

instance : Nested Int64 where
  nesting _ := 0

instance : Nested String where
  nesting _ := 0

instance [Nested α] : Nested (List α) where
  nesting as := (as.map Nested.nesting).foldr max 0 + 1

instance [Nested α] : Nested (Option α) where
  nesting o := o.elim 0 Nested.nesting

/-- A list nests within one bracket more than its elements do. -/
theorem nesting_list_le_iff [Nested α] {as : List α} {depth : Nat} :
    Nested.nesting as ≤ depth + 1 ↔ ∀ a ∈ as, Nested.nesting a ≤ depth := by
  show (as.map Nested.nesting).foldr max 0 + 1 ≤ depth + 1 ↔ _
  rw [Nat.add_le_add_iff_right]
  induction as with
  | nil => simp
  | cons a as ih => rw [List.map_cons, List.foldr_cons, Nat.max_le, ih, List.forall_mem_cons]

theorem lt_nesting_list_iff [Nested α] {as : List α} {depth : Nat} :
    depth + 1 < Nested.nesting as ↔ ∃ a ∈ as, depth < Nested.nesting a := by
  simp only [← Nat.not_le, nesting_list_le_iff, Classical.not_forall, exists_prop]

end Json

instance : Nested Entry where
  nesting _ := 1

variable {α β : Type}

/-- A checkpoint has one bracket around its fields, and one around its slots. -/
instance [Nested α] : Nested (Checkpoint α) where
  nesting c := Nested.nesting c.slots + 1

/-- A checkpoint nests within two brackets more than the elements in its slots do. -/
theorem Checkpoint.nesting_le_iff [Nested α] {c : Checkpoint α} {depth : Nat} :
    Nested.nesting c ≤ depth + 2 ↔ ∀ a, some a ∈ c.slots → Nested.nesting a ≤ depth := by
  show Nested.nesting c.slots + 1 ≤ depth + 1 + 1 ↔ _
  rw [Nat.add_le_add_iff_right, nesting_list_le_iff]
  constructor
  · exact fun h a ha => h (some a) ha
  · intro h o ho
    cases o with
    | none => exact Nat.zero_le depth
    | some a => exact h a ho

/-! ### One bracket too many -/

namespace Json

namespace Reader

variable {reader : Reader α} {t : List Char}

/-- A reader comes upon a bracket too many in a text, whatever follows the text. -/
def GoesTooDeep (reader : Reader α) (t : List Char) : Prop :=
  ∀ rest, reader.run (t ++ rest) = .error .tooDeep

theorem GoesTooDeep.refine (h : reader.GoesTooDeep t) (rule : α → Except Misfit β) :
    (reader.refine rule).GoesTooDeep t :=
  fun rest => refine_of_error (h rest) rule

theorem GoesTooDeep.run_eq (h : reader.GoesTooDeep t) : reader.run t = .error .tooDeep := by
  have hrun := h []
  rwa [List.append_nil] at hrun

theorem GoesTooDeep.whole (h : reader.GoesTooDeep t) :
    reader.whole (String.ofList t) = .error .tooDeep := by
  refine whole_of_error ?_
  rw [String.toList_ofList]
  exact h.run_eq

theorem GoesTooDeep.orNull (h : reader.GoesTooDeep t) (hbegins : Begins t)
    (hnull : t.head? ≠ some 'n') : (orNull reader).GoesTooDeep t := by
  intro rest
  have hfirst : (skipBlanks (t ++ rest)).head? ≠ some 'n' := by
    rw [hbegins.skipBlanks_append]
    obtain ⟨c, s, rfl, -, -⟩ := hbegins
    exact hnull
  rw [orNull_of_ne reader hfirst, h rest]
  rfl

/-- Where no bracket may be opened, the first one is too many. -/
theorem goesTooDeep_within {opening : List Char} {c : Char} (hblank : isBlank c = false)
    (hopening : c ∈ opening) (reader : Nat → Reader α) (t : List Char) :
    (within opening reader 0).GoesTooDeep (c :: t) := by
  intro rest
  simp only [within, shut, List.cons_append, skipBlanks_cons hblank, if_pos hopening]

end Reader

/-! ### Sequences -/

section Sequences

variable {item : Reader β} {write : α → List Char} {as : List α}

/-- The first of the elements that goes too deep is the one that is reported. -/
theorem items_tooDeep
    (hcases : ∀ a ∈ as, (∃ b, item.Reads (write a) b) ∨ item.GoesTooDeep (write a))
    (hdeep : ∃ a ∈ as, item.GoesTooDeep (write a)) (rest : List Char) :
    items item (separated (as.map write) ++ rest) = .error .tooDeep := by
  induction as with
  | nil =>
    obtain ⟨a, ha, -⟩ := hdeep
    exact absurd ha List.not_mem_nil
  | cons a as ih =>
    rw [List.forall_mem_cons] at hcases
    rcases hcases.1 with ⟨b, hread⟩ | hfirst
    · have htail : ∃ a ∈ as, item.GoesTooDeep (write a) := by
        obtain ⟨a', ha', hdeep⟩ := hdeep
        rcases List.mem_cons.mp ha' with rfl | ha'
        · have hrun := hread.run_eq
          rw [hdeep.run_eq] at hrun
          cases hrun
        · exact ⟨a', ha', hdeep⟩
      have hne : as.map write ≠ [] := by
        obtain ⟨a', ha', -⟩ := htail
        exact List.ne_nil_of_mem (List.mem_map_of_mem ha')
      rw [List.map_cons, separated_cons hne, List.append_assoc, List.cons_append]
      exact items_of_comma_error (hread (',' :: _) (stops_cons (by decide) _)) rfl
        (ih hcases.2 htail)
    · by_cases hlast : as.map write = []
      · rw [List.map_cons, hlast]
        exact items_of_error (hfirst rest)
      · rw [List.map_cons, separated_cons hlast, List.append_assoc]
        exact items_of_error (hfirst _)

/-- **A sequence goes too deep** if one of its elements does and all before it are read. -/
theorem goesTooDeep_sequence (hbegins : ∀ a ∈ as, Begins (write a))
    (hcases : ∀ a ∈ as, (∃ b, item.Reads (write a) b) ∨ item.GoesTooDeep (write a))
    (hdeep : ∃ a ∈ as, item.GoesTooDeep (write a)) :
    (sequence item).GoesTooDeep (writeSequence write as) := by
  intro rest
  cases as with
  | nil =>
    obtain ⟨a, ha, -⟩ := hdeep
    exact absurd ha List.not_mem_nil
  | cons a as =>
    have hitems := items_tooDeep hcases hdeep (']' :: rest)
    obtain ⟨c, s, hwrite, hblank, hbracket⟩ := hbegins a List.mem_cons_self
    obtain ⟨s', htext⟩ := exists_separated_cons c s (as.map write)
    have hsplit : writeSequence write (a :: as) ++ rest = '[' :: c :: (s' ++ ']' :: rest) := by
      rw [writeSequence, List.map_cons, hwrite, htext]
      simp
    rw [List.map_cons, hwrite, htext] at hitems
    rw [hsplit, run_sequence_items item (skipBlanks_cons hblank _) hbracket]
    exact hitems

variable [Nested α] {reader : Nat → Reader β} {depth : Nat}

/-- **A sequence is read** if its brackets may be opened, as its elements are inside of it. -/
theorem reads_sequenceWithin {f : α → β} (hle : Nested.nesting as ≤ depth)
    (hbegins : ∀ a : α, Begins (write a))
    (hreads : ∀ (a : α) (depth : Nat), Nested.nesting a ≤ depth →
      (reader depth).Reads (write a) (f a)) :
    (sequenceWithin reader depth).Reads (writeSequence write as) (as.map f) := by
  cases depth with
  | zero => exact absurd hle (Nat.not_succ_le_zero _)
  | succ depth =>
    exact reads_sequence as (fun a _ => hbegins a) fun a ha =>
      hreads a depth (nesting_list_le_iff.mp hle a ha)

/-- **A sequence goes too deep** if there are brackets in it that may not be opened. -/
theorem goesTooDeep_sequenceWithin (hlt : depth < Nested.nesting as)
    (hbegins : ∀ a : α, Begins (write a))
    (hreads : ∀ (a : α) (depth : Nat), Nested.nesting a ≤ depth →
      ∃ b, (reader depth).Reads (write a) b)
    (hdeep : ∀ (a : α) (depth : Nat), depth < Nested.nesting a →
      (reader depth).GoesTooDeep (write a)) :
    (sequenceWithin reader depth).GoesTooDeep (writeSequence write as) := by
  cases depth with
  | zero => exact Reader.goesTooDeep_within (by decide) (List.mem_singleton_self '[') _ _
  | succ depth =>
    obtain ⟨a, ha, hlt⟩ := lt_nesting_list_iff.mp hlt
    refine goesTooDeep_sequence (fun a _ => hbegins a) (fun a _ => ?_) ⟨a, ha, hdeep a depth hlt⟩
    rcases Nat.lt_or_ge depth (Nested.nesting a) with hlt | hle
    · exact .inr (hdeep a depth hlt)
    · exact .inl (hreads a depth hle)

end Sequences

/-! ### Records -/

namespace Shape

variable {σ : Type} {shape : Shape σ α} {d : σ}

theorem goesTooDeep_recordWithin_zero (shape : Nat → Shape σ α)
    (entries : List (String × List Char)) :
    (recordWithin shape 0).GoesTooDeep (writeRecord entries) :=
  Reader.goesTooDeep_within (by decide) (.tail _ (List.mem_singleton_self _)) _ _

/-- **A record goes too deep** if its first member does. -/
theorem goesTooDeep_record {name : String} {value : List Char} {field : Field σ}
    (hfind : shape.field? name = some field) (hnew : field.filled shape.blank = false)
    (hdeep : (field.fill shape.blank).GoesTooDeep value) (entries : List (String × List Char)) :
    shape.reader.GoesTooDeep (writeRecord ((name, value) :: entries)) := by
  refine Reader.GoesTooDeep.refine (fun rest => ?_) _
  obtain ⟨s, htext⟩ : ∃ s, writeRecord ((name, value) :: entries) ++ rest =
      '\x7b' :: '"' :: (name.toList.flatMap writeChar ++ '"' :: ([] ++ ':' :: (value ++ s))) := by
    rw [writeRecord_eq, List.map_cons]
    cases entries.map writeMember with
    | nil => exact ⟨'\x7d' :: rest, by simp [separated, writeMember, quoted]⟩
    | cons u us =>
      refine ⟨',' :: (separated (u :: us) ++ '\x7d' :: rest), ?_⟩
      rw [separated_cons (List.cons_ne_nil u us)]
      simp [writeMember, quoted]
  rw [htext, run_draft_members shape (skipBlanks_cons (by decide) _), members_eq,
    member_key (spelled_written name.toList), valueOf_field hfind hnew blanks_nil, hdeep s]
  rfl

end Shape

end Json

end Containers
