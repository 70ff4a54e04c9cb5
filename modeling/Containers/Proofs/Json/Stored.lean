import Containers.Proofs.Json.Nesting
import Containers.Proofs.Json.Number

/-!
# Stored forms that are read back

* `Json.Readable` — every value is read back from what is written for it, where as many brackets may
  be opened as it has inside each other, and told to be too deep where they may not;
* `Json.Faithful` — and none of them is written as the word for nothing;
* `faithful_int64`, `faithful_string`, `faithful_list`, `faithful_entry` — types of which both hold;
* `readable_option` — optional values, of which only the first holds;
* **`Readable.reads_option`** — what is read back where nothing may stand for a value: a value that
  is written as the word for nothing is lost there (`settle`), and all others are kept.
-/

namespace Containers.Json

variable {α : Type} [Stored α] [Nested α]

/-! ### Types -/

/-- Every value is read back from what is written for it if its brackets may be opened, and is too
deep if they may not.  What starts like the word for nothing is that word. -/
structure Readable (α : Type) [Stored α] [Nested α] : Prop where
  begins : ∀ a : α, Begins (Stored.write a)
  reads : ∀ (a : α) (depth : Nat), Nested.nesting a ≤ depth →
    (Stored.reader depth : Reader α).Reads (Stored.write a) a
  goesTooDeep : ∀ (a : α) (depth : Nat), depth < Nested.nesting a →
    (Stored.reader depth : Reader α).GoesTooDeep (Stored.write a)
  eq_null : ∀ a : α, (Stored.write a).head? = some 'n' → Stored.write a = null

/-- Every value is read back from what is written for it, and that is never the word for nothing. -/
structure Faithful (α : Type) [Stored α] [Nested α] : Prop extends Readable α where
  ne_null : ∀ a : α, Stored.write a ≠ null

theorem Faithful.of_head? (hbegins : ∀ a : α, Begins (Stored.write a))
    (hreads : ∀ (a : α) (depth : Nat), Nested.nesting a ≤ depth →
      (Stored.reader depth : Reader α).Reads (Stored.write a) a)
    (hdeep : ∀ (a : α) (depth : Nat), depth < Nested.nesting a →
      (Stored.reader depth : Reader α).GoesTooDeep (Stored.write a))
    (hhead : ∀ a : α, (Stored.write a).head? ≠ some 'n') : Faithful α where
  begins := hbegins
  reads := hreads
  goesTooDeep := hdeep
  eq_null a h := absurd h (hhead a)
  ne_null a h := hhead a (by rw [h]; rfl)

theorem Faithful.head?_ne (h : Faithful α) (a : α) : (Stored.write a).head? ≠ some 'n' :=
  fun hhead => h.ne_null a (h.eq_null a hhead)

theorem head?_writeInt_ne (n : Int) : (writeInt n).head? ≠ some 'n' := by
  rw [writeInt]
  split
  · exact fun hhead => absurd (Option.some.inj hhead) (by decide)
  · intro hhead
    have hmem : 'n' ∈ writeNat n.natAbs := List.mem_of_mem_head? hhead
    exact absurd (isDigit_of_mem_writeNat hmem) (by decide)

theorem faithful_int64 : Faithful Int64 := by
  refine .of_head? (fun n => begins_writeInt n.toInt) (fun n _ _ => reads_integer n) ?_
    fun n => head?_writeInt_ne n.toInt
  exact fun _ depth hdeep => absurd hdeep (Nat.not_lt_zero depth)

theorem faithful_string : Faithful String := by
  refine .of_head? begins_quoted (fun s _ _ => reads_string s) ?_ fun s hhead => ?_
  · exact fun _ depth hdeep => absurd hdeep (Nat.not_lt_zero depth)
  · exact absurd (Option.some.inj hhead) (by decide)

/-- Lists of values that are read back are read back. -/
theorem faithful_list (h : Readable α) : Faithful (List α) := by
  refine .of_head? (fun as => ⟨'[', _, rfl, by decide, by decide⟩) (fun as depth hle => ?_)
    (fun as depth hlt => ?_) fun as hhead => ?_
  · have hsequence := reads_sequenceWithin hle h.begins h.reads
    rw [List.map_id'] at hsequence
    exact hsequence
  · exact goesTooDeep_sequenceWithin hlt h.begins (fun a depth hle => ⟨a, h.reads a depth hle⟩)
      h.goesTooDeep
  · exact absurd (Option.some.inj hhead) (by decide)

/-- The members of an entry fill its draft. -/
theorem fills_entry (e : Entry) :
    Entry.shape.Fills Entry.shape.blank
      [("key", Stored.write e.key), ("tag", Stored.write e.tag)] ⟨some e.key, some e.tag⟩ := by
  have hkey := (reads_integer e.key).refine
    (fun k => .ok ({ Entry.shape.blank with key := some k } : Entry.Draft)) rfl
  have htag := (reads_string e.tag).refine
    (fun t => .ok (⟨some e.key, some t⟩ : Entry.Draft)) rfl
  exact .cons rfl rfl hkey (.cons rfl rfl htag .nil)

theorem faithful_entry : Faithful Entry := by
  refine .of_head? (fun e => Shape.begins_writeRecord _) (fun e depth hle => ?_)
    (fun e depth hlt => ?_) fun e hhead => ?_
  · cases depth with
    | zero => exact absurd hle (Nat.not_succ_le_zero _)
    | succ depth => exact Shape.reads_record (fills_entry e) (List.cons_ne_nil _ _) rfl
  · obtain rfl : depth = 0 := Nat.lt_one_iff.mp hlt
    exact Shape.goesTooDeep_recordWithin_zero _ _
  · exact absurd (Option.some.inj hhead) (by decide)

/-! ### Where nothing may stand for a value -/

/-- What is left of an optional value that is stored: a value that is written as the word for
nothing is taken for nothing. -/
def settle (o : Option α) : Option α :=
  o.filter fun a => Stored.write a ≠ null

omit [Nested α] in
theorem settle_of_ne_null {a : α} (h : Stored.write a ≠ null) : settle (some a) = some a := by
  rw [settle, Option.filter_some, if_pos (decide_eq_true h)]

omit [Nested α] in
theorem settle_of_eq_null {a : α} (h : Stored.write a = null) : settle (some a) = none := by
  rw [settle, Option.filter_some, if_neg]
  simpa using h

/-- **An optional value** is read back as what is left of it. -/
theorem Readable.reads_option (h : Readable α) (o : Option α) (depth : Nat)
    (hle : Nested.nesting o ≤ depth) :
    (orNull (Stored.reader depth)).Reads (writeOption o) (settle o) := by
  cases o with
  | none => exact Reader.reads_null _
  | some a =>
    by_cases hnull : Stored.write a = null
    · rw [settle_of_eq_null hnull, writeOption, hnull]
      exact Reader.reads_null _
    · rw [settle_of_ne_null hnull]
      exact (h.reads a depth hle).orNull (h.begins a) fun hhead => hnull (h.eq_null a hhead)

theorem Faithful.goesTooDeep_option (h : Faithful α) (o : Option α) (depth : Nat)
    (hlt : depth < Nested.nesting o) :
    (orNull (Stored.reader depth : Reader α)).GoesTooDeep (writeOption o) := by
  cases o with
  | none => exact absurd hlt (Nat.not_lt_zero depth)
  | some a => exact (h.goesTooDeep a depth hlt).orNull (h.begins a) (h.head?_ne a)

omit [Nested α] in
theorem begins_writeOption (hbegins : ∀ a : α, Begins (Stored.write a)) (o : Option α) :
    Begins (writeOption o) := by
  cases o with
  | none => exact ⟨'n', _, rfl, by decide, by decide⟩
  | some a => exact hbegins a

/-- Nothing is lost of an optional value whose own form is never the word for nothing. -/
theorem Faithful.settle_eq (h : Faithful α) (o : Option α) : settle o = o := by
  cases o with
  | none => rfl
  | some a => exact settle_of_ne_null (h.ne_null a)

/-- Optional values are read back, though the word for nothing is one of their forms. -/
theorem readable_option (h : Faithful α) : Readable (Option α) where
  begins := begins_writeOption h.begins
  reads o depth hle := by
    have hreads := h.toReadable.reads_option o depth hle
    rw [h.settle_eq] at hreads
    exact hreads
  goesTooDeep := h.goesTooDeep_option
  eq_null o hhead := by
    cases o with
    | none => rfl
    | some a => exact absurd hhead (h.head?_ne a)

/-- Of an optional value that is optional once more, only the value is left. -/
theorem settle_option (h : Faithful α) (o : Option (Option α)) :
    settle o = o.filter Option.isSome := by
  match o with
  | none => rfl
  | some none => exact settle_of_eq_null rfl
  | some (some a) => exact settle_of_ne_null (h.ne_null a)

end Containers.Json
