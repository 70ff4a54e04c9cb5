import Containers.Proofs.Json.Number
import Containers.Proofs.Json.Quoted
import Mathlib.Data.List.DropRight

/-!
# Values with blanks around them

How a value may be presented apart from how it is written: the parts of it have blanks around
them, or have none.

* `Reader.IgnoresBlanks` — a reader that takes no notice of blanks in front of a value;
* `ItemsText`, `SequenceText` — a sequence, in terms of how its elements are presented;
* `OptionText`, `StringText` — an optional value, and a string in any spelling;
* **`reads_sequenceText`**, `reads_optionText`, `reads_stringText` — each is read as what it
  presents;
* `Reads.whole_refine` — a text that holds a value and blanks around it.
-/

namespace Containers.Json

variable {α β : Type}

/-! ### Blanks in front of a value -/

theorem skipBlanks_idem (s : List Char) : skipBlanks (skipBlanks s) = skipBlanks s :=
  List.dropWhile_idempotent isBlank s

namespace Reader

variable {reader : Reader α} {w w' s t : List Char} {a : α}

/-- A reader takes no notice of blanks in front of a value. -/
def IgnoresBlanks (reader : Reader α) : Prop :=
  ∀ s, reader.run (skipBlanks s) = reader.run s

theorem IgnoresBlanks.run_congr (h : reader.IgnoresBlanks) (hs : skipBlanks s = skipBlanks t) :
    reader.run s = reader.run t := by
  rw [← h s, hs, h t]

theorem IgnoresBlanks.run_append (h : reader.IgnoresBlanks) (hw : Blanks w) (s : List Char) :
    reader.run (w ++ s) = reader.run s :=
  h.run_congr (hw.skipBlanks_append s)

theorem IgnoresBlanks.refine (h : reader.IgnoresBlanks) (rule : α → Except Misfit β) :
    (reader.refine rule).IgnoresBlanks := by
  intro s
  simp only [Reader.refine, h s]

theorem ignoresBlanks_numeric (wanted : String) (rule : Number → Except Misfit α) :
    (numeric wanted rule).IgnoresBlanks := by
  refine IgnoresBlanks.refine ?_ rule
  intro s
  simp only [skipBlanks_idem]

theorem ignoresBlanks_string : string.IgnoresBlanks := by
  intro s
  simp only [string, skipBlanks_idem]

theorem ignoresBlanks_sequence (item : Reader α) : (sequence item).IgnoresBlanks := by
  intro s
  simp only [sequence, skipBlanks_idem]

theorem IgnoresBlanks.shut (h : reader.IgnoresBlanks) (opening : List Char) :
    (reader.shut opening).IgnoresBlanks := by
  intro s
  simp only [Reader.shut, skipBlanks_idem, h s]

theorem ignoresBlanks_within {opening : List Char} {reader : Nat → Reader α}
    (h : ∀ depth, (reader depth).IgnoresBlanks) :
    ∀ depth, (within opening reader depth).IgnoresBlanks
  | 0 => (h 0).shut opening
  | depth + 1 => h depth

theorem IgnoresBlanks.orNull (h : reader.IgnoresBlanks) : (orNull reader).IgnoresBlanks := by
  intro s
  simp only [Json.orNull, skipBlanks_idem, h s]

/-- A text that holds a value with blanks around it comes down to the rule for the value. -/
theorem Reads.whole_refine (h : reader.Reads t a) (hignores : reader.IgnoresBlanks)
    (rule : α → Except Misfit β) (hw : Blanks w) (hw' : Blanks w') :
    (reader.refine rule).whole (String.ofList (w ++ (t ++ w'))) =
      (rule a).mapError Problem.unfit := by
  have hstops : Stops w' := by
    have happend := hw'.stops_append stops_nil
    rwa [List.append_nil] at happend
  have hskip : skipBlanks w' = [] := by
    have happend := hw'.skipBlanks_append []
    rwa [List.append_nil] at happend
  have hrun : reader.run (w ++ (t ++ w')) = .ok (a, w') := by
    rw [hignores.run_append hw]
    exact h w' hstops
  simp only [Reader.whole, Reader.refine, String.toList_ofList, hrun]
  cases rule a with
  | error why => rfl
  | ok b =>
    simp only [hskip]
    rfl

end Reader

/-! ### Sequences -/

/-- One element or more, with blanks around each and commas between them. -/
inductive ItemsText (Shows : α → List Char → Prop) : List α → List Char → Prop where
  | last {a : α} {w t w' : List Char} (hw : Blanks w) (h : Shows a t) (hw' : Blanks w') :
      ItemsText Shows [a] (w ++ (t ++ w'))
  | more {a : α} {as : List α} {w t w' ts : List Char} (hw : Blanks w) (h : Shows a t)
      (hw' : Blanks w') (hs : ItemsText Shows as ts) :
      ItemsText Shows (a :: as) (w ++ (t ++ (w' ++ ',' :: ts)))

/-- A sequence: blanks between the brackets, or elements. -/
inductive SequenceText (Shows : α → List Char → Prop) : List α → List Char → Prop where
  | empty {w : List Char} (hw : Blanks w) : SequenceText Shows [] ('[' :: (w ++ [']']))
  | items {as : List α} {t : List Char} (h : ItemsText Shows as t) :
      SequenceText Shows as ('[' :: (t ++ [']']))

section Sequences

variable {Shows : α → List Char → Prop} {item : Reader α} {as : List α} {t : List Char}

theorem SequenceText.begins (h : SequenceText Shows as t) : Begins t := by
  cases h <;> exact ⟨'[', _, rfl, by decide, by decide⟩

/-- Elements do not start with the end of the sequence. -/
theorem ItemsText.first (hbegins : ∀ a t, Shows a t → Begins t) (h : ItemsText Shows as t)
    (rest : List Char) : ∃ c s, skipBlanks (t ++ rest) = c :: s ∧ c ≠ ']' := by
  cases h with
  | last hw h hw' =>
    obtain ⟨c, s, rfl, hblank, hbracket⟩ := hbegins _ _ h
    rw [List.append_assoc, hw.skipBlanks_append]
    exact ⟨c, _, skipBlanks_cons hblank _, hbracket⟩
  | more hw h hw' hs =>
    obtain ⟨c, s, rfl, hblank, hbracket⟩ := hbegins _ _ h
    rw [List.append_assoc, hw.skipBlanks_append]
    exact ⟨c, _, skipBlanks_cons hblank _, hbracket⟩

theorem items_congr {s s' : List Char} (h : item.run s = item.run s') :
    items item s = items item s' := by
  rw [items_eq, items_eq, h]

/-- The elements are read up to the closing bracket. -/
theorem items_text (hignores : item.IgnoresBlanks)
    (hreads : ∀ a ∈ as, ∀ t, Shows a t → item.Reads t a) (h : ItemsText Shows as t)
    (rest : List Char) :
    items item (t ++ ']' :: rest) = .ok (as, rest) := by
  induction h with
  | @last a w t w' hw h hw' =>
    have htext : w ++ (t ++ w') ++ ']' :: rest = w ++ (t ++ (w' ++ ']' :: rest)) := by simp
    have hstops : Stops (w' ++ ']' :: rest) := hw'.stops_append (stops_cons (by decide) rest)
    have hrun : item.run (w ++ (t ++ (w' ++ ']' :: rest))) = .ok (a, w' ++ ']' :: rest) := by
      rw [hignores.run_append hw]
      exact hreads a List.mem_cons_self t h _ hstops
    rw [htext]
    exact items_of_bracket hrun (hw'.skipBlanks_append _)
  | @more a as w t w' ts hw h hw' hs ih =>
    have htext : w ++ (t ++ (w' ++ ',' :: ts)) ++ ']' :: rest =
        w ++ (t ++ (w' ++ ',' :: (ts ++ ']' :: rest))) := by simp
    have hstops : Stops (w' ++ ',' :: (ts ++ ']' :: rest)) :=
      hw'.stops_append (stops_cons (by decide) _)
    have hrun : item.run (w ++ (t ++ (w' ++ ',' :: (ts ++ ']' :: rest)))) =
        .ok (a, w' ++ ',' :: (ts ++ ']' :: rest)) := by
      rw [hignores.run_append hw]
      exact hreads a List.mem_cons_self t h _ hstops
    rw [htext]
    exact items_of_comma hrun (hw'.skipBlanks_append _)
      (ih fun b hb => hreads b (List.mem_cons_of_mem a hb))

theorem run_sequence_empty (item : Reader α) {w : List Char} (hw : Blanks w) (rest : List Char) :
    (sequence item).run ('[' :: (w ++ ']' :: rest)) = .ok ([], rest) := by
  rw [sequence]
  simp only [skipBlanks_cons (show isBlank '[' = false by decide), hw.skipBlanks_append,
    skipBlanks_cons (show isBlank ']' = false by decide)]

/-- **A sequence is read** as its elements, whatever blanks are around them. -/
theorem reads_sequenceText (hignores : item.IgnoresBlanks)
    (hbegins : ∀ a t, Shows a t → Begins t)
    (hreads : ∀ a ∈ as, ∀ t, Shows a t → item.Reads t a) (h : SequenceText Shows as t) :
    (sequence item).Reads t as := by
  intro rest _
  cases h with
  | @empty w hw =>
    rw [List.cons_append, List.append_assoc, List.singleton_append]
    exact run_sequence_empty item hw rest
  | @items _ t h =>
    have hitems := items_text hignores hreads h rest
    obtain ⟨c, s, hfirst, hbracket⟩ := h.first hbegins (']' :: rest)
    rw [List.cons_append, List.append_assoc, List.singleton_append,
      run_sequence_items item hfirst hbracket, ← hfirst, items_congr (hignores _)]
    exact hitems

end Sequences

/-! ### Optional values and strings -/

/-- The word for nothing, or a value. -/
inductive OptionText (Shows : α → List Char → Prop) : Option α → List Char → Prop where
  | absent : OptionText Shows none null
  | present {a : α} {t : List Char} (h : Shows a t) : OptionText Shows (some a) t

/-- A string between its quotes, in any spelling. -/
inductive StringText (s : String) : List Char → Prop where
  | mk {t : List Char} (h : Spelled s.toList t) : StringText s ('"' :: (t ++ ['"']))

theorem OptionText.begins {Shows : α → List Char → Prop} (hbegins : ∀ a t, Shows a t → Begins t)
    {o : Option α} {t : List Char} (h : OptionText Shows o t) : Begins t := by
  cases h with
  | absent => exact ⟨'n', _, rfl, by decide, by decide⟩
  | present h => exact hbegins _ _ h

/-- **An optional value is read**, unless its own text starts like the word for nothing. -/
theorem reads_optionText {Shows : α → List Char → Prop} {reader : Reader α} {o : Option α}
    {t : List Char} (hbegins : ∀ a t, Shows a t → Begins t)
    (hreads : ∀ a ∈ o, ∀ t, Shows a t → reader.Reads t a)
    (hnull : ∀ a t, Shows a t → t.head? ≠ some 'n') (h : OptionText Shows o t) :
    (orNull reader).Reads t o := by
  cases h with
  | absent => exact Reader.reads_null reader
  | present h => exact (hreads _ rfl _ h).orNull (hbegins _ _ h) (hnull _ _ h)

theorem StringText.begins {s : String} {t : List Char} (h : StringText s t) : Begins t := by
  cases h
  exact ⟨'"', _, rfl, by decide, by decide⟩

/-- A string is read in any spelling, in front of anything. -/
theorem run_stringText {s : String} {t : List Char} (h : StringText s t) (rest : List Char) :
    string.run (t ++ rest) = .ok (s, rest) := by
  obtain ⟨h⟩ := h
  rw [List.cons_append, List.append_assoc, List.singleton_append, string]
  simp only [skipBlanks_cons (show isBlank '"' = false by decide), content_spelled h,
    String.ofList_toList]

/-- **A string is read** in any spelling. -/
theorem reads_stringText {s : String} {t : List Char} (h : StringText s t) : string.Reads t s :=
  fun rest _ => run_stringText h rest

end Containers.Json
