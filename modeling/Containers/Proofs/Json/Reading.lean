import Containers.Json.Sequence

/-!
# Reading what is written

A reader takes a value off the front of a text, so what it makes of a written value has to be said
for all texts that may follow.

* `Blanks`, `Stops` — a text of blanks only, and a text that no number goes on into;
* `Reader.Reads` — a reader takes a written text for a value, whatever follows it and stops;
* `Reader.refine_eq_ok_iff`, `Reader.whole_eq_ok_iff` — what is read under a rule, and to the end;
* `Reads.refine`, `Reads.orNull`, `reads_null` — a rule after a reader, and the word for nothing;
* `items_eq` — a sequence goes on after one of its elements as its next character tells;
* **`reads_sequence`** — a sequence is read if its elements are;
* `Reads.whole` — a text that holds just what is written.
-/

namespace Containers.Json

variable {α β γ : Type}

/-! ### Blanks -/

theorem skipBlanks_cons {c : Char} (h : isBlank c = false) (s : List Char) :
    skipBlanks (c :: s) = c :: s := by
  rw [skipBlanks, List.dropWhile_cons_of_neg]
  rw [h]
  exact Bool.false_ne_true

/-- A text of blanks only. -/
def Blanks (w : List Char) : Prop :=
  ∀ c ∈ w, isBlank c

instance (w : List Char) : Decidable (Blanks w) :=
  decidable_of_iff (w.all isBlank) List.all_eq_true

theorem blanks_nil : Blanks [] :=
  nofun

theorem Blanks.skipBlanks_append {w : List Char} (hw : Blanks w) (s : List Char) :
    skipBlanks (w ++ s) = skipBlanks s :=
  List.dropWhile_append_of_pos hw

/-- A text that starts a value: neither with a blank nor with the end of a sequence. -/
def Begins (t : List Char) : Prop :=
  ∃ c s, t = c :: s ∧ isBlank c = false ∧ c ≠ ']'

theorem Begins.skipBlanks_append {t : List Char} (h : Begins t) (rest : List Char) :
    skipBlanks (t ++ rest) = t ++ rest := by
  obtain ⟨c, s, rfl, hblank, -⟩ := h
  exact skipBlanks_cons hblank (s ++ rest)

/-! ### What may follow -/

/-- Whether a number may go on with a character. -/
def goesOn (c : Char) : Bool :=
  c.isDigit || c = '.' || c = 'e' || c = 'E'

/-- A text that no number goes on into. -/
def Stops (s : List Char) : Prop :=
  ∀ c ∈ s.head?, goesOn c = false

theorem stops_nil : Stops [] :=
  nofun

theorem stops_cons {c : Char} (h : goesOn c = false) (s : List Char) : Stops (c :: s) := by
  intro d hd
  obtain rfl : c = d := Option.some.inj hd
  exact h

/-- A blank stops a number. -/
theorem goesOn_of_isBlank {c : Char} (h : isBlank c) : goesOn c = false := by
  have hcases : c = ' ' ∨ c = '\n' ∨ c = '\t' ∨ c = '\r' := by
    simpa [isBlank, or_assoc] using h
  rcases hcases with rfl | rfl | rfl | rfl <;> decide

theorem Blanks.stops_append {w s : List Char} (hw : Blanks w) (h : Stops s) : Stops (w ++ s) := by
  cases w with
  | nil => exact h
  | cons c w => exact stops_cons (goesOn_of_isBlank (hw c List.mem_cons_self)) (w ++ s)

/-! ### Readers -/

/-- Two steps have a result just if the first has one and the second has it from there. -/
theorem bind_eq_ok_iff {x : Except Problem α} {f : α → Except Problem β} {b : β} :
    (x >>= f) = .ok b ↔ ∃ a, x = .ok a ∧ f a = .ok b := by
  cases x <;> simp [bind, Except.bind]

namespace Reader

/-- A reader takes a text for a value, whatever follows and stops. -/
def Reads (reader : Reader α) (t : List Char) (a : α) : Prop :=
  ∀ rest, Stops rest → reader.run (t ++ rest) = .ok (a, rest)

variable {reader : Reader α} {t : List Char} {a : α}

theorem refine_eq_ok_iff {rule : α → Except Misfit β} {s r : List Char} {b : β} :
    (reader.refine rule).run s = .ok (b, r) ↔
      ∃ a, reader.run s = .ok (a, r) ∧ rule a = .ok b := by
  cases hrun : reader.run s with
  | error problem => simp [refine, hrun]
  | ok u =>
    obtain ⟨a, r'⟩ := u
    cases hrule : rule a with
    | error why =>
      simp only [refine, hrun, hrule, reduceCtorEq, Except.ok.injEq, Prod.mk.injEq, false_iff]
      rintro ⟨_, ⟨rfl, rfl⟩, h⟩
      cases hrule.symm.trans h
    | ok b' =>
      simp only [refine, hrun, hrule, Except.ok.injEq, Prod.mk.injEq]
      constructor
      · rintro ⟨rfl, rfl⟩
        exact ⟨a, ⟨rfl, rfl⟩, hrule⟩
      · rintro ⟨_, ⟨rfl, rfl⟩, h⟩
        exact ⟨Except.ok.inj (hrule.symm.trans h), rfl⟩

theorem whole_eq_ok_iff {text : String} :
    reader.whole text = .ok a ↔ ∃ r, reader.run text.toList = .ok (a, r) ∧ skipBlanks r = [] := by
  rw [whole]
  cases reader.run text.toList with
  | error problem => simp
  | ok u =>
    obtain ⟨a', r⟩ := u
    cases hblank : skipBlanks r <;> simp [hblank, and_assoc]

theorem refine_of_error {s : List Char} {problem : Problem} (h : reader.run s = .error problem)
    (rule : α → Except Misfit β) : (reader.refine rule).run s = .error problem := by
  simp only [Reader.refine, h]

theorem whole_of_error {text : String} {problem : Problem}
    (h : reader.run text.toList = .error problem) : reader.whole text = .error problem := by
  simp only [whole, h]

theorem whole_refine_eq_ok_iff {text : String} {rule : α → Except Misfit β} {b : β} :
    (reader.refine rule).whole text = .ok b ↔
      ∃ a, reader.whole text = .ok a ∧ rule a = .ok b := by
  simp only [whole_eq_ok_iff, refine_eq_ok_iff]
  constructor
  · rintro ⟨r, ⟨a, hrun, hrule⟩, hblank⟩
    exact ⟨a, ⟨r, hrun, hblank⟩, hrule⟩
  · rintro ⟨a, ⟨r, hrun, hblank⟩, hrule⟩
    exact ⟨r, ⟨a, hrun, hrule⟩, hblank⟩

/-- A value off the front of the text that breaks the rule is reported before what stands behind
it. -/
theorem whole_refine_of_run {text : String} {rule : α → Except Misfit β} {r : List Char}
    {why : Misfit}
    (hrun : reader.run text.toList = .ok (a, r)) (hrule : rule a = .error why) :
    (reader.refine rule).whole text = .error (.unfit why) := by
  simp only [whole, Reader.refine, hrun, hrule]

theorem whole_refine_of_error {text : String} {rule : α → Except Misfit β} {why : Misfit}
    (hvalue : reader.whole text = .ok a) (hrule : rule a = .error why) :
    (reader.refine rule).whole text = .error (.unfit why) := by
  obtain ⟨r, hrun, -⟩ := whole_eq_ok_iff.mp hvalue
  exact whole_refine_of_run hrun hrule

/-- A value that keeps to a rule is read under that rule. -/
theorem Reads.refine (h : reader.Reads t a) (rule : α → Except Misfit β) {b : β}
    (hrule : rule a = .ok b) : (reader.refine rule).Reads t b := by
  intro rest hrest
  exact refine_eq_ok_iff.mpr ⟨a, h rest hrest, hrule⟩

theorem Reads.run_eq (h : reader.Reads t a) : reader.run t = .ok (a, []) := by
  have hrun := h [] stops_nil
  rw [List.append_nil] at hrun
  exact hrun

/-- **A text that holds just what is written** is read as a whole. -/
theorem Reads.whole (h : reader.Reads t a) : reader.whole (String.ofList t) = .ok a := by
  refine whole_eq_ok_iff.mpr ⟨[], ?_, rfl⟩
  rw [String.toList_ofList]
  exact h.run_eq

/-- A value that breaks a rule does not fit. -/
theorem Reads.whole_refine_error (h : reader.Reads t a) {rule : α → Except Misfit β}
    {why : Misfit} (hrule : rule a = .error why) :
    (reader.refine rule).whole (String.ofList t) = .error (.unfit why) :=
  whole_refine_of_error h.whole hrule

/-- The word for nothing is read as nothing. -/
theorem reads_null (reader : Reader α) : (orNull reader).Reads null none := by
  intro rest _
  rfl

/-- A text that does not start like the word for nothing is left to the reader of values. -/
theorem orNull_of_ne (reader : Reader α) {s : List Char} (h : (skipBlanks s).head? ≠ some 'n') :
    (orNull reader).run s = (reader.run s).map fun u => (some u.1, u.2) := by
  simp only [Json.orNull]
  split
  · next heq =>
    rw [heq] at h
    exact absurd rfl h
  · cases reader.run s <;> rfl

theorem Reads.orNull (h : reader.Reads t a) (hbegins : Begins t) (hnull : t.head? ≠ some 'n') :
    (orNull reader).Reads t (some a) := by
  intro rest hrest
  have hfirst : (skipBlanks (t ++ rest)).head? ≠ some 'n' := by
    rw [hbegins.skipBlanks_append]
    obtain ⟨c, s, rfl, -, -⟩ := hbegins
    exact hnull
  rw [orNull_of_ne reader hfirst, h rest hrest]
  rfl

end Reader

/-! ### Sequences -/

theorem separated_cons {ts : List (List Char)} (h : ts ≠ []) (t : List Char) :
    separated (t :: ts) = t ++ ',' :: separated ts := by
  cases ts with
  | nil => exact absurd rfl h
  | cons u us => rfl

/-- Texts one after the other start with what the first of them starts with. -/
theorem exists_separated_cons (c : Char) (s : List Char) (ts : List (List Char)) :
    ∃ s', separated ((c :: s) :: ts) = c :: s' := by
  cases ts with
  | nil => exact ⟨s, rfl⟩
  | cons u us => exact ⟨s ++ ',' :: separated (u :: us), rfl⟩

/-- How the elements of a sequence go on after one of them. -/
def afterItem (item : Reader α) (a : α) (r : List Char) : Except Problem (List α × List Char) :=
  match skipBlanks r with
  | ']' :: r => .ok ([a], r)
  | ',' :: r => (items item r).map fun u => (a :: u.1, u.2)
  | [] => .error .cutShort
  | _ :: _ => .error .malformed

theorem afterItem_bracket {item : Reader α} {r r' : List Char} (hr : skipBlanks r = ']' :: r')
    (a : α) : afterItem item a r = .ok ([a], r') := by
  rw [afterItem, hr]
  rfl

theorem afterItem_comma {item : Reader α} {r r' : List Char} (hr : skipBlanks r = ',' :: r')
    (a : α) : afterItem item a r = (items item r').map fun u => (a :: u.1, u.2) := by
  rw [afterItem, hr]
  rfl

theorem items_eq (item : Reader α) (s : List Char) :
    items item s = (item.run s).bind fun u => afterItem item u.1 u.2 := by
  rw [items]
  split
  · next h => rw [h]; rfl
  · next a r h =>
    have hright : ((item.run s).bind fun u => afterItem item u.1 u.2) = afterItem item a r := by
      rw [h]
      rfl
    rw [hright]
    split
    · next hr => exact (afterItem_bracket hr a).symm
    · next r' hr =>
      rw [afterItem_comma hr]
      cases items item r' <;> rfl
    · next hr => rw [afterItem, hr]
    · next hbracket hcomma hr =>
      rw [afterItem, hr]
      split <;> simp_all

theorem items_of_bracket {item : Reader α} {s r r' : List Char} {a : α}
    (h : item.run s = .ok (a, r)) (hr : skipBlanks r = ']' :: r') :
    items item s = .ok ([a], r') := by
  rw [items_eq, h]
  exact afterItem_bracket hr a

theorem items_of_comma {item : Reader α} {s r r' r'' : List Char} {a : α} {as : List α}
    (h : item.run s = .ok (a, r)) (hr : skipBlanks r = ',' :: r')
    (hrest : items item r' = .ok (as, r'')) : items item s = .ok (a :: as, r'') := by
  rw [items_eq, h]
  show afterItem item a r = _
  rw [afterItem_comma hr, hrest]
  rfl

theorem items_of_error {item : Reader α} {s : List Char} {problem : Problem}
    (h : item.run s = .error problem) : items item s = .error problem := by
  rw [items_eq, h]
  rfl

theorem items_of_comma_error {item : Reader α} {s r r' : List Char} {a : α} {problem : Problem}
    (h : item.run s = .ok (a, r)) (hr : skipBlanks r = ',' :: r')
    (hrest : items item r' = .error problem) : items item s = .error problem := by
  rw [items_eq, h]
  show afterItem item a r = _
  rw [afterItem_comma hr, hrest]
  rfl

/-- The elements of a sequence are read up to its closing bracket. -/
theorem items_separated {item : Reader β} {write : α → List Char} {f : α → β} {as : List α}
    (hreads : ∀ a ∈ as, item.Reads (write a) (f a)) (hne : as ≠ []) (rest : List Char) :
    items item (separated (as.map write) ++ ']' :: rest) = .ok (as.map f, rest) := by
  induction as with
  | nil => exact absurd rfl hne
  | cons a as ih =>
    -- The last element is followed by the bracket, every other by a comma, and either stops it.
    have ha := hreads a List.mem_cons_self
    by_cases hlast : as = []
    · subst hlast
      exact items_of_bracket (ha (']' :: rest) (stops_cons (by decide) rest)) rfl
    · have htail := ih (fun b hb => hreads b (List.mem_cons_of_mem a hb)) hlast
      have hne' : as.map write ≠ [] := fun h => hlast (List.map_eq_nil_iff.mp h)
      rw [List.map_cons, separated_cons hne', List.append_assoc]
      exact items_of_comma (ha (',' :: _) (stops_cons (by decide) _)) rfl htail

/-- Behind its bracket, a sequence is read by its elements if there are any. -/
theorem run_sequence_items (item : Reader α) {s r : List Char} {c : Char}
    (hfirst : skipBlanks s = c :: r) (hne : c ≠ ']') :
    (sequence item).run ('[' :: s) = items item (c :: r) := by
  rw [sequence]
  simp only [skipBlanks_cons (show isBlank '[' = false by decide), hfirst]
  split
  · next heq => exact absurd (List.cons.inj heq).1 hne
  · rfl

/-- **A sequence is read** if its elements are. -/
theorem reads_sequence {item : Reader β} {write : α → List Char} {f : α → β} (as : List α)
    (hbegins : ∀ a ∈ as, Begins (write a)) (hreads : ∀ a ∈ as, item.Reads (write a) (f a)) :
    (sequence item).Reads (writeSequence write as) (as.map f) := by
  intro rest _
  cases as with
  | nil => rfl
  | cons a as =>
    have hitems := items_separated hreads (List.cons_ne_nil a as) rest
    obtain ⟨c, s, hwrite, hblank, hbracket⟩ := hbegins a List.mem_cons_self
    obtain ⟨s', htext⟩ := exists_separated_cons c s (as.map write)
    have hsplit : writeSequence write (a :: as) ++ rest = '[' :: c :: (s' ++ ']' :: rest) := by
      rw [writeSequence, List.map_cons, hwrite, htext]
      simp
    rw [List.map_cons, hwrite, htext] at hitems
    rw [hsplit, run_sequence_items item (skipBlanks_cons hblank _) hbracket]
    exact hitems

end Containers.Json
