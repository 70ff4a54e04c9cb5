import Containers.Proofs.Json.Record
import Mathlib.Data.List.Forall2

/-!
# Readers that may open more brackets

To let a reader open one bracket more changes nothing about what it makes of a text, unless it was
for a bracket that it gave up.

* `OrTooDeep` — a result is another one, or that there is a bracket too many;
* `Reader.Shallower` — of a reader it is so on every text, compared with another reader;
* `Shallower.refine`, `Shallower.orNull`, `Shallower.sequence`, **`Shape.Shallower.reader`** — what
  is made of such readers;
* `Reader.Deepens` — readers by the number of brackets, each compared with the next;
* **`Deepens.of_le`** — so with any that may open as many brackets or more.
-/

namespace Containers.Json

variable {α β σ : Type}

/-- A result is another one, or that there is a bracket too many. -/
def OrTooDeep (x y : Except Problem α) : Prop :=
  x = y ∨ x = .error .tooDeep

section OrTooDeep

variable {x y z : Except Problem α}

theorem orTooDeep_refl (x : Except Problem α) : OrTooDeep x x :=
  .inl rfl

theorem OrTooDeep.trans (h : OrTooDeep x y) (h' : OrTooDeep y z) : OrTooDeep x z := by
  rcases h with rfl | hx
  · exact h'
  · exact .inr hx

theorem OrTooDeep.bind {f g : α → Except Problem β} (h : OrTooDeep x y)
    (hfg : ∀ a, x = .ok a → OrTooDeep (f a) (g a)) : OrTooDeep (x.bind f) (y.bind g) := by
  rcases h with rfl | rfl
  · cases x with
    | error problem => exact orTooDeep_refl _
    | ok a => exact hfg a rfl
  · exact .inr rfl

theorem OrTooDeep.map (h : OrTooDeep x y) (f : α → β) : OrTooDeep (x.map f) (y.map f) := by
  rcases h with rfl | rfl
  · exact orTooDeep_refl _
  · exact .inr rfl

end OrTooDeep

namespace Reader

variable {shallow deep deeper : Reader α}

/-- A reader makes the same of every text as another one does, unless it comes upon a bracket too
many. -/
def Shallower (shallow deep : Reader α) : Prop :=
  ∀ s, OrTooDeep (shallow.run s) (deep.run s)

theorem shallower_refl (reader : Reader α) : reader.Shallower reader :=
  fun _ => orTooDeep_refl _

theorem Shallower.trans (h : shallow.Shallower deep) (h' : deep.Shallower deeper) :
    shallow.Shallower deeper :=
  fun s => (h s).trans (h' s)

/-- What a deeper reader takes for a problem is one, or the text is too deep before that. -/
theorem Shallower.run_error (h : shallow.Shallower deep) {s : List Char} {problem : Problem}
    (hrun : deep.run s = .error problem) :
    shallow.run s = .error problem ∨ shallow.run s = .error .tooDeep := by
  rw [← hrun]
  exact h s

theorem Shallower.refine (h : shallow.Shallower deep) (rule : α → Except Misfit β) :
    (shallow.refine rule).Shallower (deep.refine rule) := by
  intro s
  rcases h s with hrun | hrun
  · left
    simp only [Reader.refine, hrun]
  · exact .inr (refine_of_error hrun rule)

theorem Shallower.orNull (h : shallow.Shallower deep) :
    (orNull shallow).Shallower (orNull deep) := by
  intro s
  by_cases hnull : (skipBlanks s).head? = some 'n'
  · obtain ⟨r, hfirst⟩ := List.head?_eq_some_iff.mp hnull
    left
    simp only [Json.orNull, hfirst]
  · rw [orNull_of_ne shallow hnull, orNull_of_ne deep hnull]
    exact (h s).map _

theorem Shallower.shut (h : shallow.Shallower deep) (opening : List Char) :
    (shallow.shut opening).Shallower deep := by
  intro s
  simp only [Reader.shut]
  split
  · exact h s
  · split
    · exact .inr rfl
    · exact h s

end Reader

/-! ### Sequences -/

section Sequences

variable {shallow deep : Reader α}

theorem items_shallower (h : shallow.Shallower deep) (s : List Char) :
    OrTooDeep (items shallow s) (items deep s) := by
  -- The induction is on the length of the text, as each element takes something off it.
  induction hlength : s.length using Nat.strongRecOn generalizing s with
  | ind n ih =>
    rw [items_eq, items_eq]
    refine (h s).bind fun ⟨a, r⟩ hrun => ?_
    have hshort := shallow.shortens hrun
    show OrTooDeep (afterItem shallow a r) (afterItem deep a r)
    unfold afterItem
    split
    · exact orTooDeep_refl _
    · next r' hr =>
      have hcomma := length_lt_of_skipBlanks hr
      exact (ih r'.length (by omega) r' rfl).map _
    · exact orTooDeep_refl _
    · exact orTooDeep_refl _

theorem Reader.Shallower.sequence (h : shallow.Shallower deep) :
    (sequence shallow).Shallower (sequence deep) := by
  intro s
  simp only [Json.sequence]
  split
  · split
    · exact orTooDeep_refl _
    · exact items_shallower h _
  · exact orTooDeep_refl _

end Sequences

/-! ### Records -/

/-- A field is read as another one is, unless there is a bracket too many in it. -/
structure Field.Shallower (shallow deep : Field σ) : Prop where
  name : shallow.name = deep.name
  filled : shallow.filled = deep.filled
  fill : ∀ d, (shallow.fill d).Shallower (deep.fill d)

/-- A kind of record has the fields of another one, unless there is a bracket too many in them. -/
structure Shape.Shallower (shallow deep : Shape σ α) : Prop where
  name : shallow.name = deep.name
  blank : shallow.blank = deep.blank
  finish : shallow.finish = deep.finish
  fields : List.Forall₂ Field.Shallower shallow.fields deep.fields

theorem Field.shallower_refl (field : Field σ) : field.Shallower field where
  name := rfl
  filled := rfl
  fill d := Reader.shallower_refl (field.fill d)

theorem Shape.shallower_refl (shape : Shape σ α) : shape.Shallower shape where
  name := rfl
  blank := rfl
  finish := rfl
  fields := List.forall₂_same.mpr fun field _ => field.shallower_refl

namespace Shape

variable {shallow deep : Shape σ α}

/-- The fields that a key names go together. -/
theorem Shallower.field? (h : shallow.Shallower deep) (key : String) :
    (shallow.field? key = none ∧ deep.field? key = none) ∨
      ∃ f g, shallow.field? key = some f ∧ deep.field? key = some g ∧ f.Shallower g := by
  have hfields := h.fields
  unfold Shape.field?
  generalize shallow.fields = fs, deep.fields = gs at hfields
  induction hfields with
  | nil => exact .inl ⟨rfl, rfl⟩
  | @cons f g fs gs hfield _ ih =>
    by_cases hkey : f.name == key
    · have hkey' : g.name == key := by rwa [← hfield.name]
      exact .inr ⟨f, g, List.find?_cons_of_pos hkey, List.find?_cons_of_pos hkey', hfield⟩
    · have hkey' : ¬ (g.name == key) := by rwa [← hfield.name]
      have hf : (f :: fs).find? (·.name == key) = fs.find? (·.name == key) :=
        List.find?_cons_of_neg hkey
      have hg : (g :: gs).find? (·.name == key) = gs.find? (·.name == key) :=
        List.find?_cons_of_neg hkey'
      rw [hf, hg]
      exact ih

theorem Shallower.valueOf (h : shallow.Shallower deep) (key : String) (d : σ) (s : List Char) :
    OrTooDeep (shallow.valueOf key d s) (deep.valueOf key d s) := by
  unfold Shape.valueOf
  rcases h.field? key with ⟨hf, hg⟩ | ⟨f, g, hf, hg, hfield⟩
  · rw [hf, hg]
    exact orTooDeep_refl _
  · simp only [hf, hg, hfield.name, hfield.filled]
    split
    · exact orTooDeep_refl _
    · exact (orTooDeep_refl _).bind fun r _ => hfield.fill d r

theorem Shallower.member (h : shallow.Shallower deep) (d : σ) (s : List Char) :
    OrTooDeep (shallow.member d s) (deep.member d s) := by
  unfold Shape.member
  split
  · exact orTooDeep_refl _
  · split
    · exact (orTooDeep_refl _).bind fun u _ => h.valueOf _ d u.2
    · exact orTooDeep_refl _

theorem Shallower.members (h : shallow.Shallower deep) (d : σ) (s : List Char) :
    OrTooDeep (shallow.members d s) (deep.members d s) := by
  induction hlength : s.length using Nat.strongRecOn generalizing d s with
  | ind n ih =>
    rw [members_eq, members_eq]
    refine (h.member d s).bind fun ⟨d', r⟩ hmember => ?_
    have hshort := length_of_member hmember
    show OrTooDeep (shallow.afterMember d' r) (deep.afterMember d' r)
    unfold afterMember
    split
    · exact orTooDeep_refl _
    · next r' hr =>
      have hcomma := length_lt_of_skipBlanks hr
      exact ih r'.length (by omega) d' r' rfl
    · exact orTooDeep_refl _
    · exact orTooDeep_refl _

theorem Shallower.wantedElements (h : shallow.Shallower deep) :
    shallow.wantedElements = deep.wantedElements := by
  rw [Shape.wantedElements, Shape.wantedElements, h.name, h.fields.length_eq]

theorem Shallower.elements (h : shallow.Shallower deep) {fs gs : List (Field σ)}
    (hfields : List.Forall₂ Field.Shallower fs gs) (index : Nat) (d : σ) (s : List Char) :
    OrTooDeep (shallow.elements index fs d s) (deep.elements index gs d s) := by
  induction hfields generalizing index d s with
  | nil => exact orTooDeep_refl _
  | cons hfield _ ih =>
    simp only [Shape.elements, h.wantedElements]
    split
    · exact orTooDeep_refl _
    · exact orTooDeep_refl _
    · exact (orTooDeep_refl _).bind fun r _ => (hfield.fill d r).bind fun u _ => ih _ u.1 u.2

theorem Shallower.draft (h : shallow.Shallower deep) :
    shallow.draft.Shallower deep.draft := by
  intro s
  simp only [Shape.draft, h.name, h.blank]
  split
  · exact h.elements h.fields 0 deep.blank _
  · split
    · exact orTooDeep_refl _
    · exact orTooDeep_refl _
    · exact h.members deep.blank _
  · exact orTooDeep_refl _

/-- **A record is read** as it is with fields that may open more brackets, unless there is a bracket
too many in it. -/
theorem Shallower.reader (h : shallow.Shallower deep) :
    shallow.reader.Shallower deep.reader := by
  rw [Shape.reader, Shape.reader, h.finish]
  exact h.draft.refine deep.finish

end Shape

/-! ### By the number of brackets -/

namespace Reader

variable {reader : Nat → Reader α}

/-- Readers by the number of brackets that may be opened: one bracket more changes nothing, unless
there was one too many. -/
def Deepens (reader : Nat → Reader α) : Prop :=
  ∀ depth, (reader depth).Shallower (reader (depth + 1))

/-- **More brackets change nothing**, unless there was one too many. -/
theorem Deepens.of_le (h : Deepens reader) {depth depth' : Nat} (hle : depth ≤ depth') :
    (reader depth).Shallower (reader depth') := by
  induction hle with
  | refl => exact shallower_refl _
  | step _ ih => exact ih.trans (h _)

theorem deepens_const (reader : Reader α) : Deepens fun _ => reader :=
  fun _ => shallower_refl reader

theorem Deepens.orNull (h : Deepens reader) : Deepens fun depth => orNull (reader depth) :=
  fun depth => (h depth).orNull

theorem Deepens.within (h : Deepens reader) (opening : List Char) :
    Deepens (within opening reader)
  | 0 => (shallower_refl (reader 0)).shut opening
  | depth + 1 => h depth

theorem Deepens.sequenceWithin (h : Deepens reader) : Deepens (sequenceWithin reader) :=
  Deepens.within (fun depth => (h depth).sequence) ['[']

end Reader

theorem deepens_recordWithin {shape : Nat → Shape σ α}
    (h : ∀ depth, (shape depth).Shallower (shape (depth + 1))) :
    Reader.Deepens (recordWithin shape) :=
  Reader.Deepens.within (fun depth => (h depth).reader) ['[', '\x7b']

end Containers.Json
