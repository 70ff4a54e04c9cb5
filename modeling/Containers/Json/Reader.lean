import Containers.Json.Problem
/-!
# Readers

* `Json.Reader α` — takes a value off the front of a text, with the promise that the rest is
  shorter;
* `Json.skipBlanks`, `Json.keyword` — what may stand between values, and fixed words;
* `Reader.whole` — a text that holds one value and nothing else;
* `Reader.refine` — a reader followed by a rule for its values;
* `Json.nestingLimit` — how many brackets may be open at a time; `Reader.within` counts one of them.

A text is read once from left to right, so the first problem in it is the one reported.
-/

namespace Containers.Json

variable {α β : Type}

/-! ### Blanks and words -/

/-- The characters that may stand between the parts of a value. -/
def isBlank (c : Char) : Bool :=
  c = ' ' || c = '\n' || c = '\t' || c = '\r'

def skipBlanks (s : List Char) : List Char :=
  s.dropWhile isBlank

theorem length_skipBlanks (s : List Char) : (skipBlanks s).length ≤ s.length :=
  (List.dropWhile_sublist _).length_le

/-- The first character past the blanks is one of the text. -/
theorem length_lt_of_skipBlanks {s r : List Char} {c : Char} (h : skipBlanks s = c :: r) :
    r.length < s.length := by
  have := length_skipBlanks s
  rw [h, List.length_cons] at this
  omega

/-- Takes a fixed word off the front. -/
def keyword : List Char → List Char → Except Problem (List Char)
  | [], s => .ok s
  | _ :: _, [] => .error .cutShort
  | c :: cs, d :: s => if c = d then keyword cs s else .error .malformed

theorem length_of_keyword {cs s r : List Char} (h : keyword cs s = .ok r) :
    r.length ≤ s.length := by
  induction cs generalizing s with
  | nil =>
    obtain rfl : s = r := by simpa [keyword] using h
    exact Nat.le_refl _
  | cons c cs ih =>
    cases s with
    | nil => simp [keyword] at h
    | cons d s =>
      simp only [keyword] at h
      split at h
      · exact Nat.le_succ_of_le (ih h)
      · simp at h

/-! ### Readers -/

/-- Takes a value off the front of a text. What is left is shorter than the text. -/
structure Reader (α : Type) where
  run : List Char → Except Problem (α × List Char)
  shortens : ∀ {s r : List Char} {a : α}, run s = .ok (a, r) → r.length < s.length

namespace Reader

/-- A reader followed by a rule for its values. A value that breaks the rule does not fit. -/
def refine (reader : Reader α) (rule : α → Except Misfit β) : Reader β where
  run s :=
    match reader.run s with
    | .error problem => .error problem
    | .ok (a, r) =>
      match rule a with
      | .error why => .error (.unfit why)
      | .ok b => .ok (b, r)
  shortens {s r b} h := by
    split at h
    · simp at h
    · next a r' hrun =>
      split at h
      · simp at h
      · obtain ⟨-, rfl⟩ : _ ∧ r' = r := by simpa using h
        exact reader.shortens hrun

/-- Reads a text that holds one value, with blanks around it and nothing else. -/
def whole (reader : Reader α) (text : String) : Except Problem α :=
  match reader.run text.toList with
  | .error problem => .error problem
  | .ok (a, r) => if (skipBlanks r).isEmpty then .ok a else .error .malformed

/-! ### Nesting -/

/-- A reader that does not go past some brackets. -/
def shut (opening : List Char) (reader : Reader α) : Reader α where
  run s :=
    match skipBlanks s with
    | [] => reader.run s
    | c :: _ => if c ∈ opening then .error .tooDeep else reader.run s
  shortens h := by
    split at h
    · exact reader.shortens h
    · split at h
      · simp at h
      · exact reader.shortens h

/-- A reader of what starts with a bracket, by the number of brackets that may still be opened. Inside
of it there is one less, and where there is none left, it is the bracket that is refused, whatever
follows it. -/
def within (opening : List Char) (reader : Nat → Reader α) : Nat → Reader α
  | 0 => (reader 0).shut opening
  | depth + 1 => reader depth

end Reader

/-- The greatest number of brackets that may be open at a time. What is passed over is not counted. -/
def nestingLimit : Nat :=
  127

end Containers.Json
