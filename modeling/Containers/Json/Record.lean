import Containers.Json.Scalar
import Containers.Json.Skip
/-!
# Records

A record is written as a map from the names of its fields, or as a sequence of its fields in order.

* `Json.Field σ` — a field by its name, with what reading it does to a draft `σ`;
* `Json.Shape σ α` — the fields of a record, and what the finished draft is;
* `Shape.members` — the map form: fields in any order, others passed over;
* `Shape.elements` — the sequence form;
* `Shape.reader` — both;
* `Json.recordWithin` — and a reader that counts the bracket.
-/

namespace Containers.Json

variable {σ α : Type}

/-- A field of a record that is read into a draft. -/
structure Field (σ : Type) where
  name : String
  /-- Whether the draft has the field already. -/
  filled : σ → Bool
  /-- Reads the value of the field into the draft. -/
  fill : σ → Reader σ

/-- A kind of record: its name, its fields in order, the draft without any of them, and what a draft
makes. A draft that lacks fields makes nothing, and the first of them is named. -/
structure Shape (σ α : Type) where
  name : String
  fields : List (Field σ)
  blank : σ
  finish : σ → Except Misfit α

namespace Shape

/-! ### The map form -/

/-- Passes over the colon between a key and its value. -/
def colon (s : List Char) : Except Problem (List Char) :=
  match skipBlanks s with
  | [] => .error .cutShort
  | c :: r => if c = ':' then .ok r else .error .malformed

theorem length_of_colon {s r : List Char} (h : colon s = .ok r) : r.length < s.length := by
  unfold colon at h
  split at h
  · simp at h
  · next c r₁ hr₁ =>
    have h₁ := length_lt_of_skipBlanks hr₁
    split at h
    · simp only [Except.ok.injEq] at h
      rw [← h]
      exact h₁
    · simp at h

/-- The field that a key names. -/
def field? (shape : Shape σ α) (key : String) : Option (Field σ) :=
  shape.fields.find? (·.name == key)

/-- Reads the value that stands after a key: into the draft if the key names a field, which must be
its first time, and past it otherwise. -/
def valueOf (shape : Shape σ α) (key : String) (draft : σ) (s : List Char) :
    Except Problem (σ × List Char) :=
  match shape.field? key with
  | some field =>
    if field.filled draft then .error (.unfit (.duplicateField field.name))
    else do
      let r ← colon s
      (field.fill draft).run r
  | none => do
    let r ← colon s
    let r ← skip [] r
    return (draft, r)

theorem length_of_valueOf {shape : Shape σ α} {key : String} {draft draft' : σ}
    {s r : List Char} (h : shape.valueOf key draft s = .ok (draft', r)) :
    r.length < s.length := by
  unfold valueOf at h
  split at h
  · next field _ =>
    split at h
    · simp at h
    · cases hc : colon s with
      | error p => simp [hc, bind, Except.bind] at h
      | ok r₁ =>
        have h₁ := length_of_colon hc
        simp only [hc, bind, Except.bind] at h
        have h₂ := (field.fill draft).shortens h
        omega
  · cases hc : colon s with
    | error p => simp [hc, bind, Except.bind] at h
    | ok r₁ =>
      have h₁ := length_of_colon hc
      cases hs : skip [] r₁ with
      | error p => simp [hc, hs, bind, Except.bind] at h
      | ok r₂ =>
        have h₂ := length_of_skip hs
        simp only [hc, hs, bind, Except.bind, pure, Except.pure, Except.ok.injEq,
          Prod.mk.injEq] at h
        rw [← h.2]
        omega

/-- Reads one member of the map: a key and its value. -/
def member (shape : Shape σ α) (draft : σ) (s : List Char) : Except Problem (σ × List Char) :=
  match skipBlanks s with
  | [] => .error .cutShort
  | c :: r =>
    if c = '"' then do
      let (key, r) ← content r
      shape.valueOf (String.ofList key) draft r
    else .error .malformed

theorem length_of_member {shape : Shape σ α} {draft draft' : σ} {s r : List Char}
    (h : shape.member draft s = .ok (draft', r)) : r.length < s.length := by
  unfold member at h
  split at h
  · simp at h
  · next c r₁ hr₁ =>
    have h₁ := length_lt_of_skipBlanks hr₁
    split at h
    · cases hk : content r₁ with
      | error p => simp [hk, bind, Except.bind] at h
      | ok k =>
        have h₂ := length_of_content hk
        simp only [hk, bind, Except.bind] at h
        have h₃ := length_of_valueOf h
        omega
    · simp at h

/-- Reads the members up to the closing brace, for a text that starts with one. -/
def members (shape : Shape σ α) (draft : σ) (s : List Char) : Except Problem (σ × List Char) :=
  match h : shape.member draft s with
  | .error problem => .error problem
  | .ok (draft, r) =>
    have := length_of_member h
    match hr : skipBlanks r with
    | '\x7d' :: r => .ok (draft, r)
    | ',' :: r' =>
      have := length_lt_of_skipBlanks hr
      members shape draft r'
    | [] => .error .cutShort
    | _ :: _ => .error .malformed
termination_by s.length

theorem length_of_members {shape : Shape σ α} {draft draft' : σ} {s r : List Char}
    (h : shape.members draft s = .ok (draft', r)) : r.length < s.length := by
  fun_induction members shape draft s with
  | case1 => simp at h
  | case2 draft s d r₁ hm h₁ r₂ hr =>
    have h₂ := length_lt_of_skipBlanks hr
    simp only [Except.ok.injEq, Prod.mk.injEq] at h
    rw [← h.2]
    omega
  | case3 draft s d r₁ hm h₁ r₂ hr h₂ ih =>
    have h₃ := ih h
    omega
  | case4 => simp at h
  | case5 => simp at h

/-! ### The sequence form -/

/-- What the sequence form has to be. -/
def wantedElements (shape : Shape σ α) : String :=
  "struct " ++ shape.name ++ " with " ++ toString shape.fields.length ++ " elements"

/-- The start of the next element: past a comma, unless it is the first. -/
def nextElement (first : Bool) (s : List Char) : Except Problem (List Char) :=
  if first then .ok s
  else
    match s with
    | ',' :: r => .ok r
    | _ => .error .malformed

/-- Reads the fields from the one at `index` on, in order, and the closing bracket. -/
def elements (shape : Shape σ α) :
    (index : Nat) → List (Field σ) → σ → List Char → Except Problem (σ × List Char)
  | _, [], draft, s =>
    match skipBlanks s with
    | [] => .error .cutShort
    | c :: r => if c = ']' then .ok (draft, r) else .error .malformed
  | index, field :: fields, draft, s =>
    match skipBlanks s with
    | [] => .error .cutShort
    | ']' :: _ => .error (.unfit (.tooShort index shape.wantedElements))
    | c :: r => do
      let r ← nextElement (index = 0) (c :: r)
      let (draft, r) ← (field.fill draft).run r
      elements shape (index + 1) fields draft r

theorem length_of_nextElement {first : Bool} {s r : List Char}
    (h : nextElement first s = .ok r) : r.length ≤ s.length := by
  unfold nextElement at h
  split at h
  · simp only [Except.ok.injEq] at h
    subst h
    exact Nat.le_refl _
  · split at h
    · simp only [Except.ok.injEq] at h
      rw [h]
      simp
    · simp at h

theorem length_of_elements {shape : Shape σ α} {index : Nat} {fields : List (Field σ)}
    {draft draft' : σ} {s r : List Char}
    (h : shape.elements index fields draft s = .ok (draft', r)) : r.length < s.length := by
  induction fields generalizing index draft s with
  | nil =>
    simp only [elements] at h
    split at h
    · simp at h
    · next c r₁ hr₁ =>
      have h₁ := length_lt_of_skipBlanks hr₁
      split at h
      · simp only [Except.ok.injEq, Prod.mk.injEq] at h
        rw [← h.2]
        exact h₁
      · simp at h
  | cons field fields ih =>
    simp only [elements] at h
    split at h
    · simp at h
    · simp at h
    · next c r₁ _ hr₁ =>
      have h₁ := length_skipBlanks s
      rw [hr₁] at h₁
      cases hn : nextElement (index = 0) (c :: r₁) with
      | error p => simp [hn, bind, Except.bind] at h
      | ok r₂ =>
        have h₂ := length_of_nextElement hn
        cases hf : (field.fill draft).run r₂ with
        | error p => simp [hn, hf, bind, Except.bind] at h
        | ok u =>
          have h₃ := (field.fill draft).shortens hf
          simp only [hn, hf, bind, Except.bind] at h
          have h₄ := ih h
          omega

/-! ### Both forms -/

/-- Reads the draft of a record in either form, for a bracket that may be opened. -/
def draft (shape : Shape σ α) : Reader σ where
  run s :=
    match skipBlanks s with
    | '[' :: r => shape.elements 0 shape.fields shape.blank r
    | '\x7b' :: r =>
      match skipBlanks r with
      | '\x7d' :: r => .ok (shape.blank, r)
      | [] => .error .cutShort
      | r => shape.members shape.blank r
    | r => .error (mismatch ("struct " ++ shape.name) r)
  shortens {s r d} h := by
    split at h
    · next r₁ hr₁ =>
      have h₁ := length_lt_of_skipBlanks hr₁
      have h₂ := length_of_elements h
      omega
    · next r₁ hr₁ =>
      have h₁ := length_lt_of_skipBlanks hr₁
      split at h
      · next r₂ hr₂ =>
        have h₂ := length_lt_of_skipBlanks hr₂
        simp only [Except.ok.injEq, Prod.mk.injEq] at h
        rw [← h.2]
        omega
      · simp at h
      · have h₂ := length_skipBlanks r₁
        have h₃ := length_of_members h
        omega
    · simp at h

/-- Reads a record in either form, for a bracket that may be opened. -/
def reader (shape : Shape σ α) : Reader α :=
  shape.draft.refine shape.finish

end Shape

/-- A record in either form, by the number of brackets that may still be opened. Its shape is the one
that it has with one of them less. -/
def recordWithin (shape : Nat → Shape σ α) : Nat → Reader α :=
  Reader.within ['[', '\x7b'] fun depth => (shape depth).reader

/-! ### Writing -/

/-- A record in the map form, with the fields in order and without blanks. -/
def writeRecord (fields : List (String × List Char)) : List Char :=
  '\x7b' :: separated (fields.map fun (name, value) => quoted name ++ ':' :: value) ++ ['\x7d']

end Containers.Json
