import Containers.Json.Quoted
import Containers.Json.Number
/-!
# Passing over values

* `Json.Bracket` — a bracket that is open;
* `Json.pass` — one scalar, or one opening bracket, with the closing brackets after it;
* `Json.skip` — a whole value, however deep its brackets.

A value is passed over by its grammar alone: a number may be past every range, and half of a
character may stand alone in a string. A number that breaks off is malformed here.
-/

namespace Containers.Json

/-- A bracket that is open. -/
inductive Bracket where
  | square
  | curly
  deriving DecidableEq, Repr

def Bracket.closing : Bracket → Char
  | square => ']'
  | curly => '\x7d'

/-- Passes over the key and the colon in front of a value inside a bracket: a square bracket has
neither. -/
def label : Bracket → List Char → Except Problem (List Char)
  | .square, s => .ok s
  | .curly, s =>
    match skipBlanks s with
    | [] => .error .cutShort
    | c :: r =>
      if c = '"' then do
        let r ← skipContent r
        match skipBlanks r with
        | [] => .error .cutShort
        | d :: r => if d = ':' then .ok r else .error .malformed
      else .error .malformed

theorem length_of_label {b : Bracket} {s r : List Char} (h : label b s = .ok r) :
    r.length ≤ s.length := by
  unfold label at h
  split at h
  · simp only [Except.ok.injEq] at h
    subst h
    exact Nat.le_refl _
  · split at h
    · simp at h
    · next c r₁ hr₁ =>
      have h₁ := length_lt_of_skipBlanks hr₁
      split at h
      · cases hs : skipContent r₁ with
        | error p => simp [hs, bind, Except.bind] at h
        | ok r₂ =>
          have h₂ := length_of_skipContent hs
          simp only [hs, bind, Except.bind] at h
          split at h
          · simp at h
          · next d r₃ hr₃ =>
            have h₃ := length_lt_of_skipBlanks hr₃
            split at h
            · simp only [Except.ok.injEq] at h
              rw [← h]
              omega
            · simp at h
      · simp at h

/-- Passes over what follows a value inside the open brackets: closing brackets, until a comma
leads to the next value or all of them are closed. -/
def following : List Bracket → List Char → Except Problem (List Bracket × List Char)
  | [], s => .ok ([], s)
  | b :: bs, s =>
    match skipBlanks s with
    | [] => .error .cutShort
    | c :: r =>
      if c = ',' then do
        let r ← label b r
        return (b :: bs, r)
      else if c = b.closing then following bs r
      else .error .malformed

theorem length_of_following {bs bs' : List Bracket} {s r : List Char}
    (h : following bs s = .ok (bs', r)) : r.length ≤ s.length := by
  induction bs generalizing s with
  | nil =>
    simp only [following, Except.ok.injEq, Prod.mk.injEq] at h
    obtain ⟨-, rfl⟩ := h
    exact Nat.le_refl _
  | cons b bs ih =>
    simp only [following] at h
    split at h
    · simp at h
    · next c r₁ hr₁ =>
      have h₁ := length_lt_of_skipBlanks hr₁
      split at h
      · cases hl : label b r₁ with
        | error p => simp [hl, bind, Except.bind] at h
        | ok r₂ =>
          have h₂ := length_of_label hl
          simp only [hl, bind, Except.bind, pure, Except.pure, Except.ok.injEq,
            Prod.mk.injEq] at h
          rw [← h.2]
          omega
      · split at h
        · have h₂ := ih h
          omega
        · simp at h

/-- Passes over a number: what breaks off or goes on wrongly is malformed. -/
def skipNumber (s : List Char) : Except Problem (List Char) :=
  match literal false s with
  | .error _ => .error .malformed
  | .ok (_, r) => .ok r

theorem length_of_skipNumber {s r : List Char} (h : skipNumber s = .ok r) :
    r.length < s.length := by
  unfold skipNumber at h
  split at h
  · simp at h
  · next hl =>
    simp only [Except.ok.injEq] at h
    rw [← h]
    exact length_of_literal hl

/-- Passes over a value without parts that starts with `c`. -/
def skipScalar (c : Char) (s : List Char) : Except Problem (List Char) :=
  if c = 'n' then keyword ['u', 'l', 'l'] s
  else if c = 't' then keyword ['r', 'u', 'e'] s
  else if c = 'f' then keyword ['a', 'l', 's', 'e'] s
  else if c = '"' then skipContent s
  else if c = '-' then skipNumber s
  else if c.isDigit then skipNumber (c :: s)
  else .error .malformed

theorem length_of_skipScalar {c : Char} {s r : List Char} (h : skipScalar c s = .ok r) :
    r.length ≤ s.length := by
  unfold skipScalar at h
  split at h
  · exact length_of_keyword h
  split at h
  · exact length_of_keyword h
  split at h
  · exact length_of_keyword h
  split at h
  · exact Nat.le_of_lt (length_of_skipContent h)
  split at h
  · exact Nat.le_of_lt (length_of_skipNumber h)
  split at h
  · have := length_of_skipNumber h
    rw [List.length_cons] at this
    omega
  · simp at h

/-- The bracket that a character opens. -/
def Bracket.opened? (c : Char) : Option Bracket :=
  if c = '[' then some .square else if c = '\x7b' then some .curly else none

/-- Passes over a value without parts, over an empty pair of brackets or over one opening bracket,
inside the open brackets `bs`. Tells the brackets inside which the next value stands: none when the
outermost value is over. -/
def pass (bs : List Bracket) (s : List Char) : Except Problem (List Bracket × List Char) :=
  match skipBlanks s with
  | [] => .error .cutShort
  | c :: r =>
    match Bracket.opened? c with
    | none => do
      let r ← skipScalar c r
      following bs r
    | some b =>
      match skipBlanks r with
      | [] => .error .cutShort
      | d :: r' =>
        if d = b.closing then following bs r'
        else do
          let r ← label b r
          return (b :: bs, r)

theorem length_of_pass {bs bs' : List Bracket} {s r : List Char}
    (h : pass bs s = .ok (bs', r)) : r.length < s.length := by
  unfold pass at h
  split at h
  · simp at h
  · next c r₁ hr₁ =>
    have h₁ := length_lt_of_skipBlanks hr₁
    split at h
    · cases hs : skipScalar c r₁ with
      | error p => simp [hs, bind, Except.bind] at h
      | ok r₂ =>
        have h₂ := length_of_skipScalar hs
        simp only [hs, bind, Except.bind] at h
        have h₃ := length_of_following h
        omega
    · next b hb =>
      split at h
      · simp at h
      · next d r₂ hr₂ =>
        have h₂ := length_lt_of_skipBlanks hr₂
        split at h
        · have h₃ := length_of_following h
          omega
        · cases hl : label b r₁ with
          | error p => simp [hl, bind, Except.bind] at h
          | ok r₃ =>
            have h₃ := length_of_label hl
            simp only [hl, bind, Except.bind, pure, Except.pure, Except.ok.injEq,
              Prod.mk.injEq] at h
            rw [← h.2]
            omega

/-- Passes over a value inside the open brackets `bs`, and on until they are closed. -/
def skip (bs : List Bracket) (s : List Char) : Except Problem (List Char) :=
  match h : pass bs s with
  | .error problem => .error problem
  | .ok ([], r) => .ok r
  | .ok (b :: bs, r) =>
    have := length_of_pass h
    skip (b :: bs) r
termination_by s.length

theorem length_of_skip {bs : List Bracket} {s r : List Char} (h : skip bs s = .ok r) :
    r.length < s.length := by
  fun_induction skip bs s with
  | case1 => simp at h
  | case2 bs s r' hp =>
    simp only [Except.ok.injEq] at h
    rw [← h]
    exact length_of_pass hp
  | case3 bs s b bs' r' hp h₁ ih =>
    have h₂ := ih h
    omega

end Containers.Json
