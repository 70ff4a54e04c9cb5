import Containers.Json.Quoted
import Containers.Json.Number
/-!
# Readers for values without parts

* `Json.mismatch` — the problem with a text where some other kind of value was wanted;
* `Json.natural`, `Json.integer`, `Json.string` — readers;
* `Json.orNull` — a reader that also takes the word for nothing;
* `Json.writeNat`, `Json.writeInt`, `Json.null`, `Json.separated` — how such values are written.

Each reader knows the words that its messages use for what was wanted.
-/

namespace Containers.Json

variable {α : Type}

/-- The problem with a text, past its blanks, where some other kind of value was wanted. A word, a
number or a string is read to its end before it is named; the parts of a sequence or a map are
not. -/
def mismatch (wanted : String) : List Char → Problem
  | [] => .cutShort
  | c :: s =>
    if c = '[' then .unfit (.wrongKind .sequence wanted)
    else if c = '\x7b' then .unfit (.wrongKind .map wanted)
    else if c = 'n' then named (.null) (keyword ['u', 'l', 'l'] s)
    else if c = 't' then named (.truth true) (keyword ['r', 'u', 'e'] s)
    else if c = 'f' then named (.truth false) (keyword ['a', 'l', 's', 'e'] s)
    else if c = '"' then
      match content s with
      | .error problem => problem
      | .ok (cs, _) => .unfit (.wrongKind (.text (String.ofList cs)) wanted)
    else if c = '-' then counted (number true s)
    else if c.isDigit then counted (number false (c :: s))
    else .malformed
where
  named (found : Found) : Except Problem (List Char) → Problem
    | .error problem => problem
    | .ok _ => .unfit (.wrongKind found wanted)
  counted : Except Problem (Number × List Char) → Problem
    | .error problem => problem
    | .ok (n, _) => .unfit (.wrongKind n.found wanted)

/-! ### Numbers -/

/-- A number under a rule that says which are wanted. -/
def numeric (wanted : String) (rule : Number → Except Misfit α) : Reader α :=
  Reader.refine
    { run := fun s =>
        match skipBlanks s with
        | '-' :: r => number true r
        | c :: r => if c.isDigit then number false (c :: r) else .error (mismatch wanted (c :: r))
        | [] => .error .cutShort
      shortens := by
        intro s r n h
        have hs := length_skipBlanks s
        split at h
        · next r' hr =>
          have := length_of_number h
          rw [hr, List.length_cons] at hs
          omega
        · next c r' hr =>
          split at h
          · have := length_of_number h
            rw [hr] at hs
            omega
          · simp at h
        · simp at h }
    rule

/-- A natural number of 64 bits. -/
def natural : Reader Nat :=
  numeric "usize" fun
    | .integer n => if n < 0 then .error (.outOfRange n "usize") else .ok n.toNat
    | .fraction x => .error (.wrongKind (.fraction x) "usize")

/-- An integer of 64 bits with a sign. -/
def integer : Reader Int64 :=
  numeric "i64" fun
    | .integer n =>
      if n ≤ Int64.maxValue.toInt then .ok (Int64.ofInt n) else .error (.outOfRange n "i64")
    | .fraction x => .error (.wrongKind (.fraction x) "i64")

/-! ### Strings and nothing -/

/-- A string. -/
def string : Reader String where
  run s :=
    match skipBlanks s with
    | '"' :: r =>
      match content r with
      | .error problem => .error problem
      | .ok (cs, r) => .ok (String.ofList cs, r)
    | r => .error (mismatch "a string" r)
  shortens {s r a} h := by
    split at h
    · next r' hr =>
      split at h
      · simp at h
      · next cs r'' hc =>
        have h₁ := length_lt_of_skipBlanks hr
        have h₂ := length_of_content hc
        simp only [Except.ok.injEq, Prod.mk.injEq] at h
        rw [← h.2]
        omega
    · simp at h

/-- A value, or the word for nothing. -/
def orNull (reader : Reader α) : Reader (Option α) where
  run s :=
    match skipBlanks s with
    | 'n' :: r =>
      match keyword ['u', 'l', 'l'] r with
      | .error problem => .error problem
      | .ok r => .ok (none, r)
    | _ =>
      match reader.run s with
      | .error problem => .error problem
      | .ok (a, r) => .ok (some a, r)
  shortens {s r a} h := by
    split at h
    · next r' hr =>
      split at h
      · simp at h
      · next r'' hk =>
        have h₁ := length_lt_of_skipBlanks hr
        have h₂ := length_of_keyword hk
        simp only [Except.ok.injEq, Prod.mk.injEq] at h
        rw [← h.2]
        omega
    · split at h
      · simp at h
      · next hrun =>
        simp only [Except.ok.injEq, Prod.mk.injEq] at h
        rw [← h.2]
        exact reader.shortens hrun

/-! ### Writing -/

/-- The word for nothing. -/
def null : List Char :=
  ['n', 'u', 'l', 'l']

/-- A natural number in decimal digits. -/
def writeNat (n : Nat) : List Char :=
  Nat.toDigits 10 n

/-- An integer in decimal digits, with a minus sign below zero. -/
def writeInt (n : Int) : List Char :=
  if n < 0 then '-' :: writeNat n.natAbs else writeNat n.natAbs

/-- Texts one after the other with commas between. -/
def separated : List (List Char) → List Char
  | [] => []
  | [t] => t
  | t :: ts => t ++ ',' :: separated ts

end Containers.Json
