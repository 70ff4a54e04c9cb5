import Containers.Json.Reader
/-!
# Numbers

* `Json.Literal` — a number as its digits stand in the text; `Json.literal` reads one;
* `Json.Number` — what a literal stands for: an integer of 64 bits, or a double;
* `Literal.value` — the step from one to the other.

Integers past 64 bits, the negative zero and all literals with a fraction or an exponent are
doubles.
-/

namespace Containers.Json

/-! ### Literals -/

/-- A number as its digits stand in the text. -/
structure Literal where
  negative : Bool
  whole : List Char
  fraction : Option (List Char)
  /-- Whether the exponent is negative, and its digits. -/
  exponent : Option (Bool × List Char)

/-- The digits at the front of a text. -/
def digits (s : List Char) : List Char × List Char :=
  (s.takeWhile Char.isDigit, s.dropWhile Char.isDigit)

/-- One digit or more. -/
def someDigits (s : List Char) : Except Problem (List Char × List Char) :=
  match digits s with
  | ([], []) => .error .cutShort
  | ([], _ :: _) => .error .malformed
  | (c :: cs, r) => .ok (c :: cs, r)

/-- The digits in front of a point: a zero at their start stands alone. -/
def wholePart : List Char → Except Problem (List Char × List Char)
  | '0' :: s =>
    match s with
    | c :: _ => if c.isDigit then .error .malformed else .ok (['0'], s)
    | [] => .ok (['0'], [])
  | s => someDigits s

/-- A point with the digits that have to follow, if there is one. -/
def fractionPart : List Char → Except Problem (Option (List Char) × List Char)
  | '.' :: s => do
    let (ds, r) ← someDigits s
    return (some ds, r)
  | s => .ok (none, s)

/-- The sign of an exponent: whether it is negative. -/
def exponentSign : List Char → Bool × List Char
  | '-' :: s => (true, s)
  | '+' :: s => (false, s)
  | s => (false, s)

/-- The sign and the digits of an exponent, if there is one. -/
def exponentPart : List Char → Except Problem (Option (Bool × List Char) × List Char)
  | c :: s =>
    if c = 'e' ∨ c = 'E' then do
      let (negative, r) := exponentSign s
      let (ds, r) ← someDigits r
      return (some (negative, ds), r)
    else .ok (none, c :: s)
  | [] => .ok (none, [])

/-- The literal at the front of a text, whose minus sign is already taken. -/
def literal (negative : Bool) (s : List Char) : Except Problem (Literal × List Char) := do
  let (whole, s) ← wholePart s
  let (fraction, s) ← fractionPart s
  let (exponent, s) ← exponentPart s
  return (⟨negative, whole, fraction, exponent⟩, s)

/-! ### Lengths -/

theorem length_of_someDigits {s ds r : List Char} (h : someDigits s = .ok (ds, r)) :
    r.length < s.length := by
  unfold someDigits digits at h
  split at h
  · simp at h
  · simp at h
  · next c cs r' hd =>
    simp only [Except.ok.injEq, Prod.mk.injEq] at h
    simp only [Prod.mk.injEq] at hd
    have hlen := congrArg List.length (List.takeWhile_append_dropWhile (p := Char.isDigit) (l := s))
    rw [List.length_append, hd.1, hd.2] at hlen
    rw [← h.2, ← hlen, List.length_cons]
    omega

theorem length_of_wholePart {s ds r : List Char} (h : wholePart s = .ok (ds, r)) :
    r.length < s.length := by
  unfold wholePart at h
  split at h
  · split at h
    · split at h
      · simp at h
      · simp only [Except.ok.injEq, Prod.mk.injEq] at h
        rw [← h.2]
        simp
    · simp only [Except.ok.injEq, Prod.mk.injEq] at h
      rw [← h.2]
      simp
  · exact length_of_someDigits h

theorem length_of_fractionPart {s r : List Char} {ds : Option (List Char)}
    (h : fractionPart s = .ok (ds, r)) : r.length ≤ s.length := by
  unfold fractionPart at h
  split at h
  · next s =>
    cases hd : someDigits s with
    | error p => simp [hd, bind, Except.bind] at h
    | ok u =>
      have := length_of_someDigits hd
      simp only [hd, bind, Except.bind, pure, Except.pure, Except.ok.injEq, Prod.mk.injEq] at h
      rw [← h.2, List.length_cons]
      omega
  · simp only [Except.ok.injEq, Prod.mk.injEq] at h
    obtain ⟨-, rfl⟩ := h
    exact Nat.le_refl _

theorem length_exponentSign (s : List Char) : (exponentSign s).2.length ≤ s.length := by
  unfold exponentSign
  split <;> simp

theorem length_of_exponentPart {s r : List Char} {e : Option (Bool × List Char)}
    (h : exponentPart s = .ok (e, r)) : r.length ≤ s.length := by
  unfold exponentPart at h
  split at h
  · next c s =>
    split at h
    · have h₁ := length_exponentSign s
      cases hd : someDigits (exponentSign s).2 with
      | error p => simp [hd, bind, Except.bind] at h
      | ok u =>
        have h₂ := length_of_someDigits hd
        simp only [hd, bind, Except.bind, pure, Except.pure, Except.ok.injEq, Prod.mk.injEq] at h
        rw [← h.2, List.length_cons]
        omega
    · simp only [Except.ok.injEq, Prod.mk.injEq] at h
      obtain ⟨-, rfl⟩ := h
      exact Nat.le_refl _
  · simp only [Except.ok.injEq, Prod.mk.injEq] at h
    obtain ⟨-, rfl⟩ := h
    exact Nat.le_refl _

theorem length_of_literal {negative : Bool} {s r : List Char} {l : Literal}
    (h : literal negative s = .ok (l, r)) : r.length < s.length := by
  unfold literal at h
  cases hw : wholePart s with
  | error p => simp [hw, bind, Except.bind] at h
  | ok w =>
    cases hf : fractionPart w.2 with
    | error p => simp [hw, hf, bind, Except.bind] at h
    | ok f =>
      cases he : exponentPart f.2 with
      | error p => simp [hw, hf, he, bind, Except.bind] at h
      | ok e =>
        have h₁ := length_of_wholePart hw
        have h₂ := length_of_fractionPart hf
        have h₃ := length_of_exponentPart he
        simp only [hw, hf, he, bind, Except.bind, pure, Except.pure, Except.ok.injEq,
          Prod.mk.injEq] at h
        rw [← h.2]
        omega

/-! ### Doubles -/

/-- Digits gathered in 64 bits, with the power of ten that they are short of or past the value. -/
structure Gathered where
  significand : Nat
  power : Int

namespace Gathered

/-- One digit more, where 64 bits have room for it. -/
def push? (g : Gathered) (c : Char) : Option Nat :=
  let n := g.significand * 10 + (c.toNat - '0'.toNat)
  if n < UInt64.size then some n else none

/-- Gathers the digits in front of the point. From the first that has no room, each counts as a
power of ten. -/
def whole : List Char → Gathered → Gathered
  | [], g => g
  | c :: cs, g =>
    match g.push? c with
    | some n => whole cs { g with significand := n }
    | none => { g with power := g.power + (cs.length + 1) }

/-- Gathers the digits after the point. From the first that has no room, they are left out. -/
def fraction : List Char → Gathered → Gathered
  | [], g => g
  | c :: cs, g =>
    match g.push? c with
    | some n => fraction cs ⟨n, g.power - 1⟩
    | none => g

end Gathered

/-- A power of ten, rounded to the nearest double. -/
def tenTo (n : Nat) : Float :=
  Float.ofScientific 1 false n

/-- A double moved by a power of ten, in steps of 308 where it is small; there is none past the
largest. -/
def scale (x : Float) (power : Int) : Option Float :=
  if power.natAbs ≤ 308 then
    if 0 ≤ power then
      let y := x * tenTo power.toNat
      if y.isInf then none else some y
    else some (x / tenTo (-power).toNat)
  else if x == 0 then some x
  else if 0 ≤ power then none
  else scale (x / tenTo 308) (power + 308)
termination_by power.natAbs
decreasing_by omega

/-- The double that a literal stands for, without its sign. An exponent past 31 bits leaves zero,
unless it is positive and the digits are not zero. -/
def Literal.size (l : Literal) : Option Float :=
  let g := Gathered.fraction (l.fraction.getD []) (Gathered.whole l.whole ⟨0, 0⟩)
  let x := (UInt64.ofNat g.significand).toFloat
  match l.exponent with
  | none => scale x g.power
  | some (negative, ds) =>
    let e := Nat.ofDigitChars 10 ds 0
    if Int32.maxValue.toInt < e then if negative || g.significand = 0 then some 0 else none
    else scale x (if negative then g.power - e else g.power + e)

/-! ### Values -/

/-- What a literal stands for. -/
inductive Number where
  | integer (n : Int)
  | fraction (x : Float)

def Literal.isInteger (l : Literal) : Bool :=
  l.fraction.isNone && l.exponent.isNone

/-- What a literal stands for. A number past the largest double has no value. -/
def Literal.value (l : Literal) : Except Problem Number :=
  let n := Nat.ofDigitChars 10 l.whole 0
  if l.isInteger && !l.negative && n < UInt64.size then .ok (.integer n)
  else if l.isInteger && l.negative && 0 < n && Int64.minValue.toInt ≤ -n then .ok (.integer (-n))
  else
    match l.size with
    | some x => .ok (.fraction (if l.negative then -x else x))
    | none => .error .malformed

/-- The number at the front of a text, whose minus sign is already taken. -/
def number (negative : Bool) (s : List Char) : Except Problem (Number × List Char) := do
  let (l, r) ← literal negative s
  let n ← l.value
  return (n, r)

theorem length_of_number {negative : Bool} {s r : List Char} {n : Number}
    (h : number negative s = .ok (n, r)) : r.length < s.length := by
  unfold number at h
  cases hl : literal negative s with
  | error p => simp [hl, bind, Except.bind] at h
  | ok l =>
    have := length_of_literal hl
    cases hv : l.1.value with
    | error p => simp [hl, hv, bind, Except.bind] at h
    | ok v =>
      simp only [hl, hv, bind, Except.bind, pure, Except.pure, Except.ok.injEq,
        Prod.mk.injEq] at h
      rw [← h.2]
      exact this

def Number.found : Number → Found
  | .integer n => .integer n
  | .fraction x => .fraction x

end Containers.Json
