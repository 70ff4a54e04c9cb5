import Containers.Decimal.Shortest
/-!
# Decimal notation

* `Decimal.Layout` — the decisions of a notation;
* `Decimal.render` — a decimal in a notation;
* `floatText` — a double in the notation of error messages.
-/

namespace Containers

namespace Decimal

/-- The decisions of a notation. -/
structure Layout where
  /-- The least power of ten of the first digit that is written with zeros in place of an
  exponent. -/
  leastFixed : Int
  /-- The greatest such power. -/
  greatestFixed : Int
  deriving Repr

/-- Digits with a point after the first `n`, and a zero on either side that would be empty. -/
def point (n : Nat) (digits : List Char) : List Char :=
  let whole := digits.take n
  let part := digits.drop n
  (if whole.isEmpty then ['0'] else whole) ++ '.' :: (if part.isEmpty then ['0'] else part)

/-- A decimal in a notation: positional where the layout says so, else one digit before the point
and an exponent with its sign. -/
def render (layout : Layout) (d : Decimal) : String :=
  let digits := Nat.toDigits 10 d.digits
  let first : Int := d.power + digits.length - 1
  if layout.leastFixed ≤ first ∧ first ≤ layout.greatestFixed then
    let zerosBefore := List.replicate (-first - 1).toNat '0'
    let zerosAfter := List.replicate d.power.toNat '0'
    String.ofList (point (first + 1).toNat (zerosBefore ++ digits ++ zerosAfter))
  else
    let mantissa := if digits.length = 1 then digits else point 1 digits
    let sign := if first < 0 then '-' else '+'
    String.ofList (mantissa ++ 'e' :: sign :: Nat.toDigits 10 first.natAbs)

end Decimal

/-- Numbers in messages are positional from `0.00001` to below `10 ^ 16`. -/
def messageLayout : Decimal.Layout :=
  ⟨-5, 15⟩

/-- A finite double in the notation of messages: the fewest digits that read back, with a sign also
for a negative zero. -/
def floatText (x : Float) : String :=
  let negative := x.toBits >>> 63 == 1
  let size := x.abs
  let digits := if size == 0 then "0.0" else (Interval.ofFloat size).shortest.render messageLayout
  if negative then "-" ++ digits else digits

end Containers
