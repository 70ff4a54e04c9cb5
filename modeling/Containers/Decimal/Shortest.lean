/-!
# The fewest digits that read back

A binary floating-point number stands for an interval of reals, those that round to it. Its shortest
decimal is a point of the interval with as few digits as can be, the nearest of those.

* `Decimal` — digits and a power of ten;
* `Interval` — a positive number and the ends of its interval, over one denominator;
* `Interval.shortest` — the shortest decimal;
* `Interval.ofFloat` — the interval of a positive double.
-/

namespace Containers

/-- The number `digits * 10 ^ power`. -/
structure Decimal where
  digits : Nat
  power : Int
  deriving DecidableEq, Repr

namespace Decimal

/-- The same number without zeros at the end of its digits. -/
def trim (d : Decimal) : Decimal :=
  go d.digits d
where
  go : Nat → Decimal → Decimal
    | 0, d => d
    | fuel + 1, d =>
      if d.digits ≠ 0 ∧ d.digits % 10 = 0 then go fuel ⟨d.digits / 10, d.power + 1⟩ else d

end Decimal

/-- A positive number `value / unit` with the numbers from `low / unit` to `high / unit` that round
to it. -/
structure Interval where
  low : Nat
  value : Nat
  high : Nat
  unit : Nat
  /-- Whether the two ends round to the number as well. -/
  closed : Bool
  deriving Repr

namespace Interval

/-- The same interval measured in steps of `10 ^ power`. -/
def inSteps (i : Interval) (power : Int) : Interval :=
  if 0 ≤ power then { i with unit := i.unit * Nat.pow 10 power.toNat }
  else
    let scale := Nat.pow 10 (-power).toNat
    { i with low := i.low * scale, value := i.value * scale, high := i.high * scale }

/-- Whether the interval holds a whole number. -/
def holds (i : Interval) (n : Nat) : Bool :=
  if i.closed then i.low ≤ n * i.unit && n * i.unit ≤ i.high
  else i.low < n * i.unit && n * i.unit < i.high

/-- A whole number in the interval that is a neighbour of its value: the nearer of two, and of two
equally near the even one. -/
def neighbour? (i : Interval) : Option Nat :=
  let below := i.value / i.unit
  match i.holds below, i.holds (below + 1) with
  | false, false => none
  | true, false => some below
  | false, true => some (below + 1)
  | true, true =>
    let down := 2 * (i.value % i.unit)
    if down < i.unit then some below
    else if i.unit < down then some (below + 1)
    else if below % 2 = 0 then some below
    else some (below + 1)

/-- The power of ten of the first digit of the value. -/
def magnitude (i : Interval) : Int :=
  if i.unit ≤ i.value then ((Nat.toDigits 10 (i.value / i.unit)).length : Int) - 1
  else -(places 400 i.value : Nat)
where
  /-- How often ten has to be multiplied on until the unit is reached. -/
  places : Nat → Nat → Nat
    | 0, _ => 0
    | fuel + 1, value => if i.unit ≤ value then 0 else places fuel (value * 10) + 1

/-- The first grid of ever finer decimal steps that has a point in the interval gives the digits. -/
def search (i : Interval) : (grids : Nat) → (power : Int) → Decimal
  | 0, power => ⟨(i.inSteps power).value / (i.inSteps power).unit, power⟩
  | grids + 1, power =>
    match (i.inSteps power).neighbour? with
    | some digits => ⟨digits, power⟩
    | none => i.search grids (power - 1)

/-- The shortest decimal in the interval. Seventeen digits always suffice for a double. -/
def shortest (i : Interval) : Decimal :=
  (i.search 17 i.magnitude).trim

/-- The interval of a positive double. Half the gap to the next number belongs to it on each side,
and below a power of two the gap is half as wide. -/
def ofFloat (x : Float) : Interval :=
  let field := (x.toBits >>> 52 &&& 0x7ff).toNat
  let fraction := (x.toBits &&& 0xfffffffffffff).toNat
  let mantissa := if field = 0 then fraction else 0x10000000000000 + fraction
  let power : Int := (max 1 field : Nat) - 1077
  let below := if fraction = 0 ∧ 1 < field then 1 else 2
  let scale := Nat.pow 2 power.toNat
  { low := (4 * mantissa - below) * scale
    value := 4 * mantissa * scale
    high := (4 * mantissa + 2) * scale
    unit := Nat.pow 2 (-power).toNat
    closed := mantissa % 2 = 0 }

end Interval

end Containers
