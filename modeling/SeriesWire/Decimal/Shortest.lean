/-
The shortest decimal that reads back as a given binary number.

A number `m * 2 ^ unit` stands for every real that rounds to it.  `shortest`
walks down the decimal grids `10 ^ e` and stops at the first one that has a
point in that interval: no coarser grid has one, so no shorter decimal reads
back.  Of the number's two neighbours on that grid it takes the nearer one that
reads back, and the upper one on a tie.
-/
import SeriesWire.Binary

namespace SeriesWire
namespace Decimal

/-- The interval of reals that round to `m * 2 ^ unit`, in quarters of the unit.
Below a power of two the spacing halves.  The ends belong to it iff `m` is
even. -/
structure Interval where
  low : Nat
  high : Nat
  closed : Bool

def Interval.around (f : Format) (m : Nat) (unit : Int) : Interval :=
  { low := 4 * m - (if m = Nat.pow 2 f.fractionBits ∧ f.minUnit < unit then 1 else 2)
    high := 4 * m + 2
    closed := m % 2 = 0 }

/-- Whether `x / y`, counted in quarters of the unit, lies inside. -/
def Interval.contains (i : Interval) (x y : Nat) : Bool :=
  if i.closed then i.low * y ≤ x && x ≤ i.high * y else i.low * y < x && x < i.high * y

/-- The multiple of `10 ^ e` to show for `m * 2 ^ unit`, if one lies inside `i`.
The number is `(m * scale) / base` steps of the grid. -/
def onGrid? (i : Interval) (m : Nat) (unit e : Int) : Option Nat :=
  let scale := Nat.pow 2 unit.toNat * Nat.pow 10 (-e).toNat
  let base := Nat.pow 2 (-unit).toNat * Nat.pow 10 e.toNat
  let below := m * scale / base
  let above := below + 1
  let nearer := if 2 * (m * scale % base) < base then below else above
  match i.contains (4 * below * base) scale, i.contains (4 * above * base) scale with
  | true, true => some nearer
  | true, false => some below
  | false, true => some above
  | false, false => none

/-- The first grid at or below `10 ^ e` with a point inside.  After `steps`
grids the number itself is taken: a multiple of `2 ^ unit` is one of
`10 ^ unit` when `unit` is negative. -/
def search (i : Interval) (m : Nat) (unit : Int) : Nat → Int → Nat × Int
  | 0, _ => (m * Nat.pow 2 unit.toNat * Nat.pow 5 (-unit).toNat, min unit 0)
  | steps + 1, e =>
    match onGrid? i m unit e with
    | some digits => (digits, e)
    | none => search i m unit steps (e - 1)

/-- Digits and exponent of the shortest decimal that reads back as
`m * 2 ^ unit`, for positive `m`.  The search starts above the number, and
seventeen digits always suffice for a double. -/
def shortest (f : Format) (m : Nat) (unit : Int) : Nat × Int :=
  let start := (unit + m.log2 + 1) * 30103 / 100000 + 2
  search (Interval.around f m unit) m unit 24 start

end Decimal
end SeriesWire
