/-
Binary floating point numbers as bit patterns.  `Format.read` takes a pattern
apart, `Format.round` rounds `m * 2 ^ unit` to the nearest pattern with ties to
the even neighbour, and every conversion of this library goes through those two,
in exact integer arithmetic.
-/

namespace SeriesWire

/-- An interchange format, given by the widths of its fields. -/
structure Format where
  fractionBits : Nat
  exponentBits : Nat

/-- What a bit pattern stands for.  A finite number is `significand * 2 ^ unit`
with its sign. -/
inductive Datum
  | nan (negative : Bool) (fraction : Nat)
  | infinite (negative : Bool)
  | finite (negative : Bool) (significand : Nat) (unit : Int)
  deriving DecidableEq, Repr

namespace Format

def single : Format := ⟨23, 8⟩

def double : Format := ⟨52, 11⟩

variable (f : Format)

/-- The least significant bit of a subnormal number is `2 ^ minUnit`. -/
def minUnit : Int := 2 - (Nat.pow 2 (f.exponentBits - 1) : Nat) - f.fractionBits

def topExponent : Nat := Nat.pow 2 f.exponentBits - 1

/-- The pattern of positive infinity, which is also the first one past the
finite numbers. -/
def infinity : Nat := f.topExponent * Nat.pow 2 f.fractionBits

def signed (negative : Bool) (magnitude : Nat) : Nat :=
  if negative then Nat.pow 2 (f.fractionBits + f.exponentBits) + magnitude else magnitude

def read (bits : Nat) : Datum :=
  let negative := bits.testBit (f.fractionBits + f.exponentBits)
  let exponent := bits / Nat.pow 2 f.fractionBits % Nat.pow 2 f.exponentBits
  let fraction := bits % Nat.pow 2 f.fractionBits
  if exponent = f.topExponent then
    if fraction = 0 then .infinite negative else .nan negative fraction
  else if exponent = 0 then .finite negative fraction f.minUnit
  else .finite negative (Nat.pow 2 f.fractionBits + fraction) (f.minUnit + exponent - 1)

/-- `m / 2 ^ k` to the nearest integer, a half going to the even one. -/
def halfEven (m k : Nat) : Nat :=
  let quotient := m / Nat.pow 2 k
  let twice := 2 * (m % Nat.pow 2 k)
  if Nat.pow 2 k < twice ∨ twice = Nat.pow 2 k ∧ quotient % 2 = 1 then quotient + 1 else quotient

/-- The pattern nearest to `m * 2 ^ unit`, without its sign.  The significand is
counted in units of `2 ^ (unit + drop)`, the finest that keeps it within the
format's precision.  Adding it to the exponent field lets a carry out of the
significand raise the exponent, and a number too large becomes infinity. -/
def magnitude (m : Nat) (unit : Int) : Nat :=
  if m = 0 then 0
  else
    let drop : Int := max (m.log2 - f.fractionBits) (f.minUnit - unit)
    let significand := if drop ≤ 0 then m * Nat.pow 2 (-drop).toNat else halfEven m drop.toNat
    min ((unit + drop - f.minUnit).toNat * Nat.pow 2 f.fractionBits + significand) f.infinity

def round (negative : Bool) (m : Nat) (unit : Int) : Nat :=
  f.signed negative (f.magnitude m unit)

end Format

/-- A double precision number, kept as its bits: two NaNs with different bits
are different. -/
structure Binary64 where
  bits : UInt64
  deriving DecidableEq, Repr, Inhabited

structure Binary32 where
  bits : UInt32
  deriving DecidableEq, Repr, Inhabited

namespace Binary32

def datum (x : Binary32) : Datum := Format.single.read x.bits.toNat

def isFinite (x : Binary32) : Bool := x.datum matches .finite ..

def isNaN (x : Binary32) : Bool := x.datum matches .nan ..

end Binary32

namespace Binary64

def datum (x : Binary64) : Datum := Format.double.read x.bits.toNat

def isFinite (x : Binary64) : Bool := x.datum matches .finite ..

def isNaN (x : Binary64) : Bool := x.datum matches .nan ..

def ofInt (n : Int) : Binary64 :=
  ⟨UInt64.ofNat (Format.double.round (n < 0) n.natAbs 0)⟩

/-- The nearest single precision number.  A NaN keeps its sign and the top of
its fraction, and comes out quiet. -/
def narrow (x : Binary64) : Binary32 :=
  let f := Format.single
  let bits := match x.datum with
    | .nan negative fraction =>
      let kept := fraction / Nat.pow 2 (Format.double.fractionBits - f.fractionBits)
      let quiet := Nat.pow 2 (f.fractionBits - 1)
      f.signed negative (f.infinity + (kept % quiet + quiet))
    | .infinite negative => f.signed negative f.infinity
    | .finite negative m unit => f.round negative m unit
  ⟨UInt32.ofNat bits⟩

/-- The nearest integer, a half going away from zero; `none` for what is not
finite. -/
def toInt? (x : Binary64) : Option Int :=
  match x.datum with
  | .finite negative m unit =>
    let k := (-unit).toNat
    let n := (2 * (m * Nat.pow 2 unit.toNat) + Nat.pow 2 k) / Nat.pow 2 (k + 1)
    some (if negative then -n else n)
  | _ => none

end Binary64
end SeriesWire
