/-
Patterns that rounding can leave.  A rounded number is no larger than infinity,
whose pattern is the first behind those of the finite numbers.  So a finite number
is narrowed to a finite one or to infinity, and keeps its sign (`datum_narrow`); it
becomes infinite from `2 ^ 128 - 2 ^ 103` on (`narrow_isFinite_eq_false_iff`).
-/
import SeriesWire.Binary
import SeriesWire.Proofs.Decimal.Interval

namespace SeriesWire

namespace Format

variable {f : Format} {negative : Bool} {n m k p : Nat} {unit drop : Int}

theorem magnitude_le (f : Format) (m : Nat) (unit : Int) : f.magnitude m unit ≤ f.infinity := by
  rw [magnitude]
  split
  · exact Nat.zero_le _
  · exact Nat.min_le_right _ _

theorem infinity_lt (f : Format) : f.infinity < Nat.pow 2 (f.fractionBits + f.exponentBits) := by
  have hexponent := pow_pos f.exponentBits
  rw [infinity, topExponent, pow_add, Nat.mul_comm (Nat.pow 2 f.fractionBits)]
  exact Nat.mul_lt_mul_of_pos_right (by omega) (pow_pos f.fractionBits)

/-- The sign stands above the other fields. -/
theorem read_signed (hn : n < Nat.pow 2 (f.fractionBits + f.exponentBits)) :
    f.read (f.signed negative n) =
      if n / Nat.pow 2 f.fractionBits = f.topExponent then
        if n % Nat.pow 2 f.fractionBits = 0 then .infinite negative
        else .nan negative (n % Nat.pow 2 f.fractionBits)
      else if n / Nat.pow 2 f.fractionBits = 0 then
        .finite negative (n % Nat.pow 2 f.fractionBits) f.minUnit
      else
        .finite negative (Nat.pow 2 f.fractionBits + n % Nat.pow 2 f.fractionBits)
          (f.minUnit + (n / Nat.pow 2 f.fractionBits : Nat) - 1) := by
  have hclear : n.testBit (f.fractionBits + f.exponentBits) = false := Nat.testBit_lt_two_pow hn
  have hexponent : n / Nat.pow 2 f.fractionBits < Nat.pow 2 f.exponentBits := by
    rw [Nat.div_lt_iff_lt_mul (pow_pos _), Nat.mul_comm, ← pow_add]
    exact hn
  have hsign : (f.signed negative n).testBit (f.fractionBits + f.exponentBits) = negative := by
    cases negative with
    | false => exact hclear
    | true =>
      show (Nat.pow 2 _ + n).testBit _ = true
      rw [← Bool.not_false, ← hclear]
      exact Nat.testBit_two_pow_add_eq n _
  have hfields : f.signed negative n / Nat.pow 2 f.fractionBits % Nat.pow 2 f.exponentBits =
        n / Nat.pow 2 f.fractionBits ∧
      f.signed negative n % Nat.pow 2 f.fractionBits = n % Nat.pow 2 f.fractionBits := by
    cases negative with
    | false => exact ⟨Nat.mod_eq_of_lt hexponent, rfl⟩
    | true =>
      have hsum : f.signed true n =
          Nat.pow 2 f.fractionBits * Nat.pow 2 f.exponentBits + n := by
        rw [← pow_add]
        rfl
      rw [hsum, Nat.mul_add_div (pow_pos _), Nat.add_mod_left, Nat.mod_eq_of_lt hexponent,
        Nat.mul_add_mod]
      exact ⟨rfl, rfl⟩
  rw [read, hsign, hfields.1, hfields.2]

theorem read_infinity (f : Format) (negative : Bool) :
    f.read (f.signed negative f.infinity) = .infinite negative := by
  rw [read_signed f.infinity_lt, infinity, Nat.mul_div_cancel _ (pow_pos _), Nat.mul_mod_left,
    if_pos rfl, if_pos rfl]

theorem read_of_lt_infinity (hn : n < f.infinity) :
    ∃ m unit, f.read (f.signed negative n) = .finite negative m unit := by
  have hexponent : n / Nat.pow 2 f.fractionBits < f.topExponent := by
    rwa [Nat.div_lt_iff_lt_mul (pow_pos _)]
  rw [read_signed (Nat.lt_trans hn f.infinity_lt), if_neg (Nat.ne_of_lt hexponent)]
  split
  · exact ⟨_, _, rfl⟩
  · exact ⟨_, _, rfl⟩

/-- Rounding gives a finite number or infinity, of the sign it was asked for. -/
theorem read_round (f : Format) (negative : Bool) (m : Nat) (unit : Int) :
    f.read (f.round negative m unit) = .infinite negative ∨
      ∃ m' unit', f.read (f.round negative m unit) = .finite negative m' unit' := by
  rcases Nat.lt_or_eq_of_le (f.magnitude_le m unit) with hlt | heq
  · exact .inr (read_of_lt_infinity hlt)
  · rw [round, heq]
    exact .inl (f.read_infinity negative)

theorem round_lt (f : Format) (negative : Bool) (m : Nat) (unit : Int) :
    f.round negative m unit < 2 * Nat.pow 2 (f.fractionBits + f.exponentBits) := by
  have hle := f.magnitude_le m unit
  have hlt := f.infinity_lt
  cases negative with
  | false =>
    show f.magnitude m unit < _
    omega
  | true =>
    show Nat.pow 2 _ + f.magnitude m unit < _
    omega

/-! ## Where single precision ends -/

/-- Above an odd quotient, a half goes up. -/
theorem halfEven_of_odd (hodd : m / Nat.pow 2 k % 2 = 1) :
    halfEven m k = m / Nat.pow 2 k +
      if Nat.pow 2 k * (2 * (m / Nat.pow 2 k) + 1) ≤ 2 * m then 1 else 0 := by
  have hm := Nat.div_add_mod m (Nat.pow 2 k)
  have hmul : Nat.pow 2 k * (2 * (m / Nat.pow 2 k) + 1) =
      2 * (Nat.pow 2 k * (m / Nat.pow 2 k)) + Nat.pow 2 k := by
    rw [Nat.mul_add, Nat.mul_one, Nat.mul_left_comm]
  rw [hmul]
  simp only [halfEven, hodd, and_true]
  generalize Nat.pow 2 k * (m / Nat.pow 2 k) = whole at *
  split <;> split <;> omega

theorem le_halfEven (m k : Nat) : m / Nat.pow 2 k ≤ halfEven m k := by
  simp only [halfEven]
  split <;> omega

theorem halfEven_le (m k : Nat) : halfEven m k ≤ m / Nat.pow 2 k + 1 := by
  simp only [halfEven]
  split <;> omega

/-- `m` counted in units of `2 ^ drop`, to the nearest. -/
def scaled (m : Nat) (drop : Int) : Nat :=
  if drop ≤ 0 then m * Nat.pow 2 (-drop).toNat else halfEven m drop.toNat

theorem pow_le_mul {a b n : Nat} (h : Nat.pow 2 a ≤ n) : Nat.pow 2 (a + b) ≤ n * Nat.pow 2 b := by
  rw [pow_add]
  exact Nat.mul_le_mul_right _ h

theorem mul_lt_pow {a b n : Nat} (h : n < Nat.pow 2 a) : n * Nat.pow 2 b < Nat.pow 2 (a + b) := by
  rw [pow_add]
  exact Nat.mul_lt_mul_of_pos_right h (pow_pos _)

theorem pow_le_pow {a b : Nat} (h : a ≤ b) : Nat.pow 2 a ≤ Nat.pow 2 b :=
  Nat.pow_le_pow_right (by decide) h

theorem div_pow_lt (hdrop : m.log2 ≤ p + k) : m / Nat.pow 2 k < Nat.pow 2 (p + 1) := by
  rw [Nat.div_lt_iff_lt_mul (pow_pos _), ← pow_add]
  exact Nat.lt_of_lt_of_le Nat.lt_log2_self (pow_le_pow (by omega))

theorem scaled_le (hdrop : (m.log2 : Int) ≤ p + drop) : scaled m drop ≤ Nat.pow 2 (p + 1) := by
  rw [scaled]
  split
  · exact Nat.le_trans (Nat.le_of_lt (mul_lt_pow Nat.lt_log2_self)) (pow_le_pow (by omega))
  · have h := div_pow_lt (m := m) (p := p) (k := drop.toNat) (by omega)
    exact Nat.le_trans (halfEven_le m _) h

theorem le_scaled (hm : m ≠ 0) (hdrop : p + drop ≤ (m.log2 : Int)) :
    Nat.pow 2 p ≤ scaled m drop := by
  have hlog : Nat.pow 2 m.log2 ≤ m := Nat.log2_self_le hm
  rw [scaled]
  split
  · exact Nat.le_trans (pow_le_pow (by omega)) (pow_le_mul hlog)
  · refine Nat.le_trans ?_ (le_halfEven m _)
    rw [Nat.le_div_iff_mul_le (pow_pos _), ← pow_add]
    exact Nat.le_trans (pow_le_pow (by omega)) hlog

/-- Rounding to `p + 1` bits gives one bit more when all of them are set and the rest
is at least a half. -/
theorem scaled_eq_pow (hdrop : (m.log2 : Int) = p + drop) :
    scaled m drop = Nat.pow 2 (p + 1) ↔
      0 < drop ∧ Nat.pow 2 drop.toNat * (2 * Nat.pow 2 (p + 1) - 1) ≤ 2 * m := by
  by_cases hpos : drop ≤ 0
  · have hlt : m * Nat.pow 2 (-drop).toNat < Nat.pow 2 (m.log2 + 1 + (-drop).toNat) :=
      mul_lt_pow Nat.lt_log2_self
    have hp : m.log2 + 1 + (-drop).toNat = p + 1 := by omega
    rw [hp] at hlt
    rw [scaled, if_pos hpos]
    omega
  · have hquotient := div_pow_lt (m := m) (p := p) (k := drop.toNat) (by omega)
    have hspan := Nat.lt_mul_div_succ m (pow_pos drop.toNat)
    have hle := halfEven_le m drop.toNat
    have hround := halfEven_of_odd (m := m) (k := drop.toNat)
    have htop : Nat.pow 2 (p + 1) = 2 * Nat.pow 2 p := Nat.pow_succ'
    rw [scaled, if_neg hpos]
    generalize m / Nat.pow 2 drop.toNat = quotient at *
    generalize Nat.pow 2 (p + 1) = top at *
    by_cases hfull : quotient = top - 1
    · have hwhole : 2 * quotient + 1 = 2 * top - 1 := by omega
      rw [hround (by omega), hwhole]
      split
      next h => exact ⟨fun _ => ⟨by omega, h⟩, fun _ => by omega⟩
      next h => exact ⟨fun _ => by omega, fun h' => absurd h'.2 h⟩
    · refine ⟨fun _ => by omega, fun ⟨_, h⟩ => ?_⟩
      have hless : 2 * (quotient + 1) ≤ 2 * top - 1 := by omega
      have hmul := Nat.mul_le_mul_left (Nat.pow 2 drop.toNat) hless
      rw [Nat.mul_left_comm] at hmul
      omega

/-- A bound on `2 * m` in another unit. -/
theorem mul_le_iff_of_shift {a b c n : Nat} (hn : 0 < n) (ha : 0 < a) (h : b * n = a * 2) :
    n * c ≤ 2 * m ↔ c * a ≤ m * b :=
  have hleft : n * c * a = c * a * n := by rw [Nat.mul_assoc, Nat.mul_comm]
  have hright : 2 * m * a = m * b * n := by
    rw [Nat.mul_assoc m b, h, Nat.mul_comm a, Nat.mul_assoc, Nat.mul_left_comm]
  calc n * c ≤ 2 * m ↔ n * c * a ≤ 2 * m * a := (Nat.mul_le_mul_right_iff ha).symm
    _ ↔ c * a * n ≤ m * b * n := by rw [hleft, hright]
    _ ↔ c * a ≤ m * b := Nat.mul_le_mul_right_iff hn

/-- At the exponent of the largest number, what is cut off has to be at least a half, and
then the number is behind the bound. -/
theorem rounds_up_iff (hedge : (m.log2 : Int) + unit = 127) (hdrop : drop = m.log2 - 23) :
    (0 < drop ∧ Nat.pow 2 drop.toNat * 33554431 ≤ 2 * m) ↔
      33554431 * Nat.pow 2 (103 + (-unit).toNat) ≤ m * Nat.pow 2 unit.toNat := by
  have hpos := pow_pos (103 + (-unit).toNat)
  by_cases hcut : 0 < drop
  · -- A power of two more on both sides brings `m` to the unit it is cut to.
    have hshift : Nat.pow 2 unit.toNat * Nat.pow 2 drop.toNat =
        Nat.pow 2 (103 + (-unit).toNat) * 2 := by
      rw [← pow_add, show unit.toNat + drop.toNat = 103 + (-unit).toNat + 1 by omega]
      rfl
    exact (and_iff_right hcut).trans (mul_le_iff_of_shift (pow_pos _) hpos hshift)
  · -- Nothing is cut off, and no number of 24 bits reaches the bound.
    have hexact : m * Nat.pow 2 (unit.toNat - 104) < Nat.pow 2 (m.log2 + 1 + (unit.toNat - 104)) :=
      mul_lt_pow Nat.lt_log2_self
    rw [show m.log2 + 1 + (unit.toNat - 104) = 24 by omega,
      show Nat.pow 2 24 = 16777216 from rfl] at hexact
    have hsplit : Nat.pow 2 unit.toNat =
        Nat.pow 2 (unit.toNat - 104) * (Nat.pow 2 (103 + (-unit).toNat) * 2) := by
      rw [show Nat.pow 2 (103 + (-unit).toNat) * 2 = Nat.pow 2 (103 + (-unit).toNat + 1) from rfl,
        ← pow_add]
      congr 1
      omega
    have hshift : m * Nat.pow 2 unit.toNat =
        2 * (m * Nat.pow 2 (unit.toNat - 104)) * Nat.pow 2 (103 + (-unit).toNat) := by
      rw [hsplit, ← Nat.mul_assoc, ← Nat.mul_assoc, Nat.mul_comm 2, Nat.mul_right_comm]
    have hlt : 2 * (m * Nat.pow 2 (unit.toNat - 104)) < 33554431 := by omega
    have hbelow := Nat.mul_lt_mul_of_pos_right hlt hpos
    exact ⟨fun h => absurd h.1 hcut, fun h => by omega⟩

/-- Rounding a number means to count it in the finest unit that its bits fit in. -/
theorem magnitude_of_ne_zero (f : Format) (hm : m ≠ 0)
    (hdrop : drop = max ((m.log2 : Int) - f.fractionBits) (f.minUnit - unit)) :
    f.magnitude m unit =
      min ((unit + drop - f.minUnit).toNat * Nat.pow 2 f.fractionBits + scaled m drop)
        f.infinity := by
  rw [magnitude, if_neg hm, hdrop]
  rfl

/-- Single precision takes a number for infinity from half a unit behind its largest
number on, which is `(2 ^ 25 - 1) * 2 ^ 103`.  The exponent decides, except at that of the
largest number. -/
theorem magnitude_eq_infinity_iff :
    single.magnitude m unit = single.infinity ↔
      33554431 * Nat.pow 2 (103 + (-unit).toNat) ≤ m * Nat.pow 2 unit.toNat := by
  have hpos := pow_pos (103 + (-unit).toNat)
  by_cases hm : m = 0
  · subst hm
    rw [magnitude, if_pos rfl]
    exact ⟨fun h => absurd h (by decide), fun h => by omega⟩
  obtain ⟨drop, hdrop⟩ : ∃ drop : Int, drop = max ((m.log2 : Int) - 23) (-149 - unit) := ⟨_, rfl⟩
  have hmagnitude : single.magnitude m unit =
      min ((unit + drop + 149).toNat * 8388608 + scaled m drop) 2139095040 :=
    (magnitude_of_ne_zero single hm hdrop).trans (by
      show min ((unit + drop - (-149)).toNat * _ + _) _ = _
      rw [Int.sub_neg]
      rfl)
  have hinfinity : single.infinity = 2139095040 := by decide
  have hle : scaled m drop ≤ 16777216 := scaled_le (p := 23) (by omega)
  have hlow : Nat.pow 2 (m.log2 + unit.toNat) ≤ m * Nat.pow 2 unit.toNat :=
    pow_le_mul (Nat.log2_self_le hm)
  have hhigh : m * Nat.pow 2 unit.toNat < Nat.pow 2 (m.log2 + 1 + unit.toNat) :=
    mul_lt_pow Nat.lt_log2_self
  rw [hmagnitude, hinfinity]
  rcases Int.lt_trichotomy (m.log2 + unit) 127 with hsmall | hedge | hlarge
  · have hpow := pow_le_pow (show m.log2 + 1 + unit.toNat ≤ 24 + (103 + (-unit).toNat) by omega)
    have htop := pow_add 24 (103 + (-unit).toNat)
    rw [show Nat.pow 2 24 = 16777216 from rfl] at htop
    exact ⟨fun h => by omega, fun h => by omega⟩
  · have hfull : scaled m drop = Nat.pow 2 (23 + 1) ↔ _ := scaled_eq_pow (by omega)
    have hexponent : (unit + drop + 149).toNat = 253 := by omega
    have hiff : min (253 * 8388608 + scaled m drop) 2139095040 = 2139095040 ↔
        scaled m drop = 16777216 := by omega
    rw [hexponent, hiff]
    exact hfull.trans (rounds_up_iff hedge (by omega))
  · have hge : 8388608 ≤ scaled m drop := le_scaled (p := 23) hm (by omega)
    have hpow := pow_le_pow (show 25 + (103 + (-unit).toNat) ≤ m.log2 + unit.toNat by omega)
    have htop := pow_add 25 (103 + (-unit).toNat)
    rw [show Nat.pow 2 25 = 33554432 from rfl] at htop
    exact ⟨fun _ => by omega, fun _ => by omega⟩

/-- A number below infinity is finite, whatever its sign. -/
theorem read_round_eq_infinite_iff :
    f.read (f.round negative m unit) = .infinite negative ↔ f.magnitude m unit = f.infinity := by
  constructor
  · intro h
    rcases Nat.lt_or_eq_of_le (f.magnitude_le m unit) with hlt | heq
    · obtain ⟨m', unit', hread⟩ := read_of_lt_infinity hlt
      rw [round, hread] at h
      cases h
    · exact heq
  · intro h
    rw [round, h]
    exact f.read_infinity negative

end Format

namespace Binary64

variable {x : Binary64} {negative : Bool} {m : Nat} {unit : Int}

theorem datum_of_isFinite (h : x.isFinite = true) :
    ∃ negative m unit, x.datum = .finite negative m unit := by
  rw [isFinite] at h
  split at h
  next negative m unit hdatum => exact ⟨negative, m, unit, hdatum⟩
  next => cases h

theorem narrow_of_finite (h : x.datum = .finite negative m unit) :
    x.narrow.datum = Format.single.read (Format.single.round negative m unit) := by
  have hlt : Format.single.round negative m unit < 4294967296 :=
    Format.single.round_lt negative m unit
  have hbits : x.narrow.bits.toNat = Format.single.round negative m unit := by
    rw [narrow, h]
    show (UInt32.ofNat (Format.single.round negative m unit)).toNat = _
    rw [UInt32.toNat_ofNat']
    exact Nat.mod_eq_of_lt hlt
  rw [Binary32.datum, hbits]

/-- A finite number that has no finite neighbour at single precision becomes the
infinity of its sign. -/
theorem datum_narrow (h : x.datum = .finite negative m unit)
    (hnarrow : x.narrow.isFinite = false) : x.narrow.datum = .infinite negative := by
  rcases Format.single.read_round negative m unit with hinfinite | ⟨m', unit', hfinite⟩
  · rw [narrow_of_finite h, hinfinite]
  · rw [Binary32.isFinite, narrow_of_finite h, hfinite] at hnarrow
    cases hnarrow

/-- The numbers that have no finite neighbour at single precision: those that are half a
unit or more behind its largest one. -/
theorem narrow_isFinite_eq_false_iff (h : x.datum = .finite negative m unit) :
    x.narrow.isFinite = false ↔
      33554431 * Nat.pow 2 (103 + (-unit).toNat) ≤ m * Nat.pow 2 unit.toNat := by
  have hinfinite : x.narrow.datum = .infinite negative ↔ _ :=
    (narrow_of_finite h).symm ▸ Format.read_round_eq_infinite_iff
  rw [← Format.magnitude_eq_infinity_iff, ← hinfinite]
  refine ⟨datum_narrow h, fun heq => ?_⟩
  rw [Binary32.isFinite, heq]

end Binary64
end SeriesWire
