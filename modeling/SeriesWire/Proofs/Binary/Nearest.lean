/-
The double nearest to an integer.  Rounding counts an integer in units of a power of two,
to the nearest and a half to the even number of units (`halfEven_error`).  Another double
either is a whole number of these units too, or lies below all numbers of as many bits
(`near_of_lt`).  So none is nearer (`nearest_ofInt`).
-/
import Mathlib.Algebra.Order.Field.Power
import Mathlib.Tactic.Linarith
import Mathlib.Tactic.Ring
import SeriesWire.Proofs.Binary

namespace SeriesWire

/-- The number that a finite pattern stands for. -/
def Datum.value? : Datum → Option ℚ
  | .finite negative m unit => some ((if negative then -1 else 1) * m * 2 ^ unit)
  | .infinite _ | .nan _ _ => none

/-- `x` is a finite number.  No other is nearer to `q`, and of two that are equally near it
is the even one. -/
def Binary64.Nearest (x : Binary64) (q : ℚ) : Prop :=
  ∃ r, x.datum.value? = some r ∧ ∀ (y : Binary64) (s : ℚ), y.datum.value? = some s →
    |q - r| ≤ |q - s| ∧ (|q - r| = |q - s| → r = s ∨ x.bits.toNat % 2 = 0)

namespace Format

variable {m k : Nat}

/-! ## Whole units -/

/-- What is rounded away is half a unit at most, and exactly half only in front of an even
number of units. -/
theorem halfEven_error (m k : Nat) :
    2 * |(m : ℤ) - halfEven m k * Nat.pow 2 k| ≤ Nat.pow 2 k ∧
      (2 * |(m : ℤ) - halfEven m k * Nat.pow 2 k| = Nat.pow 2 k → halfEven m k % 2 = 0) := by
  have hm := Nat.div_add_mod m (Nat.pow 2 k)
  have hlt := Nat.mod_lt m (pow_pos k)
  simp only [halfEven]
  generalize m / Nat.pow 2 k = quotient at *
  generalize m % Nat.pow 2 k = rest at *
  generalize Nat.pow 2 k = width at *
  have hwhole : (m : ℤ) = width * quotient + rest := by exact_mod_cast hm.symm
  split
  · have hsplit : (m : ℤ) - (quotient + 1 : ℕ) * width = rest - width := by
      rw [hwhole]
      push_cast
      ring
    rw [hsplit, abs_of_nonpos (by omega)]
    omega
  · have hsplit : (m : ℤ) - quotient * width = rest := by
      rw [hwhole]
      ring
    rw [hsplit, abs_of_nonneg (by omega)]
    omega

/-- No whole number of units is nearer. -/
theorem halfEven_near (m k : Nat) (j : ℤ) :
    |(m : ℤ) - halfEven m k * Nat.pow 2 k| ≤ |(m : ℤ) - j * Nat.pow 2 k| ∧
      (|(m : ℤ) - halfEven m k * Nat.pow 2 k| = |(m : ℤ) - j * Nat.pow 2 k| →
        j = halfEven m k ∨ halfEven m k % 2 = 0) := by
  obtain ⟨herror, heven⟩ := halfEven_error m k
  have hpos : (0 : ℤ) < Nat.pow 2 k := by exact_mod_cast pow_pos k
  by_cases hj : j = halfEven m k
  · exact ⟨by rw [hj], fun _ => .inl hj⟩
  · have hapart : (Nat.pow 2 k : ℤ) ≤ |(halfEven m k - j) * Nat.pow 2 k| := by
      rw [abs_mul, abs_of_pos hpos]
      have hone : 1 ≤ |(halfEven m k : ℤ) - j| := Int.one_le_abs (sub_ne_zero.2 (Ne.symm hj))
      exact le_mul_of_one_le_left hpos.le hone
    have htriangle := abs_sub_le ((halfEven m k : ℤ) * Nat.pow 2 k) m (j * Nat.pow 2 k)
    rw [← sub_mul, abs_sub_comm _ (m : ℤ)] at htriangle
    exact ⟨by omega, fun heq => .inr (heven (by omega))⟩

/-- The same as a statement about rational numbers. -/
theorem near_of_whole (m k : Nat) (j : ℤ) :
    |(m : ℚ) - halfEven m k * 2 ^ (k : ℤ)| ≤ |(m : ℚ) - j * 2 ^ (k : ℤ)| ∧
      (|(m : ℚ) - halfEven m k * 2 ^ (k : ℤ)| = |(m : ℚ) - j * 2 ^ (k : ℤ)| →
        halfEven m k * 2 ^ (k : ℤ) = (j * 2 ^ (k : ℤ) : ℚ) ∨ halfEven m k % 2 = 0) := by
  have hnear := halfEven_near m k j
  rw [Nat.pow_eq, Nat.cast_pow, Nat.cast_ofNat] at hnear
  rw [zpow_natCast]
  refine ⟨by exact_mod_cast hnear.1, fun heq => ?_⟩
  rcases hnear.2 (by exact_mod_cast heq) with hj | heven
  · exact .inl (by rw [hj, Int.cast_natCast])
  · exact .inr heven

/-! ## Other units -/

variable {p : Nat} {c u drop : ℤ}

/-- A number of as many bits in smaller units lies below `m`, and there is a whole number
of the larger units in between. -/
theorem near_of_lt (hm : m ≠ 0) (hlog : m.log2 = p + k) (hc : |c| < 2 ^ (p + 1)) (hu : u < k) :
    |(m : ℚ) - halfEven m k * 2 ^ (k : ℤ)| < |(m : ℚ) - c * 2 ^ u| := by
  have htop : (2 ^ p * 2 ^ (k : ℤ) : ℚ) ≤ m := by
    have hlow : Nat.pow 2 m.log2 ≤ m := Nat.log2_self_le hm
    rw [hlog, pow_add, Nat.pow_eq, Nat.pow_eq] at hlow
    rw [zpow_natCast]
    exact_mod_cast hlow
  have hsmall : |(c * 2 ^ u : ℚ)| < 2 ^ p * 2 ^ (k : ℤ) := by
    have hunit : (2 ^ u : ℚ) ≤ 2 ^ ((k : ℤ) - 1) :=
      zpow_le_zpow_right₀ (by norm_num) (by omega)
    have hhalf : (2 ^ (p + 1) * 2 ^ ((k : ℤ) - 1) : ℚ) = 2 ^ p * 2 ^ (k : ℤ) := by
      rw [zpow_sub_one₀ (by norm_num)]
      ring
    have hcount : |(c : ℚ)| < 2 ^ (p + 1) := by exact_mod_cast hc
    rw [abs_mul, abs_of_pos (zpow_pos (by norm_num : (0 : ℚ) < 2) u), ← hhalf]
    exact mul_lt_mul hcount hunit (zpow_pos (by norm_num) u) (by positivity)
  obtain ⟨hnear, -⟩ := near_of_whole m k (2 ^ p)
  push_cast at hnear
  rw [abs_of_nonneg (sub_nonneg.2 htop)] at hnear
  have hbelow := (abs_lt.1 hsmall).2
  calc |(m : ℚ) - halfEven m k * 2 ^ (k : ℤ)| ≤ m - 2 ^ p * 2 ^ (k : ℤ) := hnear
    _ < m - c * 2 ^ u := by linarith
    _ ≤ |(m : ℚ) - c * 2 ^ u| := le_abs_self _

/-- Rounding to `p + 1` bits gives the nearest number of as many bits. -/
theorem scaled_near (hm : m ≠ 0) (hdrop : (m.log2 : ℤ) = p + drop) (hc : |c| < 2 ^ (p + 1)) :
    |(m : ℚ) - scaled m drop * 2 ^ drop| ≤ |(m : ℚ) - c * 2 ^ u| ∧
      (|(m : ℚ) - scaled m drop * 2 ^ drop| = |(m : ℚ) - c * 2 ^ u| →
        scaled m drop * 2 ^ drop = (c * 2 ^ u : ℚ) ∨ scaled m drop % 2 = 0) := by
  by_cases hexact : drop ≤ 0
  · have hvalue : (scaled m drop * 2 ^ drop : ℚ) = m := by
      have hback : ((-drop).toNat : ℤ) + drop = 0 := by omega
      rw [scaled, if_pos hexact, Nat.pow_eq, Nat.cast_mul, Nat.cast_pow, Nat.cast_ofNat, mul_assoc,
        ← zpow_natCast, ← zpow_add₀ (by norm_num), hback, zpow_zero, mul_one]
    rw [hvalue, sub_self, abs_zero]
    exact ⟨abs_nonneg _, fun heq => .inl (sub_eq_zero.1 (abs_eq_zero.1 heq.symm))⟩
  · obtain ⟨k, rfl⟩ := Int.eq_ofNat_of_zero_le (show 0 ≤ drop by omega)
    rw [scaled, if_neg hexact, Int.toNat_natCast]
    by_cases hu : u < k
    · have hlt := near_of_lt hm (by exact_mod_cast hdrop) hc hu
      exact ⟨hlt.le, fun heq => absurd heq hlt.ne⟩
    · have hwhole : (c * 2 ^ u : ℚ) = (c * 2 ^ (u - k).toNat : ℤ) * 2 ^ (k : ℤ) := by
        have hsum : ((u - k).toNat : ℤ) + k = u := by omega
        push_cast
        rw [mul_assoc, ← zpow_natCast, ← zpow_add₀ (by norm_num), hsum]
      rw [hwhole]
      exact near_of_whole m k _

/-! ## Patterns -/

variable {f : Format} {negative : Bool} {exponent significand bits : Nat} {unit : ℤ}

/-- A significand with one bit more than fit carries into the exponent, and the number
stays what it was. -/
theorem value?_read_signed (hexponent : exponent + 2 < f.topExponent)
    (hlow : Nat.pow 2 f.fractionBits ≤ significand)
    (hhigh : significand ≤ Nat.pow 2 (f.fractionBits + 1)) :
    (f.read (f.signed negative (exponent * Nat.pow 2 f.fractionBits + significand))).value? =
      some ((if negative then -1 else 1) * significand * 2 ^ (f.minUnit + exponent) : ℚ) := by
  have hpos := pow_pos f.fractionBits
  have hdouble : Nat.pow 2 (f.fractionBits + 1) = 2 * Nat.pow 2 f.fractionBits := Nat.pow_succ'
  have hroom : exponent * Nat.pow 2 f.fractionBits + significand <
      Nat.pow 2 (f.fractionBits + f.exponentBits) := by
    have hmul := Nat.mul_le_mul_right (Nat.pow 2 f.fractionBits) hexponent
    have hinfinity := f.infinity_lt
    rw [infinity] at hinfinity
    rw [Nat.succ_eq_add_one, Nat.add_mul, Nat.add_mul] at hmul
    omega
  rw [read_signed hroom]
  rcases Nat.lt_or_eq_of_le hhigh with hlt | rfl
  · obtain ⟨fraction, rfl⟩ := Nat.exists_eq_add_of_le hlow
    have hfraction : fraction < Nat.pow 2 f.fractionBits := by omega
    have hsum : exponent * Nat.pow 2 f.fractionBits + (Nat.pow 2 f.fractionBits + fraction) =
        Nat.pow 2 f.fractionBits * (exponent + 1) + fraction := by ring
    rw [hsum, Nat.mul_add_div hpos, Nat.mul_add_mod, Nat.div_eq_of_lt hfraction,
      Nat.mod_eq_of_lt hfraction, Nat.add_zero, if_neg (by omega), if_neg (by omega), Datum.value?]
    congr 3
    push_cast
    ring
  · have hsum : exponent * Nat.pow 2 f.fractionBits + Nat.pow 2 (f.fractionBits + 1) =
        Nat.pow 2 f.fractionBits * (exponent + 2) := by rw [hdouble]; ring
    rw [hsum, Nat.mul_div_cancel_left _ hpos, Nat.mul_mod_right, if_neg (by omega),
      if_neg (by omega), Datum.value?, hdouble]
    have hcarry : (f.minUnit + (exponent + 2 : ℕ) - 1 : ℤ) = f.minUnit + exponent + 1 := by
      push_cast
      ring
    rw [hcarry, zpow_add_one₀ (by norm_num)]
    congr 1
    push_cast
    ring

theorem lt_of_read (h : f.read bits = .finite negative m unit) :
    m < Nat.pow 2 (f.fractionBits + 1) := by
  have hfraction := Nat.mod_lt bits (pow_pos f.fractionBits)
  have hdouble : Nat.pow 2 (f.fractionBits + 1) = 2 * Nat.pow 2 f.fractionBits := Nat.pow_succ'
  simp only [read] at h
  split at h
  · split at h <;> cases h
  · split at h
    · cases h
      omega
    · cases h
      omega

/-- What a finite pattern stands for has no more bits than the format. -/
theorem value?_read {s : ℚ} (h : (f.read bits).value? = some s) :
    ∃ c u : ℤ, s = c * 2 ^ u ∧ |c| < 2 ^ (f.fractionBits + 1) := by
  cases hread : f.read bits with
  | nan negative fraction =>
    rw [hread] at h
    cases h
  | infinite negative =>
    rw [hread] at h
    cases h
  | finite negative m unit =>
    rw [hread] at h
    cases h
    have hlt : (m : ℤ) < 2 ^ (f.fractionBits + 1) := by exact_mod_cast lt_of_read hread
    refine ⟨(if negative then -1 else 1) * m, unit, ?_, ?_⟩
    · cases negative <;> simp
    · cases negative <;> simpa using hlt

end Format
namespace Binary64

open Format

variable {n : ℤ}

theorem bits_ofInt (n : ℤ) : (ofInt n).bits.toNat = double.round (n < 0) n.natAbs 0 := by
  have hlt : double.round (n < 0) n.natAbs 0 < 2 * 9223372036854775808 := double.round_lt _ _ _
  rw [ofInt, UInt64.toNat_ofNat']
  exact Nat.mod_eq_of_lt (by omega)

/-- An integer of up to 1000 bits, as it is rounded. -/
theorem round_ofInt (hn : n ≠ 0) (hsmall : n.natAbs.log2 < 1000) {drop : ℤ}
    (hdrop : (n.natAbs.log2 : ℤ) = (52 : ℕ) + drop) :
    ∃ exponent : ℕ, exponent + 2 < 2047 ∧ (-1074 : ℤ) + exponent = drop ∧
      double.round (n < 0) n.natAbs 0 =
        double.signed (n < 0) (exponent * 4503599627370496 + scaled n.natAbs drop) := by
  have hm : n.natAbs ≠ 0 := Int.natAbs_ne_zero.2 hn
  have hhigh : scaled n.natAbs drop ≤ 9007199254740992 := scaled_le (p := 52) (by omega)
  have hmagnitude : double.magnitude n.natAbs 0 =
      min ((0 + drop - -1074).toNat * 4503599627370496 + scaled n.natAbs drop)
        9218868437227405312 :=
    magnitude_of_ne_zero double hm (by
      show drop = max ((n.natAbs.log2 : ℤ) - (52 : ℕ)) (-1074 - 0)
      omega)
  refine ⟨(drop + 1074).toNat, by omega, by omega, ?_⟩
  rw [Format.round, hmagnitude, Nat.min_eq_left (by omega)]
  congr 3
  omega

/-- What the rounded pattern stands for.  It is even with its significand. -/
theorem value?_ofInt (hn : n ≠ 0) (hsmall : n.natAbs.log2 < 1000) {drop : ℤ}
    (hdrop : (n.natAbs.log2 : ℤ) = (52 : ℕ) + drop) :
    (ofInt n).datum.value? =
        some (n.sign * scaled n.natAbs drop * 2 ^ drop : ℚ) ∧
      (ofInt n).bits.toNat % 2 = scaled n.natAbs drop % 2 := by
  have hm : n.natAbs ≠ 0 := Int.natAbs_ne_zero.2 hn
  have hlow : 4503599627370496 ≤ scaled n.natAbs drop := le_scaled (p := 52) hm (by omega)
  have hhigh : scaled n.natAbs drop ≤ 9007199254740992 := scaled_le (p := 52) (by omega)
  obtain ⟨exponent, hexponent, hunit, hround⟩ := round_ofInt hn hsmall hdrop
  have hread : (double.read (double.signed (n < 0)
      (exponent * 4503599627370496 + scaled n.natAbs drop))).value? =
        some ((if decide (n < 0) then -1 else 1) * scaled n.natAbs drop *
          2 ^ (-1074 + exponent : ℤ) : ℚ) :=
    value?_read_signed hexponent hlow hhigh
  have hsign : (if decide (n < 0) then -1 else 1 : ℚ) = n.sign := by
    rcases Int.lt_or_gt_of_ne hn with hneg | hpos
    · simp [hneg, Int.sign_eq_neg_one_of_neg hneg]
    · simp [hpos.not_gt, Int.sign_eq_one_of_pos hpos]
  rw [hunit, hsign] at hread
  refine ⟨?_, ?_⟩
  · rw [datum, bits_ofInt, hround]
    exact hread
  · rw [bits_ofInt, hround]
    have hsign : Nat.pow 2 (double.fractionBits + double.exponentBits) = 9223372036854775808 := rfl
    cases decide (n < 0) with
    | true => rw [signed, if_pos rfl, hsign]; omega
    | false => rw [signed, if_neg (by decide)]; omega

/-- Integers are converted to the nearest double. -/
theorem nearest_ofInt (hsmall : n.natAbs.log2 < 1000) : (ofInt n).Nearest n := by
  by_cases hn : n = 0
  · subst hn
    have hzero : (ofInt 0).datum = .finite false 0 (-1074) := by decide +kernel
    refine ⟨0, by rw [hzero, Datum.value?, Nat.cast_zero, mul_zero, zero_mul], fun y s _ => ?_⟩
    rw [Int.cast_zero, sub_self, abs_zero]
    exact ⟨abs_nonneg _, fun heq => .inl (sub_eq_zero.1 (abs_eq_zero.1 heq.symm))⟩
  have hm : n.natAbs ≠ 0 := Int.natAbs_ne_zero.2 hn
  obtain ⟨drop, hdrop⟩ : ∃ drop : ℤ, (n.natAbs.log2 : ℤ) = (52 : ℕ) + drop :=
    ⟨n.natAbs.log2 - 52, by push_cast; ring⟩
  obtain ⟨hvalue, hparity⟩ := value?_ofInt hn hsmall hdrop
  refine ⟨_, hvalue, fun y s hs => ?_⟩
  obtain ⟨c, u, rfl, hc⟩ := value?_read hs
  rw [hparity]
  -- The sign of `n` is taken out of all three numbers.
  have hsign : |(n.sign : ℚ)| = 1 := by exact_mod_cast Int.abs_sign_of_ne_zero hn
  have hsquare : (n.sign : ℚ) * n.sign = 1 := by rw [← abs_mul_abs_self, hsign, one_mul]
  have hapart (a b : ℚ) : |n.sign * a - n.sign * b| = |a - b| := by
    rw [← mul_sub, abs_mul, hsign, one_mul]
  have hother : (c * 2 ^ u : ℚ) = n.sign * ((n.sign * c : ℤ) * 2 ^ u) := by
    rw [Int.cast_mul, ← mul_assoc, ← mul_assoc, hsquare, one_mul]
  have hcount : |n.sign * c| < 2 ^ (52 + 1) := by
    rwa [abs_mul, Int.abs_sign_of_ne_zero hn, one_mul]
  have hcast : (n : ℚ) = n.sign * (n.natAbs : ℚ) := by
    rw [← Int.cast_natCast n.natAbs, ← Int.cast_mul, Int.sign_mul_natAbs]
  obtain ⟨hnear, heven⟩ := scaled_near (u := u) hm hdrop hcount
  rw [hother, hcast, mul_assoc, hapart, hapart]
  exact ⟨hnear, fun heq => (heven heq).imp_left (congrArg ((n.sign : ℚ) * ·))⟩

theorem nearest_ofInt64 (n : Int64) : (ofInt n.toInt).Nearest n.toInt := by
  have hlow := n.le_toInt
  have hhigh := n.toInt_lt
  refine nearest_ofInt (Nat.lt_of_lt_of_le (m := 64) ?_ (by decide))
  by_cases hm : n.toInt.natAbs = 0
  · rw [hm]
    decide
  · exact (Nat.log2_lt hm).2 (by omega)

end Binary64
end SeriesWire
