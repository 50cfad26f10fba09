/-
Rounding intervals.  A finite number of a format is a significand and a unit, and
`Format.Canonical` says which pairs occur.  Their rounding intervals do not meet:
two of them share an end at most, and then one of the two significands is odd and
leaves the end out.  So a decimal inside an interval names one number.
-/
import SeriesWire.Decimal.Shortest

namespace SeriesWire

namespace Format

variable {f : Format}

/-! ## Patterns -/

theorem pow_pos (n : Nat) : 0 < Nat.pow 2 n := Nat.two_pow_pos n

theorem pow_add (m n : Nat) : Nat.pow 2 (m + n) = Nat.pow 2 m * Nat.pow 2 n := Nat.pow_add 2 m n

/-- A pattern is its sign, its exponent and its fraction. -/
theorem eq_of_fields {a b : Nat} (ha : a < 2 * Nat.pow 2 (f.fractionBits + f.exponentBits))
    (hb : b < 2 * Nat.pow 2 (f.fractionBits + f.exponentBits))
    (hsign : a.testBit (f.fractionBits + f.exponentBits) =
      b.testBit (f.fractionBits + f.exponentBits))
    (hexponent : a / Nat.pow 2 f.fractionBits % Nat.pow 2 f.exponentBits =
      b / Nat.pow 2 f.fractionBits % Nat.pow 2 f.exponentBits)
    (hfraction : a % Nat.pow 2 f.fractionBits = b % Nat.pow 2 f.fractionBits) : a = b := by
  have htop : ∀ n < 2 * Nat.pow 2 (f.fractionBits + f.exponentBits),
      n / Nat.pow 2 f.fractionBits / Nat.pow 2 f.exponentBits =
        if n.testBit (f.fractionBits + f.exponentBits) then 1 else 0 := by
    intro n hn
    have hlt : n / Nat.pow 2 (f.fractionBits + f.exponentBits) < 2 := by
      rw [Nat.div_lt_iff_lt_mul (pow_pos _)]
      exact hn
    have hbit : n.testBit (f.fractionBits + f.exponentBits) =
        decide (n / Nat.pow 2 (f.fractionBits + f.exponentBits) % 2 = 1) :=
      Nat.testBit_eq_decide_div_mod_eq
    rw [Nat.div_div_eq_div_mul, ← pow_add, hbit]
    generalize n / Nat.pow 2 (f.fractionBits + f.exponentBits) = quotient at hlt
    by_cases h : quotient % 2 = 1
    · rw [if_pos (decide_eq_true h)]
      omega
    · rw [decide_eq_false h, if_neg Bool.false_ne_true]
      omega
  have hquotient : a / Nat.pow 2 f.fractionBits = b / Nat.pow 2 f.fractionBits := by
    rw [← Nat.div_add_mod (a / Nat.pow 2 f.fractionBits) (Nat.pow 2 f.exponentBits),
      ← Nat.div_add_mod (b / Nat.pow 2 f.fractionBits) (Nat.pow 2 f.exponentBits), htop a ha,
      htop b hb, hsign, hexponent]
  rw [← Nat.div_add_mod a (Nat.pow 2 f.fractionBits),
    ← Nat.div_add_mod b (Nat.pow 2 f.fractionBits), hquotient, hfraction]

/-- What a pattern stands for determines it, within the width of its format. -/
theorem read_injective {a b : Nat} (ha : a < 2 * Nat.pow 2 (f.fractionBits + f.exponentBits))
    (hb : b < 2 * Nat.pow 2 (f.fractionBits + f.exponentBits)) (h : f.read a = f.read b) :
    a = b := by
  have ha' := Nat.mod_lt a (pow_pos f.fractionBits)
  have hb' := Nat.mod_lt b (pow_pos f.fractionBits)
  have hfields : a.testBit (f.fractionBits + f.exponentBits) =
        b.testBit (f.fractionBits + f.exponentBits) ∧
      a / Nat.pow 2 f.fractionBits % Nat.pow 2 f.exponentBits =
        b / Nat.pow 2 f.fractionBits % Nat.pow 2 f.exponentBits ∧
      a % Nat.pow 2 f.fractionBits = b % Nat.pow 2 f.fractionBits := by
    simp only [read] at h
    grind
  exact eq_of_fields ha hb hfields.1 hfields.2.1 hfields.2.2

/-- `m * 2 ^ unit` as `f` writes it: with all bits of its precision unless the
unit is the finest one. -/
structure Canonical (f : Format) (m : Nat) (unit : Int) : Prop where
  lt : m < 2 * Nat.pow 2 f.fractionBits
  le : f.minUnit ≤ unit
  full : f.minUnit < unit → Nat.pow 2 f.fractionBits ≤ m

theorem canonical_of_read {bits m : Nat} {negative : Bool} {unit : Int}
    (h : f.read bits = .finite negative m unit) : f.Canonical m unit := by
  have hfraction := Nat.mod_lt bits (pow_pos f.fractionBits)
  simp only [read] at h
  split at h
  next => split at h <;> cases h
  next =>
    split at h
    next =>
      cases h
      exact ⟨by omega, Int.le_refl _, fun hlt => absurd hlt (Int.lt_irrefl _)⟩
    next =>
      cases h
      exact ⟨by omega, by omega, fun _ => Nat.le_add_right _ _⟩

end Format

namespace Decimal
namespace Interval

/-- `number / 10 ^ places` lies in `i`, whose bounds count quarters of
`2 ^ unit`. -/
def Holds (i : Interval) (unit : Int) (number places : Nat) : Prop :=
  i.contains (4 * number * Nat.pow 2 (-unit).toNat)
    (Nat.pow 2 unit.toNat * Nat.pow 10 places) = true

theorem contains_iff {i : Interval} {x y : Nat} :
    i.contains x y = true ↔
      if i.closed then i.low * y ≤ x ∧ x ≤ i.high * y else i.low * y < x ∧ x < i.high * y := by
  rw [contains]
  split
  · rw [Bool.and_eq_true, decide_eq_true_iff, decide_eq_true_iff]
  · rw [Bool.and_eq_true, decide_eq_true_iff, decide_eq_true_iff]

theorem low_of_contains {i : Interval} {x y : Nat} (h : i.contains x y = true) :
    i.low * y ≤ x ∧ (i.closed = false → i.low * y < x) := by
  rw [contains_iff] at h
  split at h
  next hclosed => exact ⟨h.1, fun hopen => absurd (hclosed.symm.trans hopen) nofun⟩
  next => exact ⟨Nat.le_of_lt h.1, fun _ => h.1⟩

theorem high_of_contains {i : Interval} {x y : Nat} (h : i.contains x y = true) :
    x ≤ i.high * y ∧ (i.closed = false → x < i.high * y) := by
  rw [contains_iff] at h
  split at h
  next hclosed => exact ⟨h.2, fun hopen => absurd (hclosed.symm.trans hopen) nofun⟩
  next => exact ⟨Nat.le_of_lt h.2, fun _ => h.2⟩

/-- One decimal in two intervals, the second of them no finer: the second begins
where the first ends at the latest, and there only if both ends belong. -/
theorem le_of_holds {i j : Interval} {unit unit' : Int} {number places d : Nat}
    (hunit : unit' = unit + d) (hi : i.Holds unit number places)
    (hj : j.Holds unit' number places) :
    j.low * Nat.pow 2 d < i.high ∨
      (j.low * Nat.pow 2 d = i.high ∧ i.closed = true ∧ j.closed = true) := by
  obtain ⟨hhigh, hhigh'⟩ := high_of_contains hi
  obtain ⟨hlow, hlow'⟩ := low_of_contains hj
  -- Both bounds are counted in the unit that the two have in common.
  have hpow : Nat.pow 2 unit'.toNat * Nat.pow 2 (-unit).toNat =
      Nat.pow 2 d * (Nat.pow 2 unit.toNat * Nat.pow 2 (-unit').toNat) := by
    rw [← Format.pow_add, ← Format.pow_add, ← Format.pow_add]
    congr 1
    omega
  have hscale : 0 < Nat.pow 2 unit.toNat * Nat.pow 10 places * Nat.pow 2 (-unit').toNat :=
    Nat.mul_pos (Nat.mul_pos (Format.pow_pos _) (Nat.pow_pos (by decide))) (Format.pow_pos _)
  have hlift : j.low * (Nat.pow 2 unit'.toNat * Nat.pow 10 places) * Nat.pow 2 (-unit).toNat =
      j.low * Nat.pow 2 d *
        (Nat.pow 2 unit.toNat * Nat.pow 10 places * Nat.pow 2 (-unit').toNat) := by
    grind
  have hbelow := Nat.mul_le_mul_right (Nat.pow 2 (-unit).toNat) hlow
  have habove := Nat.mul_le_mul_right (Nat.pow 2 (-unit').toNat) hhigh
  have hmiddle : 4 * number * Nat.pow 2 (-unit').toNat * Nat.pow 2 (-unit).toNat =
      4 * number * Nat.pow 2 (-unit).toNat * Nat.pow 2 (-unit').toNat := Nat.mul_right_comm _ _ _
  rw [hlift, hmiddle] at hbelow
  rw [Nat.mul_assoc i.high] at habove
  have hle := Nat.le_of_mul_le_mul_right (Nat.le_trans hbelow habove) hscale
  rcases Nat.lt_or_eq_of_le hle with hlt | heq
  · exact .inl hlt
  · refine .inr ⟨heq, ?_, ?_⟩
    · rw [← Bool.not_eq_false]
      intro hopen
      have hstrict := Nat.mul_lt_mul_of_pos_right (hhigh' hopen) (Format.pow_pos (-unit').toNat)
      rw [Nat.mul_assoc i.high, ← heq] at hstrict
      exact absurd (Nat.lt_of_le_of_lt hbelow hstrict) (Nat.lt_irrefl _)
    · rw [← Bool.not_eq_false]
      intro hopen
      have hstrict := Nat.mul_lt_mul_of_pos_right (hlow' hopen) (Format.pow_pos (-unit).toNat)
      rw [hlift, hmiddle, heq] at hstrict
      exact absurd (Nat.lt_of_lt_of_le hstrict habove) (Nat.lt_irrefl _)

/-- A significand of full precision above the finest unit. -/
theorem le_low_of_full {f : Format} {m : Nat} {unit : Int} (hm : Nat.pow 2 f.fractionBits ≤ m)
    (hunit : f.minUnit < unit) : 4 * Nat.pow 2 f.fractionBits ≤ (around f m unit).low + 1 := by
  simp only [around]
  split
  next => omega
  next hinner =>
    have hne : m ≠ Nat.pow 2 f.fractionBits := fun heq => hinner ⟨heq, hunit⟩
    omega

theorem le_low (f : Format) (m : Nat) (unit : Int) : 4 * m ≤ (around f m unit).low + 2 := by
  simp only [around]
  split <;> omega

/-- Of two numbers with a common decimal neither is below the other. -/
theorem not_lt_of_holds {f : Format} {m m' : Nat} {unit unit' : Int} {number places : Nat}
    (hm : f.Canonical m unit) (hm' : f.Canonical m' unit')
    (h : (around f m unit).Holds unit number places)
    (h' : (around f m' unit').Holds unit' number places) :
    ¬unit < unit' ∧ (unit = unit' → ¬m < m') := by
  have hhigh : (around f m unit).high = 4 * m + 2 := rfl
  have hclosed : (around f m unit).closed = decide (m % 2 = 0) := rfl
  constructor
  · intro hlt
    obtain ⟨d, rfl⟩ : ∃ d : Nat, unit' = unit + (d + 1 : Nat) :=
      ⟨(unit' - unit - 1).toNat, by omega⟩
    have hunit := Int.lt_of_le_of_lt hm.le hlt
    have hlow := le_low_of_full (hm'.full hunit) hunit
    have hcoarse : (around f m' (unit + (d + 1 : Nat))).low * 2 ≤
        (around f m' (unit + (d + 1 : Nat))).low * Nat.pow 2 (d + 1) := by
      rw [Format.pow_add]
      exact Nat.mul_le_mul_left _ (Nat.le_mul_of_pos_left 2 (Format.pow_pos d))
    have hfine := hm.lt
    rcases le_of_holds rfl h h' with hmeet | ⟨hmeet, heven, -⟩
    · omega
    · -- The finer significand is the last one of its precision, which is odd.
      rw [hclosed, decide_eq_true_iff] at heven
      omega
  · rintro rfl hlt
    have hlow := le_low f m' unit
    have hclosed' : (around f m' unit).closed = decide (m' % 2 = 0) := rfl
    have hmeet := le_of_holds (d := 0) (Int.add_zero unit).symm h h'
    rw [show Nat.pow 2 0 = 1 from rfl, Nat.mul_one] at hmeet
    rcases hmeet with hmeet | ⟨hmeet, heven, heven'⟩
    · omega
    · -- Two neighbours are not both even.
      rw [hclosed, decide_eq_true_iff] at heven
      rw [hclosed', decide_eq_true_iff] at heven'
      omega

theorem eq_of_holds {f : Format} {m m' : Nat} {unit unit' : Int} {number places : Nat}
    (hm : f.Canonical m unit) (hm' : f.Canonical m' unit')
    (h : (around f m unit).Holds unit number places)
    (h' : (around f m' unit').Holds unit' number places) : m = m' ∧ unit = unit' := by
  have hle := not_lt_of_holds hm hm' h h'
  have hge := not_lt_of_holds hm' hm h' h
  have hunit : unit = unit' := by omega
  exact ⟨by omega, hunit⟩

end Interval
end Decimal
end SeriesWire
