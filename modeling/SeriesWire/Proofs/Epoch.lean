/-
Both ways between the clocks.  From microseconds to milliseconds nothing overflows and
the order is kept.  The way back takes two checked steps, and a step leaves the range only
if the result does (`ofUnixMillis?_eq_some`); so it undoes the way out up to what is below
a millisecond.  A calendar that begins and ends with a whole millisecond has an instant
for a database time exactly if it has one for the milliseconds.
-/
import Mathlib.Data.Rat.Floor
import SeriesWire.Proofs.Cell.Octets

namespace SeriesWire

open Bytes

theorem floor_thousandth (n : Int) : ⌊(n : ℚ) / 1000⌋ = n / 1000 := by
  exact_mod_cast Rat.floor_intCast_div_natCast n 1000

namespace Instant

/-- `t` without what is below a millisecond. -/
def floorMillis (t : Instant) : Instant := ⟨1000 * ⌊(t.micros : ℚ) / 1000⌋⟩

variable {micros : Int} {t : Instant}

theorem ofMicros?_eq_some :
    ofMicros? micros = some t ↔ t.micros = micros ∧
      firstDay.toDays * microsPerDay ≤ micros ∧ micros < (lastDay.toDays + 1) * microsPerDay := by
  rw [ofMicros?]
  split
  next h =>
    rw [Option.some.injEq, and_iff_left h]
    exact ⟨fun heq => heq ▸ rfl, fun heq => heq ▸ rfl⟩
  next h => exact ⟨nofun, fun hin => absurd hin.2 h⟩

/-- The calendar begins and ends at midnight, so cutting off less than a millisecond
does not leave it. -/
theorem ofMicros?_floor :
    ofMicros? (1000 * (micros / 1000)) = (ofMicros? micros).map floorMillis := by
  rw [ofMicros?, ofMicros?, microsPerDay]
  generalize firstDay.toDays = first
  generalize lastDay.toDays = last
  split
  next h =>
    rw [if_pos (by omega), Option.map_some, floorMillis, floor_thousandth]
  next h =>
    rw [if_neg (by omega)]
    rfl

end Instant

namespace Epoch

variable {n : Int} {u w m back : Int64} {t : Instant}

/-! ## Steps that are checked -/

theorem checked?_eq_some : checked? n = some m ↔ m.toInt = n := by
  rw [checked?]
  split
  next h =>
    rw [Option.some.injEq, ← Int64.toInt_inj, toInt_int64 h, eq_comm]
  next h =>
    refine ⟨fun hnone => ?_, fun heq => absurd ?_ h⟩
    · cases hnone
    · rw [← heq]
      exact fitsInt_toInt m

/-- The shift never leaves the range alone: then the product leaves it too. -/
theorem ofUnixMillis?_eq_some :
    ofUnixMillis? m = some back ↔ back.toInt = (m.toInt - unixMillis) * 1000 := by
  rw [ofUnixMillis?]
  simp only [Option.bind_eq_bind, Option.bind_eq_some_iff, checked?_eq_some]
  constructor
  · rintro ⟨sinceEpoch, hshift, hproduct⟩
    rw [hproduct, hshift]
  · intro hback
    have hlow := back.le_toInt
    have hhigh := back.toInt_lt
    have hshift : (Int64.ofInt (m.toInt - unixMillis)).toInt = m.toInt - unixMillis :=
      Int64.toInt_ofInt_of_le (by omega) (by omega)
    exact ⟨Int64.ofInt (m.toInt - unixMillis), hshift, by rw [hshift, hback]⟩

theorem exists_ofUnixMillis?_iff :
    (∃ back, ofUnixMillis? m = some back) ↔
      Int64.minValue.toInt ≤ (m.toInt - unixMillis) * 1000 ∧
        (m.toInt - unixMillis) * 1000 ≤ Int64.maxValue.toInt := by
  simp only [ofUnixMillis?_eq_some]
  constructor
  · rintro ⟨back, hback⟩
    rw [← hback]
    exact ⟨back.minValue_le_toInt, back.toInt_le⟩
  · rintro ⟨hlow, hhigh⟩
    rw [Int64.toInt_minValue] at hlow
    rw [Int64.toInt_maxValue] at hhigh
    exact ⟨Int64.ofInt ((m.toInt - unixMillis) * 1000),
      Int64.toInt_ofInt_of_le hlow (by omega)⟩

/-! ## There and back -/

theorem toUnixMillis_le (h : u ≤ w) : toUnixMillis u ≤ toUnixMillis w := by
  rw [Int64.le_iff_toInt_le] at h ⊢
  rw [toInt_toUnixMillis, toInt_toUnixMillis]
  omega

theorem toUnixMillis_ofUnixMillis (h : ofUnixMillis? m = some back) : toUnixMillis back = m := by
  rw [ofUnixMillis?_eq_some] at h
  rw [← Int64.toInt_inj, toInt_toUnixMillis]
  omega

theorem ofUnixMillis?_toUnixMillis :
    ofUnixMillis? (toUnixMillis u) = some back ↔ back.toInt = 1000 * (u.toInt / 1000) := by
  rw [ofUnixMillis?_eq_some, toInt_toUnixMillis, Int.add_sub_cancel, Int.mul_comm]

/-- Only below the first whole millisecond in range is there no way back. -/
theorem exists_ofUnixMillis?_toUnixMillis_iff :
    (∃ back, ofUnixMillis? (toUnixMillis u) = some back) ↔
      Int64.minValue.toInt ≤ 1000 * (u.toInt / 1000) := by
  have hhigh := u.toInt_le
  rw [exists_ofUnixMillis?_iff, toInt_toUnixMillis, Int.add_sub_cancel, Int.mul_comm]
  exact and_iff_left (by omega)

/-! ## The calendar -/

theorem exists_toInstant?_iff :
    (∃ t, toInstant? u = some t) ↔
      Instant.firstDay.toDays * Instant.microsPerDay ≤ u.toInt + unixMillis * 1000 ∧
        u.toInt + unixMillis * 1000 < (Instant.lastDay.toDays + 1) * Instant.microsPerDay := by
  rw [toInstant?, add?, instant, Int.add_comm]
  simp only [Instant.ofMicros?_eq_some, exists_and_right]
  exact and_iff_right ⟨⟨_⟩, rfl⟩

theorem ofMillis?_toUnixMillis :
    ofMillis? (toUnixMillis u) = (toInstant? u).map Instant.floorMillis := by
  have hmillis : (u.toInt / 1000 + unixMillis) * 1000 =
      1000 * ((unixMillis * 1000 + u.toInt) / 1000) := by omega
  rw [ofMillis?, toInt_toUnixMillis, hmillis, Instant.ofMicros?_floor]
  rfl

/-- The clocks agree: milliseconds are floored microseconds, in order and in range; the
way back is exact wherever there is one, and there is one wherever its result is in range;
and both clocks show the same instants, up to the millisecond. -/
theorem clocks_agree (u w m : Int64) :
    (toUnixMillis u).toInt = ⌊(u.toInt : ℚ) / 1000⌋ + 946684800000 ∧
    (u ≤ w → toUnixMillis u ≤ toUnixMillis w) ∧
    ((∃ back, ofUnixMillis? m = some back) ↔
      Int64.minValue.toInt ≤ (m.toInt - 946684800000) * 1000 ∧
        (m.toInt - 946684800000) * 1000 ≤ Int64.maxValue.toInt) ∧
    (∀ back, ofUnixMillis? m = some back →
      back.toInt = (m.toInt - 946684800000) * 1000 ∧ toUnixMillis back = m) ∧
    ((∃ back, ofUnixMillis? (toUnixMillis u) = some back) ↔
      Int64.minValue.toInt ≤ 1000 * ⌊(u.toInt : ℚ) / 1000⌋) ∧
    (∀ back, ofUnixMillis? (toUnixMillis u) = some back →
      back.toInt = 1000 * ⌊(u.toInt : ℚ) / 1000⌋) ∧
    ((∃ t, toInstant? u = some t) ↔
      Date.toDays ⟨-262143, 1, 1⟩ * 86400000000 ≤ u.toInt + 946684800000000 ∧
        u.toInt + 946684800000000 < (Date.toDays ⟨262142, 12, 31⟩ + 1) * 86400000000) ∧
    (∀ t, toInstant? u = some t → t.micros = u.toInt + 946684800000000) ∧
    ofMillis? (toUnixMillis u) = (toInstant? u).map Instant.floorMillis := by
  rw [floor_thousandth]
  refine ⟨toInt_toUnixMillis u, toUnixMillis_le, exists_ofUnixMillis?_iff, fun back h => ?_,
    exists_ofUnixMillis?_toUnixMillis_iff, fun back h => ofUnixMillis?_toUnixMillis.1 h,
    exists_toInstant?_iff, fun t h => ?_, ofMillis?_toUnixMillis⟩
  · exact ⟨ofUnixMillis?_eq_some.1 h, toUnixMillis_ofUnixMillis h⟩
  · exact (Instant.ofMicros?_eq_some.1 h).1.trans (Int.add_comm _ _)

/-- The last microsecond before the database epoch. -/
theorem clocks_agree_beforeEpoch :
    toUnixMillis (-1) ≤ toUnixMillis 0 ∧
      ofUnixMillis? 946684799999 = some (-1000) ∧ toUnixMillis (-1000) = 946684799999 ∧
      (-1000 : Int64).toInt = 1000 * ⌊((-1 : Int64).toInt : ℚ) / 1000⌋ ∧
      toInstant? (-1) = some ⟨946684799999999⟩ ∧
      (946684799999999 : Int) = (-1 : Int64).toInt + 946684800000000 ∧
      ofMillis? (toUnixMillis (-1)) = some (Instant.floorMillis ⟨946684799999999⟩) := by
  have hback : ofUnixMillis? 946684799999 = some (-1000) := by decide
  have hinstant : toInstant? (-1) = some ⟨946684799999999⟩ := by decide
  obtain ⟨-, hmono, -, hexact, -, hfloor, -, hmicros, hcalendar⟩ :=
    clocks_agree (-1) 0 946684799999
  refine ⟨hmono (by decide), hback, (hexact _ hback).2, hfloor _ (by decide), hinstant,
    hmicros _ hinstant, ?_⟩
  rw [hcalendar, hinstant]
  rfl

end Epoch
end SeriesWire
