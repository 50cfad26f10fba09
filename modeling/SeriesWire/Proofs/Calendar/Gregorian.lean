/-
The proleptic Gregorian calendar by its rules: which years are leap years, how long
the months are, and which day follows which.  `dayNumber` counts days by adding up
whole years and whole months, and `dayNumber_next` says that it counts from each day
to the next.  `dayNumber_ofDays` is about the computation that goes the other way: it
finds the valid date with a given number, in a cycle of 400 years that begin in March.
There is no other, so from number to number it goes from day to day (`ofDays_succ`).
-/
import SeriesWire.Calendar

namespace SeriesWire
namespace Date

/-! ## Rules -/

def LeapYear (year : Int) : Prop := year % 4 = 0 ∧ (year % 100 ≠ 0 ∨ year % 400 = 0)

instance (year : Int) : Decidable (LeapYear year) := inferInstanceAs (Decidable (_ ∧ _))

def monthLength (year : Int) (month : Nat) : Nat :=
  if month = 2 then if LeapYear year then 29 else 28
  else if month ∈ [4, 6, 9, 11] then 30
  else 31

structure Valid (d : Date) : Prop where
  month : 1 ≤ d.month ∧ d.month ≤ 12
  day : 1 ≤ d.day ∧ d.day ≤ monthLength d.year d.month

/-- The day after. -/
def next (d : Date) : Date :=
  if d.day < monthLength d.year d.month then { d with day := d.day + 1 }
  else if d.month < 12 then ⟨d.year, d.month + 1, 1⟩
  else ⟨d.year + 1, 1, 1⟩

/-! ## Counting days -/

/-- The leap years from year 1 up to `year`; up to year 0, less those after `year`. -/
def leapYears (year : Int) : Int := year / 4 - year / 100 + year / 400

/-- Days from 1970-01-01 to the first day of `year`. -/
def daysBeforeYear (year : Int) : Int :=
  365 * (year - 1970) + leapYears (year - 1) - leapYears 1969

/-- Days from the first day of `year` to the first of the month. -/
def daysBeforeMonth (year : Int) : Nat → Nat
  | 0 | 1 => 0
  | month + 2 => daysBeforeMonth year (month + 1) + monthLength year (month + 1)

/-- Days from 1970-01-01 to `d`. -/
def dayNumber (d : Date) : Int :=
  daysBeforeYear d.year + daysBeforeMonth d.year d.month + (d.day - 1)

theorem leapYears_eq (year : Int) :
    leapYears year = leapYears (year - 1) + if LeapYear year then 1 else 0 := by
  rw [leapYears, leapYears]
  by_cases h : LeapYear year
  · rw [if_pos h]
    unfold LeapYear at h
    omega
  · rw [if_neg h]
    unfold LeapYear at h
    omega

theorem daysBeforeYear_succ (year : Int) :
    daysBeforeYear (year + 1) = daysBeforeYear year + 365 + if LeapYear year then 1 else 0 := by
  rw [daysBeforeYear, daysBeforeYear, Int.add_sub_cancel, leapYears_eq year]
  omega

theorem daysBeforeMonth_succ (year : Int) {month : Nat} (h : 1 ≤ month) :
    daysBeforeMonth year (month + 1) = daysBeforeMonth year month + monthLength year month := by
  obtain ⟨m, rfl⟩ : ∃ m, month = m + 1 := ⟨month - 1, by omega⟩
  rfl

theorem monthLength_bounds (year : Int) (month : Nat) :
    1 ≤ monthLength year month ∧ monthLength year month ≤ 31 := by
  rw [monthLength]
  repeat' split
  all_goals decide

/-- From March to December the months are 153 days in five, in a leap year or not. -/
theorem monthLength_march (year : Int) {k : Nat} (hk : k < 10) :
    monthLength year (k + 3) + (153 * k + 2) / 5 = (153 * (k + 1) + 2) / 5 := by
  rw [monthLength, if_neg (by omega)]
  revert k
  decide

theorem daysBeforeMonth_march (year : Int) {k : Nat} (hk : k < 10) :
    daysBeforeMonth year (k + 3) = 59 + (if LeapYear year then 1 else 0) + (153 * k + 2) / 5 := by
  induction k with
  | zero =>
    have hfebruary : daysBeforeMonth year 3 = 31 + monthLength year 2 := rfl
    rw [Nat.zero_add, hfebruary, monthLength, if_pos rfl]
    split <;> rfl
  | succ k ih =>
    have hlength := monthLength_march year (Nat.lt_of_succ_lt hk)
    have hcounted := ih (Nat.lt_of_succ_lt hk)
    rw [show k + 1 + 3 = k + 3 + 1 by omega, daysBeforeMonth_succ year (by omega : 1 ≤ k + 3)]
    omega

/-- The count goes from each day to the next. -/
theorem dayNumber_next {d : Date} (h : d.Valid) :
    d.next.Valid ∧ d.next.dayNumber = d.dayNumber + 1 := by
  obtain ⟨year, month, day⟩ := d
  obtain ⟨⟨hmonth, hmonth'⟩, hday, hday'⟩ := h
  dsimp only at *
  rw [next]
  by_cases hlast : day < monthLength year month
  · rw [if_pos hlast]
    refine ⟨⟨⟨hmonth, hmonth'⟩, Nat.le_add_left 1 _, hlast⟩, ?_⟩
    simp only [dayNumber]
    omega
  rw [if_neg hlast]
  by_cases hyear : month < 12
  · rw [if_pos hyear]
    refine ⟨⟨⟨Nat.le_add_left 1 _, hyear⟩, Nat.le_refl 1, (monthLength_bounds _ _).1⟩, ?_⟩
    simp only [dayNumber, daysBeforeMonth_succ year hmonth]
    omega
  · rw [if_neg hyear]
    obtain rfl : month = 12 := by omega
    have hjanuary : daysBeforeMonth (year + 1) 1 = 0 := rfl
    have hdecember := daysBeforeMonth_march year (k := 9) (by decide)
    have hthirtyone : monthLength year 12 = 31 := rfl
    refine ⟨⟨⟨Nat.le_refl 1, Nat.le_add_left 1 11⟩, Nat.le_refl 1, (monthLength_bounds _ _).1⟩, ?_⟩
    simp only [dayNumber, daysBeforeYear_succ, hjanuary, hdecember]
    split <;> omega

/-! ## Years that begin in March -/

/-- The day `dayOfYear` days behind 1 March of `year`. -/
def ofMarch (year : Int) (dayOfYear : Nat) : Date :=
  let marchMonth := (5 * dayOfYear + 2) / 153
  let month := if marchMonth < 10 then marchMonth + 3 else marchMonth - 9
  { year := year + if month ≤ 2 then 1 else 0
    month
    day := dayOfYear - (153 * marchMonth + 2) / 5 + 1 }

/-- The first of March is 306 days before the end of the year. -/
theorem dayNumber_ofMarch {year : Int} {dayOfYear : Nat}
    (h : dayOfYear < 365 ∨ dayOfYear = 365 ∧ LeapYear (year + 1)) :
    (ofMarch year dayOfYear).Valid ∧
      (ofMarch year dayOfYear).dayNumber = daysBeforeYear (year + 1) - 306 + dayOfYear := by
  simp only [ofMarch]
  generalize hk : (5 * dayOfYear + 2) / 153 = k
  by_cases hmarch : k < 10
  · have hlength := monthLength_march year hmarch
    rw [if_pos hmarch, if_neg (by omega), Int.add_zero]
    refine ⟨⟨⟨Nat.le_add_left 1 _, Nat.add_le_add_right (by omega : k ≤ 9) 3⟩,
      Nat.le_add_left 1 _, ?_⟩, ?_⟩
    · show dayOfYear - (153 * k + 2) / 5 + 1 ≤ monthLength year (k + 3)
      omega
    · simp only [dayNumber, daysBeforeYear_succ, daysBeforeMonth_march year hmarch]
      split <;> omega
  · -- January and February come last, in the next calendar year.
    rw [if_neg hmarch, if_pos (by omega)]
    obtain rfl | rfl : k = 10 ∨ k = 11 := by omega
    · have hjanuary : daysBeforeMonth (year + 1) 1 = 0 := rfl
      have hlength : monthLength (year + 1) 1 = 31 := rfl
      refine ⟨⟨⟨Nat.le_refl 1, Nat.le_add_left 1 11⟩, Nat.le_add_left 1 _, ?_⟩, ?_⟩
      · show dayOfYear - 306 + 1 ≤ monthLength (year + 1) 1
        omega
      · simp only [dayNumber, Nat.reduceSub, hjanuary]
        omega
    · have hfebruary : daysBeforeMonth (year + 1) 2 = 31 := rfl
      have hlength : monthLength (year + 1) 2 = if LeapYear (year + 1) then 29 else 28 := rfl
      refine ⟨⟨⟨Nat.le_add_left 1 1, Nat.le_add_left 2 10⟩, Nat.le_add_left 1 _, ?_⟩, ?_⟩
      · show dayOfYear - 337 + 1 ≤ monthLength (year + 1) 2
        rw [hlength]
        split
        · omega
        next hleap =>
          rcases h with h | h
          · omega
          · exact absurd h.2 hleap
      · simp only [dayNumber, Nat.reduceSub, hfebruary]
        omega

/-! ## Cycles of 400 years -/

/-- A day of a cycle: how many hundreds of years, fours of years and years of the cycle are
over, and how many days after them.  The last year of four has a day more, except at the end
of the first three hundreds. -/
structure CycleDay where
  hundreds : Nat
  fours : Nat
  years : Nat
  days : Nat
  hundreds_le : hundreds ≤ 3
  fours_le : fours ≤ 24
  years_le : years ≤ 3
  days_lt : days < 365 ∨ days = 365 ∧ years = 3 ∧ (fours = 24 → hundreds = 3)

namespace CycleDay

def index (p : CycleDay) : Nat := 36524 * p.hundreds + 1461 * p.fours + 365 * p.years + p.days

def year (p : CycleDay) : Nat := 100 * p.hundreds + 4 * p.fours + p.years

theorem exists_index {n : Nat} (h : n < 146097) : ∃ p : CycleDay, p.index = n := by
  obtain ⟨hundreds, n', hhundreds, hn', hsplit⟩ : ∃ hundreds n', hundreds ≤ 3 ∧
      (n' < 36524 ∨ n' = 36524 ∧ hundreds = 3) ∧ n = 36524 * hundreds + n' :=
    ⟨min (n / 36524) 3, n - 36524 * min (n / 36524) 3, by omega⟩
  obtain ⟨years, days, hyears, hdays, hsplit'⟩ : ∃ years days, years ≤ 3 ∧
      (days < 365 ∨ days = 365 ∧ years = 3) ∧ n' % 1461 = 365 * years + days :=
    ⟨min (n' % 1461 / 365) 3, n' % 1461 - 365 * min (n' % 1461 / 365) 3, by omega⟩
  refine ⟨⟨hundreds, n' / 1461, years, days, hhundreds, by omega, hyears, by omega⟩, ?_⟩
  simp only [index]
  omega

/-- The number of the year is the quotient by 365 once the leap days are taken out. -/
theorem year_eq (p : CycleDay) :
    (p.index - p.index / 1460 + p.index / 36524 - p.index / 146096) / 365 = p.year := by
  obtain ⟨hundreds, fours, years, days, hhundreds, hfours, hyears, hdays⟩ := p
  simp only [index, year]
  generalize hn : 36524 * hundreds + 1461 * fours + 365 * years + days = n
  have hleap : n / 1460 = 25 * hundreds + fours +
      (24 * hundreds + fours + 365 * years + days) / 1460 := by omega
  have hskipped : n / 36524 = hundreds + n / 146096 := by
    have hrest : 1461 * fours + 365 * years + days < 36524 ∨
        hundreds = 3 ∧ 1461 * fours + 365 * years + days = 36524 := by omega
    rcases hrest with hrest | ⟨rfl, hrest⟩ <;> omega
  rw [hskipped, ← Nat.add_assoc, Nat.add_sub_cancel, hleap]
  omega

theorem days_eq (p : CycleDay) :
    p.index - (365 * p.year + p.year / 4 - p.year / 100) = p.days := by
  obtain ⟨hundreds, fours, years, days, hhundreds, hfours, hyears, hdays⟩ := p
  simp only [index, year]
  omega

/-- A cycle has 97 leap years, a hundred years of it 24. -/
theorem leapYears_year (cycle : Int) (p : CycleDay) :
    leapYears (cycle * 400 + p.year) = 97 * cycle + 24 * p.hundreds + p.fours := by
  obtain ⟨hundreds, fours, years, days, hhundreds, hfours, hyears, hdays⟩ := p
  simp only [year, leapYears]
  generalize hn : cycle * 400 + (100 * hundreds + 4 * fours + years : Nat) = n
  have hquarter : n / 4 = 100 * cycle + 25 * hundreds + fours := by omega
  have hcentury : n / 100 = 4 * cycle + hundreds := by omega
  have hcycle : n / 400 = cycle := by omega
  rw [hquarter, hcentury, hcycle]
  omega

theorem leapYear_of_days {cycle : Int} {p : CycleDay} (h : p.days = 365) :
    LeapYear (cycle * 400 + p.year + 1) := by
  obtain ⟨hundreds, fours, years, days, hhundreds, hfours, hyears, hdays⟩ := p
  simp only [year, LeapYear] at h ⊢
  omega

end CycleDay

/-- The date of a day number is the valid date with this number. -/
theorem dayNumber_ofDays (days : Int) : (ofDays days).Valid ∧ (ofDays days).dayNumber = days := by
  obtain ⟨p, hp⟩ := CycleDay.exists_index (n := ((days + epochShift) % 146097).toNat) (by omega)
  have hdate : ofDays days =
      ofMarch ((days + epochShift) / 146097 * 400 + p.year) p.days := by
    simp only [ofDays, ← hp, CycleDay.year_eq, CycleDay.days_eq]
    rfl
  have hleap : p.days < 365 ∨ p.days = 365 ∧
      LeapYear ((days + epochShift) / 146097 * 400 + p.year + 1) :=
    p.days_lt.imp_right fun h => ⟨h.1, CycleDay.leapYear_of_days h.1⟩
  obtain ⟨hvalid, hnumber⟩ := dayNumber_ofMarch hleap
  rw [hdate]
  refine ⟨hvalid, ?_⟩
  rw [hnumber, daysBeforeYear, Int.add_sub_cancel, CycleDay.leapYears_year]
  have hbase : leapYears 1969 = 477 := rfl
  rw [hbase]
  simp only [CycleDay.index, CycleDay.year, epochShift] at hp ⊢
  omega

/-! ## One date for each number -/

theorem daysBeforeYear_le {year year' : Int} (h : year ≤ year') :
    daysBeforeYear year ≤ daysBeforeYear year' := by
  simp only [daysBeforeYear, leapYears]
  omega

theorem daysBeforeMonth_le (year : Int) {month month' : Nat} (h : month ≤ month') :
    daysBeforeMonth year month ≤ daysBeforeMonth year month' := by
  induction h with
  | refl => exact Nat.le_refl _
  | @step month' _ ih =>
    refine Nat.le_trans ih ?_
    cases month' with
    | zero => exact Nat.le_refl 0
    | succ month' => exact Nat.le_add_right _ _

/-- A valid date lies in its month. -/
theorem Valid.inMonth {d : Date} (h : d.Valid) :
    daysBeforeMonth d.year d.month + d.day ≤ daysBeforeMonth d.year (d.month + 1) := by
  rw [daysBeforeMonth_succ d.year h.month.1]
  exact Nat.add_le_add_left h.day.2 _

/-- A valid date lies in its year. -/
theorem Valid.inYear {d : Date} (h : d.Valid) :
    daysBeforeYear d.year ≤ d.dayNumber ∧ d.dayNumber < daysBeforeYear (d.year + 1) := by
  have hmonth := h.inMonth
  have hlast : daysBeforeMonth d.year (d.month + 1) ≤ daysBeforeMonth d.year 13 :=
    daysBeforeMonth_le d.year (Nat.succ_le_succ h.month.2)
  have hfirst := h.day.1
  have hdecember : daysBeforeMonth d.year 12 = 59 + (if LeapYear d.year then 1 else 0) + 275 :=
    daysBeforeMonth_march d.year (k := 9) (by decide)
  have hyear : daysBeforeMonth d.year 13 = daysBeforeMonth d.year 12 + 31 := rfl
  rw [dayNumber, daysBeforeYear_succ]
  by_cases hleap : LeapYear d.year
  · rw [if_pos hleap] at hdecember ⊢
    omega
  · rw [if_neg hleap] at hdecember ⊢
    omega

theorem eq_of_dayNumber {d d' : Date} (h : d.Valid) (h' : d'.Valid)
    (hnumber : d.dayNumber = d'.dayNumber) : d = d' := by
  have hyear : d.year = d'.year := by
    obtain ⟨hlow, hhigh⟩ := h.inYear
    obtain ⟨hlow', hhigh'⟩ := h'.inYear
    rcases Int.lt_trichotomy d.year d'.year with hlt | heq | hlt
    · have hle := daysBeforeYear_le (Int.add_one_le_of_lt hlt)
      omega
    · exact heq
    · have hle := daysBeforeYear_le (Int.add_one_le_of_lt hlt)
      omega
  have hmonth : d.month = d'.month := by
    have hin := h.inMonth
    have hin' := h'.inMonth
    have hfirst := h.day.1
    have hfirst' := h'.day.1
    rw [dayNumber, dayNumber] at hnumber
    rw [hyear] at hnumber hin
    rcases Nat.lt_trichotomy d.month d'.month with hlt | heq | hlt
    · have hle : daysBeforeMonth d'.year (d.month + 1) ≤ daysBeforeMonth d'.year d'.month :=
        daysBeforeMonth_le d'.year hlt
      omega
    · exact heq
    · have hle : daysBeforeMonth d'.year (d'.month + 1) ≤ daysBeforeMonth d'.year d.month :=
        daysBeforeMonth_le d'.year hlt
      omega
  obtain ⟨year, month, day⟩ := d
  obtain ⟨year', month', day'⟩ := d'
  obtain rfl : year = year' := hyear
  obtain rfl : month = month' := hmonth
  obtain rfl : day = day' := by
    simp only [dayNumber] at hnumber
    omega
  rfl

/-- From number to number the dates go from day to day. -/
theorem ofDays_succ (days : Int) : ofDays (days + 1) = (ofDays days).next := by
  obtain ⟨hvalid, hnumber⟩ := dayNumber_ofDays days
  obtain ⟨hvalid', hnumber'⟩ := dayNumber_ofDays (days + 1)
  obtain ⟨hnext, hcount⟩ := dayNumber_next hvalid
  refine eq_of_dayNumber hvalid' hnext ?_
  rw [hnumber', hcount, hnumber]

example : ofDays 0 = ⟨1970, 1, 1⟩ := by decide

end Date
end SeriesWire
