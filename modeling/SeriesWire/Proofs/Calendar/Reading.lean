/-
Dates and times, read from their texts.  A text is read front to back: runs of digits
of a known length, the marks between them, and a sign in front of a year.  `Gives` says
of a step what it takes off the front, and the steps in a row read back what was
written (`Date.ofText?_text`, `Instant.ofText?_text`).
-/
import SeriesWire.Proofs.Calendar.Gregorian
import SeriesWire.Proofs.Decimal.Text

namespace SeriesWire

/-- A date and the time of day on it. -/
structure CivilTime where
  date : Date
  hour : Nat
  minute : Nat
  second : Nat
  millis : Nat
  deriving DecidableEq, Repr

namespace CivilTime

structure Valid (c : CivilTime) : Prop where
  date : c.date.Valid
  hour : c.hour < 24
  minute : c.minute < 60
  second : c.second < 60
  millis : c.millis < 1000

/-- Milliseconds since 1970-01-01T00:00:00.000Z. -/
def unixMillis (c : CivilTime) : Int :=
  (((c.date.dayNumber * 24 + c.hour) * 60 + c.minute) * 60 + c.second) * 1000 + c.millis

end CivilTime

/-- A step that takes something off the front of a text. -/
abbrev ScanM := StateT (List Char) Option

namespace Scan

/-- All digits at the front, as a number, if their count is one that `fits`. -/
def number (fits : Nat → Bool) : ScanM Nat := fun cs =>
  let digits := cs.takeWhile Char.isDigit
  if fits digits.length then
    some (Nat.ofDigitChars 10 digits 0, cs.dropWhile Char.isDigit)
  else none

def mark (c : Char) : ScanM Unit := fun
  | [] => none
  | first :: rest => if first = c then some ((), rest) else none

/-- A sign, plus if there is none. -/
def sign : ScanM Int := fun
  | '-' :: rest => some (-1, rest)
  | '+' :: rest => some (1, rest)
  | cs => some (1, cs)

def year : ScanM Int := do
  let sign ← sign
  let digits ← number (4 ≤ ·)
  return sign * digits

/-- Year, month and day. -/
def date : ScanM Date := do
  let year ← year
  mark '-'
  let month ← number (· == 2)
  mark '-'
  let day ← number (· == 2)
  return { year, month, day }

/-- A date and a time of day with milliseconds, in UTC. -/
def civilTime : ScanM CivilTime := do
  let date ← date
  mark 'T'
  let hour ← number (· == 2)
  mark ':'
  let minute ← number (· == 2)
  mark ':'
  let second ← number (· == 2)
  mark '.'
  let millis ← number (· == 3)
  mark 'Z'
  return { date, hour, minute, second, millis }

/-- What `m` makes of a whole text. -/
def whole {α : Type} (m : ScanM α) (s : String) : Option α :=
  match m s.toList with
  | some (a, []) => some a
  | _ => none

end Scan

def Date.ofText? (s : String) : Option Date := Scan.whole Scan.date s

def CivilTime.ofText? (s : String) : Option CivilTime := Scan.whole Scan.civilTime s

namespace Scan

variable {α β : Type} {m : ScanM α} {cs cs' rest : List Char} {a : α} {b : β}

/-- In front of `cs ++ rest`, `m` takes `cs` and gives `a`. -/
def Gives (m : ScanM α) (cs rest : List Char) (a : α) : Prop := m (cs ++ rest) = some (a, rest)

theorem Gives.bind {k : α → ScanM β} (hm : Gives m cs (cs' ++ rest) a)
    (hk : Gives (k a) cs' rest b) : Gives (m >>= k) (cs ++ cs') rest b := by
  rw [Gives] at hm hk ⊢
  rw [List.append_assoc]
  show (m (cs ++ (cs' ++ rest))).bind (fun x => k x.1 x.2) = _
  rw [hm]
  exact hk

theorem Gives.map {f : α → β} (hm : Gives m cs rest a) :
    Gives (m >>= fun a => pure (f a)) cs rest (f a) := by
  rw [Gives] at hm ⊢
  show (m (cs ++ rest)).bind (fun x => some (f x.1, x.2)) = _
  rw [hm]
  rfl

theorem gives_mark (c : Char) (rest : List Char) : Gives (mark c) [c] rest () := if_pos rfl

/-! ## Digits -/

/-- `cs` are digits that spell `n`. -/
structure Spells (cs : List Char) (n : Nat) : Prop where
  isDigit : ∀ c ∈ cs, c.isDigit = true
  value : Nat.ofDigitChars 10 cs 0 = n

theorem spells_repr (n : Nat) : Spells n.repr.toList n where
  isDigit := fun _ => Decimal.isDigit_of_mem_repr
  value := Decimal.ofDigitChars_repr n

theorem toList_zeroPadded (width n : Nat) :
    (zeroPadded width n).toList =
      List.replicate (width - n.repr.toList.length) '0' ++ n.repr.toList :=
  String.toList_ofList

theorem spells_zeroPadded (width n : Nat) : Spells (zeroPadded width n).toList n := by
  rw [toList_zeroPadded]
  refine ⟨fun c hc => ?_, ?_⟩
  · rcases List.mem_append.1 hc with hc | hc
    · rw [List.eq_of_mem_replicate hc]
      rfl
    · exact (spells_repr n).isDigit c hc
  · rw [Nat.ofDigitChars_append, Nat.ofDigitChars_replicate_zero, Nat.mul_zero,
      (spells_repr n).value]

theorem length_zeroPadded (width n : Nat) :
    (zeroPadded width n).toList.length = max width n.repr.toList.length := by
  rw [toList_zeroPadded, List.length_append, List.length_replicate]
  omega

theorem length_zeroPadded_of_lt {width n : Nat} (hwidth : 0 < width) (h : n < Nat.pow 10 width) :
    (zeroPadded width n).toList.length = width := by
  have hrepr := (Nat.length_toDigits_le_iff (by decide) hwidth).2 h
  rw [← Nat.toList_repr] at hrepr
  rw [length_zeroPadded, Nat.max_eq_left hrepr]

/-- The digits are over before `rest`. -/
def NoDigit (rest : List Char) : Prop := ∀ c ∈ rest.head?, c.isDigit = false

theorem noDigit_nil : NoDigit [] := fun _ hc => by cases hc

theorem noDigit_mark {c : Char} (h : c.isDigit = false) (rest : List Char) :
    NoDigit (c :: rest) := by
  intro c' hc'
  rw [← Option.some.inj hc', h]

theorem takeWhile_isDigit (h : ∀ c ∈ cs, c.isDigit = true) (hrest : NoDigit rest) :
    (cs ++ rest).takeWhile Char.isDigit = cs ∧ (cs ++ rest).dropWhile Char.isDigit = rest := by
  rw [List.takeWhile_append_of_pos h, List.dropWhile_append_of_pos h]
  cases rest with
  | nil => exact ⟨List.append_nil cs, rfl⟩
  | cons c rest =>
    have hc : ¬c.isDigit = true := Bool.eq_false_iff.1 (hrest c rfl)
    rw [List.takeWhile_cons_of_neg hc, List.dropWhile_cons_of_neg hc, List.append_nil]
    exact ⟨rfl, rfl⟩

theorem gives_number {fits : Nat → Bool} {n : Nat} (h : Spells cs n)
    (hfits : fits cs.length = true) (hrest : NoDigit rest) :
    Gives (number fits) cs rest n := by
  obtain ⟨htaken, hleft⟩ := takeWhile_isDigit h.isDigit hrest
  simp only [Gives, number, htaken, hleft, hfits, h.value, if_true]

theorem gives_padded {width n : Nat} {fits : Nat → Bool} (hwidth : 0 < width)
    (h : n < Nat.pow 10 width) (hfits : fits width = true) (hrest : NoDigit rest) :
    Gives (number fits) (zeroPadded width n).toList rest n :=
  gives_number (spells_zeroPadded width n) (by rwa [length_zeroPadded_of_lt hwidth h]) hrest

/-! ## Years -/

theorem gives_plus (rest : List Char) : Gives sign ['+'] rest 1 := rfl

theorem gives_minus (rest : List Char) : Gives sign ['-'] rest (-1) := rfl

theorem gives_signless {c : Char} (h : c.isDigit = true) (rest : List Char) :
    Gives sign [] (c :: rest) 1 := by
  show sign (c :: rest) = some (1, c :: rest)
  unfold sign
  split
  next heq =>
    obtain ⟨rfl, -⟩ := List.cons.inj heq
    cases h
  next heq =>
    obtain ⟨rfl, -⟩ := List.cons.inj heq
    cases h
  next => rfl

theorem gives_signed {s : Int} {front : List Char} {n : Nat}
    (hsign : Gives sign front (cs ++ rest) s) (h : Spells cs n) (hlen : 4 ≤ cs.length)
    (hrest : NoDigit rest) :
    Gives year (front ++ cs) rest (s * n) :=
  Gives.bind hsign (gives_number h (decide_eq_true hlen) hrest).map

theorem four_le_length_repr {n : Nat} (h : 9999 < n) : 4 ≤ n.repr.toList.length := by
  rw [Nat.toList_repr]
  have hlong : ¬(Nat.toDigits 10 n).length ≤ 3 := by
    rw [Nat.length_toDigits_le_iff (by decide) (by decide)]
    omega
  omega

theorem gives_year (y : Int) (hrest : NoDigit rest) :
    Gives year (yearText y).toList rest y := by
  have hpadded : ∀ n, 4 ≤ (zeroPadded 4 n).toList.length := fun n => by
    rw [length_zeroPadded]
    exact Nat.le_max_left _ _
  rw [yearText]
  split
  next hlate =>
    have hread := gives_signed (gives_plus _) (spells_repr y.toNat)
      (four_le_length_repr (by omega)) hrest
    rw [Int.one_mul, Int.toNat_of_nonneg (by omega)] at hread
    rw [String.toList_append]
    exact hread
  next =>
    split
    next hneg =>
      have hread := gives_signed (gives_minus _) (spells_zeroPadded 4 y.natAbs)
        (hpadded y.natAbs) hrest
      rw [Int.neg_one_mul, Int.ofNat_natAbs_of_nonpos (by omega), Int.neg_neg] at hread
      rw [String.toList_append]
      exact hread
    next hnonneg =>
      have hspells := spells_zeroPadded 4 y.toNat
      have hsign : Gives sign [] ((zeroPadded 4 y.toNat).toList ++ rest) 1 := by
        cases hdigits : (zeroPadded 4 y.toNat).toList with
        | nil =>
          have hlen := hpadded y.toNat
          rw [hdigits] at hlen
          cases hlen
        | cons c cs => exact gives_signless (hspells.isDigit c (hdigits ▸ List.mem_cons_self)) _
      have hread := gives_signed hsign hspells (hpadded y.toNat) hrest
      rwa [Int.one_mul, Int.toNat_of_nonneg (by omega), List.nil_append] at hread

/-! ## Whole texts -/

theorem toList_dateText (d : Date) :
    d.text.toList = (yearText d.year).toList ++ (['-'] ++ ((zeroPadded 2 d.month).toList ++
      (['-'] ++ (zeroPadded 2 d.day).toList))) := by
  simp only [Date.text, String.toList_append, List.append_assoc]
  rfl

theorem gives_date {d : Date} (hmonth : d.month < 100) (hday : d.day < 100)
    (hrest : NoDigit rest) : Gives date d.text.toList rest d := by
  rw [toList_dateText]
  refine Gives.bind (gives_year d.year (noDigit_mark rfl _)) ?_
  refine Gives.bind (gives_mark '-' _) ?_
  refine Gives.bind (gives_padded (by decide) hmonth rfl (noDigit_mark rfl _)) ?_
  refine Gives.bind (gives_mark '-' _) ?_
  exact (gives_padded (by decide) hday rfl hrest).map

theorem toList_instantText (t : Instant) :
    (t.text 3).toList = t.date.text.toList ++ (['T'] ++
      ((zeroPadded 2 (t.timeOfDay / 1000000 / 3600)).toList ++ ([':'] ++
      ((zeroPadded 2 (t.timeOfDay / 1000000 / 60 % 60)).toList ++ ([':'] ++
      ((zeroPadded 2 (t.timeOfDay / 1000000 % 60)).toList ++ (['.'] ++
      ((zeroPadded 3 (t.timeOfDay % 1000000 / 1000)).toList ++ ['Z'])))))))) := by
  simp only [Instant.text, String.toList_append, List.append_assoc]
  rfl

theorem whole_eq {s : String} (h : Gives m s.toList [] a) : whole m s = some a := by
  rw [Gives, List.append_nil] at h
  rw [whole, h]

end Scan

/-- The date that a text spells is read back from it. -/
theorem Date.ofText?_text {d : Date} (hmonth : d.month < 100) (hday : d.day < 100) :
    Date.ofText? d.text = some d :=
  Scan.whole_eq (Scan.gives_date hmonth hday Scan.noDigit_nil)

namespace Instant

/-- An instant to the millisecond, as date and time of day. -/
def civilTime (t : Instant) : CivilTime where
  date := t.date
  hour := t.timeOfDay / 1000000 / 3600
  minute := t.timeOfDay / 1000000 / 60 % 60
  second := t.timeOfDay / 1000000 % 60
  millis := t.timeOfDay % 1000000 / 1000

theorem timeOfDay_lt (t : Instant) : t.timeOfDay < 86400000000 := by
  rw [timeOfDay, microsPerDay]
  omega

theorem date_valid (t : Instant) : t.date.Valid := (Date.dayNumber_ofDays _).1

theorem civilTime_valid (t : Instant) : t.civilTime.Valid := by
  have hday := t.timeOfDay_lt
  refine ⟨t.date_valid, ?_, Nat.mod_lt _ (by decide), Nat.mod_lt _ (by decide), ?_⟩
  · simp only [civilTime]
    omega
  · simp only [civilTime]
    omega

/-- The date and time of day count to the instant, less what is below a millisecond. -/
theorem unixMillis_civilTime (t : Instant) : t.civilTime.unixMillis = t.micros / 1000 := by
  have hnumber : t.date.dayNumber = t.micros / 86400000000 := (Date.dayNumber_ofDays _).2
  have htime : (t.timeOfDay : Int) = t.micros % 86400000000 := by
    rw [timeOfDay, microsPerDay]
    omega
  simp only [CivilTime.unixMillis, civilTime, hnumber]
  omega

end Instant

theorem Date.Valid.lt_hundred {d : Date} (h : d.Valid) : d.month < 100 ∧ d.day < 100 := by
  obtain ⟨-, hlength⟩ := monthLength_bounds d.year d.month
  have hmonth := h.month.2
  have hday := h.day.2
  omega

/-- What the text of an instant spells is its date and time of day. -/
theorem Instant.ofText?_text (t : Instant) : CivilTime.ofText? (t.text 3) = some t.civilTime := by
  have hvalid := t.civilTime_valid
  obtain ⟨hmonth, hday⟩ := t.date_valid.lt_hundred
  have hhour : t.timeOfDay / 1000000 / 3600 < Nat.pow 10 2 := Nat.lt_trans hvalid.hour (by decide)
  have hminute : t.timeOfDay / 1000000 / 60 % 60 < Nat.pow 10 2 :=
    Nat.lt_trans hvalid.minute (by decide)
  have hsecond : t.timeOfDay / 1000000 % 60 < Nat.pow 10 2 := Nat.lt_trans hvalid.second (by decide)
  have hmillis : t.timeOfDay % 1000000 / 1000 < Nat.pow 10 3 := hvalid.millis
  refine Scan.whole_eq ?_
  rw [Scan.toList_instantText]
  refine Scan.Gives.bind (Scan.gives_date hmonth hday (Scan.noDigit_mark rfl _)) ?_
  refine Scan.Gives.bind (Scan.gives_mark 'T' _) ?_
  refine Scan.Gives.bind (Scan.gives_padded (by decide) hhour rfl (Scan.noDigit_mark rfl _)) ?_
  refine Scan.Gives.bind (Scan.gives_mark ':' _) ?_
  refine Scan.Gives.bind (Scan.gives_padded (by decide) hminute rfl (Scan.noDigit_mark rfl _)) ?_
  refine Scan.Gives.bind (Scan.gives_mark ':' _) ?_
  refine Scan.Gives.bind (Scan.gives_padded (by decide) hsecond rfl (Scan.noDigit_mark rfl _)) ?_
  refine Scan.Gives.bind (Scan.gives_mark '.' _) ?_
  refine Scan.Gives.bind (Scan.gives_padded (by decide) hmillis rfl (Scan.noDigit_mark rfl _)) ?_
  exact (Scan.gives_mark 'Z' _).map

end SeriesWire
