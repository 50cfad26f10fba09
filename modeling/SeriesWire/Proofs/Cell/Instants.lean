/-
What the cells of instants are displayed as.  In the calendar it is a text that
reads back to the cell's milliseconds, or to the day they fall on, and outside it is
their number (`renderCell_timestamp`, `renderCell_date`).  No date and time looks like
a number, so the cells of two instants are displayed alike only if they are the same.
-/
import SeriesWire.Proofs.Calendar.Reading
import SeriesWire.Proofs.Cell.Display
import SeriesWire.Proofs.GroupKey.Values

namespace SeriesWire

open Bytes

/-! ## The calendar in milliseconds -/

/-- The first millisecond of the calendar. -/
def CivilTime.first : CivilTime := ⟨⟨-262143, 1, 1⟩, 0, 0, 0, 0⟩

/-- The last millisecond of the calendar. -/
def CivilTime.last : CivilTime := ⟨⟨262142, 12, 31⟩, 23, 59, 59, 999⟩

def InCalendar (millis : Int) : Prop :=
  CivilTime.first.unixMillis ≤ millis ∧ millis ≤ CivilTime.last.unixMillis

instance (millis : Int) : Decidable (InCalendar millis) := inferInstanceAs (Decidable (_ ∧ _))

theorem Instant.ofMicros?_millis (millis : Int) :
    ofMicros? (millis * 1000) = if InCalendar millis then some ⟨millis * 1000⟩ else none := by
  have hfirst : firstDay.toDays * microsPerDay = CivilTime.first.unixMillis * 1000 := by decide
  have hlast : (lastDay.toDays + 1) * microsPerDay = (CivilTime.last.unixMillis + 1) * 1000 := by
    decide
  have hsame : firstDay.toDays * microsPerDay ≤ millis * 1000 ∧
      millis * 1000 < (lastDay.toDays + 1) * microsPerDay ↔ InCalendar millis := by
    rw [hfirst, hlast, InCalendar]
    omega
  rw [ofMicros?]
  exact ite_congr (propext hsame) (fun _ => rfl) (fun _ => rfl)

/-- `display` reads as a time, and this time is `millis` milliseconds after the Unix
epoch; outside the calendar it is the number. -/
structure TellsTime (display : String) (millis : Int) : Prop where
  inside : InCalendar millis →
    ∃ c, CivilTime.ofText? display = some c ∧ c.Valid ∧ c.unixMillis = millis
  outside : ¬InCalendar millis → display = toString millis

/-- `display` reads as a date, and the millisecond falls on this day; outside the
calendar it is the number. -/
structure TellsDay (display : String) (millis : Int) : Prop where
  inside : InCalendar millis →
    ∃ d, Date.ofText? display = some d ∧ d.Valid ∧
      d.dayNumber * 86400000 ≤ millis ∧ millis < (d.dayNumber + 1) * 86400000
  outside : ¬InCalendar millis → display = toString millis

theorem tellsTime_text (millis : Int) :
    TellsTime (if InCalendar millis then Instant.text 3 ⟨millis * 1000⟩ else toString millis)
      millis where
  inside := by
    intro h
    rw [if_pos h]
    refine ⟨_, Instant.ofText?_text _, Instant.civilTime_valid _, ?_⟩
    rw [Instant.unixMillis_civilTime]
    exact Int.mul_ediv_cancel _ (by decide)
  outside h := if_neg h

theorem tellsDay_text (millis : Int) :
    TellsDay (if InCalendar millis then (Instant.mk (millis * 1000)).date.text
      else toString millis) millis where
  inside := by
    intro h
    rw [if_pos h]
    obtain ⟨hvalid, hnumber⟩ := Date.dayNumber_ofDays (millis * 1000 / Instant.microsPerDay)
    refine ⟨_, Date.ofText?_text hvalid.lt_hundred.1 hvalid.lt_hundred.2, hvalid, ?_⟩
    rw [Instant.date, hnumber, Instant.microsPerDay]
    omega
  outside h := if_neg h

/-! ## Cells -/

section Cells

variable {t t' : ColumnType} {cell cell' : Bytes}

theorem display_ofMillis? (hlen : cell.length = 8) (display : Instant → String) :
    (match Epoch.ofMillis? (Int64.ofInt cell.toIntLE) with
      | some instant => display instant
      | none => toString cell.toIntLE) =
      if InCalendar cell.toIntLE then display ⟨cell.toIntLE * 1000⟩
      else toString cell.toIntLE := by
  have hfits := fitsInt_toIntLE cell
  rw [hlen] at hfits
  rw [Epoch.ofMillis?, toInt_int64 hfits, Instant.ofMicros?_millis]
  by_cases hin : InCalendar cell.toIntLE
  · simp only [if_pos hin]
  · simp only [if_neg hin]

theorem renderCell_timestamp (ht : t.isTimestamp = true) (hlen : cell.length = 8) :
    renderCell t.oid cell =
      if InCalendar cell.toIntLE then Instant.text 3 ⟨cell.toIntLE * 1000⟩
      else toString cell.toIntLE := by
  have hw : t.fixedWidth? = some cell.length := by
    rw [hlen]
    cases t <;> first | rfl | cases ht
  rw [renderCell_fixed (ColumnType.ofOid?_oid t) hw]
  obtain rfl | rfl : t = .timestamp ∨ t = .timestamptz := by
    cases t <;> first | exact .inl rfl | exact .inr rfl | cases ht
  all_goals exact display_ofMillis? hlen (Instant.text 3)

theorem renderCell_date (hlen : cell.length = 8) :
    renderCell ColumnType.date.oid cell =
      if InCalendar cell.toIntLE then (Instant.mk (cell.toIntLE * 1000)).date.text
      else toString cell.toIntLE := by
  have hw : ColumnType.date.fixedWidth? = some cell.length := congrArg some hlen.symm
  rw [renderCell_fixed (ColumnType.ofOid?_oid .date) hw]
  exact display_ofMillis? hlen (·.date.text)

/-- No number is the text of an instant. -/
theorem text_ne_toString (i : Instant) (n : Int) : i.text 3 ≠ toString n := by
  intro h
  have hmark : 'T' ∈ (i.text 3).toList := by
    rw [Scan.toList_instantText]
    exact List.mem_append_right _ List.mem_cons_self
  rw [h] at hmark
  exact absurd (GroupKey.mem_toString_int hmark) (by decide)

theorem toIntLE_eq_of_renderCell (ht : t.isTimestamp = true) (ht' : t'.isTimestamp = true)
    (hlen : cell.length = 8) (hlen' : cell'.length = 8)
    (h : renderCell t.oid cell = renderCell t'.oid cell') : cell.toIntLE = cell'.toIntLE := by
  rw [renderCell_timestamp ht hlen, renderCell_timestamp ht' hlen'] at h
  by_cases hin : InCalendar cell.toIntLE
  · by_cases hin' : InCalendar cell'.toIntLE
    · obtain ⟨c, hc, -, hmillis⟩ := (tellsTime_text cell.toIntLE).inside hin
      obtain ⟨c', hc', -, hmillis'⟩ := (tellsTime_text cell'.toIntLE).inside hin'
      rw [h, hc'] at hc
      rw [← hmillis, ← hmillis', Option.some.inj hc]
    · rw [if_pos hin, if_neg hin'] at h
      exact absurd h (text_ne_toString _ _)
  · by_cases hin' : InCalendar cell'.toIntLE
    · rw [if_neg hin, if_pos hin'] at h
      exact absurd h.symm (text_ne_toString _ _)
    · rw [if_neg hin, if_neg hin'] at h
      exact GroupKey.eq_of_toString_int (congrArg String.toList h)

/-- A cell of an instant is displayed as its time, a cell of a date as its day, and
instants that differ are displayed differently. -/
theorem renderCell_tells (ht : t.isTimestamp = true) (ht' : t'.isTimestamp = true)
    (hlen : cell.length = 8) (hlen' : cell'.length = 8) :
    TellsTime (renderCell t.oid cell) cell.toIntLE ∧
      TellsDay (renderCell ColumnType.date.oid cell) cell.toIntLE ∧
      (cell ≠ cell' → renderCell t.oid cell ≠ renderCell t'.oid cell') := by
  refine ⟨?_, ?_, fun hne h => hne ?_⟩
  · rw [renderCell_timestamp ht hlen]
    exact tellsTime_text cell.toIntLE
  · rw [renderCell_date hlen]
    exact tellsDay_text cell.toIntLE
  · exact eq_of_toIntLE (hlen.trans hlen'.symm) (toIntLE_eq_of_renderCell ht ht' hlen hlen' h)

/-- The last millisecond before the Unix epoch, and one that no calendar day has. -/
theorem renderCell_tells_beforeEpoch :
    (∃ c, CivilTime.ofText? (renderCell ColumnType.timestamp.oid (ofIntLE 8 (-1))) = some c ∧
      c.Valid ∧ c.unixMillis = -1) ∧
    (∃ d, Date.ofText? (renderCell ColumnType.date.oid (ofIntLE 8 (-1))) = some d ∧ d.Valid ∧
      d.dayNumber * 86400000 ≤ -1 ∧ -1 < (d.dayNumber + 1) * 86400000) ∧
    renderCell ColumnType.timestamptz.oid (ofIntLE 8 9223372036854775807) =
      toString (9223372036854775807 : Int) ∧
    renderCell ColumnType.timestamp.oid (ofIntLE 8 (-1)) ≠
      renderCell ColumnType.timestamptz.oid (ofIntLE 8 9223372036854775807) := by
  have hin : (ofIntLE 8 (-1)).toIntLE = -1 := by decide
  have hout : (ofIntLE 8 9223372036854775807).toIntLE = 9223372036854775807 := by decide
  have hlen : (ofIntLE 8 (-1)).length = 8 := length_ofIntLE 8 _
  have hlen' : (ofIntLE 8 9223372036854775807).length = 8 := length_ofIntLE 8 _
  have htimestamp : ColumnType.timestamp.isTimestamp = true := rfl
  have htimestamptz : ColumnType.timestamptz.isTimestamp = true := rfl
  obtain ⟨htime, hday, hdiffer⟩ := renderCell_tells htimestamp htimestamptz hlen hlen'
  obtain ⟨hnumber, -, -⟩ := renderCell_tells htimestamptz htimestamptz hlen' hlen'
  rw [hin] at htime hday
  rw [hout] at hnumber
  exact ⟨htime.inside (by decide), hday.inside (by decide), hnumber.outside (by decide),
    hdiffer (by decide)⟩

end Cells
end SeriesWire
