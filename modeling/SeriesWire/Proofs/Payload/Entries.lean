/-
Variable entries.  An entry says how long it is, so whether it is read depends on
the bytes up to its end and on none behind them.  The tags of a payload have
their entries in a region that ends with the furthest of them; every entry that
is read inside a longer region is therefore read inside this one.
-/
import SeriesWire.Proofs.Payload.Content

namespace SeriesWire

open Bytes

variable {region text : Bytes} {start len stop : Nat}

/-! ## One entry -/

theorem takeAt_eq_ok {what : String} {taken : Bytes} :
    takeAt region what start len = .ok taken ↔
      start + len ≤ region.length ∧ region.slice start len = taken := by
  rw [takeAt]
  constructor
  · intro hok
    split at hok
    · cases hok
    next h => exact ⟨Nat.le_of_not_lt h, Except.ok.inj hok⟩
  · rintro ⟨hle, rfl⟩
    exact if_neg (Nat.not_lt_of_le hle)

/-- The length in front of an entry counts its text and the terminator. -/
def declaredAt (region : Bytes) (offset : Nat) : Nat := (region.slice offset 2).toNatLE

theorem readEntry_eq_ok {offset : Nat} :
    readEntry region offset = .ok (text, stop) ↔
      declaredAt region offset ≠ 0 ∧ stop = offset + 2 + declaredAt region offset ∧
        stop ≤ region.length ∧
        text = region.slice (offset + 2) (declaredAt region offset - 1) := by
  rw [readEntry, Outcome.bind_eq_ok]
  constructor
  · rintro ⟨length, hlength, h⟩
    obtain ⟨hle, rfl⟩ := takeAt_eq_ok.1 hlength
    obtain ⟨hdeclared, h⟩ := Outcome.check_eq_ok.1 h
    obtain ⟨entry, hentry, h⟩ := Outcome.bind_eq_ok.1 h
    obtain ⟨hfits, rfl⟩ := takeAt_eq_ok.1 hentry
    cases h
    refine ⟨hdeclared, rfl, hfits, ?_⟩
    rw [← slice_zero, slice_slice (by omega), Nat.add_zero]
    rfl
  · rintro ⟨hdeclared, rfl, hle, rfl⟩
    refine ⟨_, takeAt_eq_ok.2 ⟨by omega, rfl⟩, ?_⟩
    refine Outcome.check_eq_ok.2 ⟨hdeclared, ?_⟩
    refine Outcome.bind_eq_ok.2 ⟨_, takeAt_eq_ok.2 ⟨hle, rfl⟩, ?_⟩
    show Except.ok _ = _
    rw [← slice_zero, slice_slice (by omega), Nat.add_zero]
    rfl

theorem length_of_readEntry {offset : Nat} (h : readEntry region offset = .ok (text, stop)) :
    offset + 2 + text.length + 1 = stop ∧ stop ≤ region.length ∧
      region.slice (offset + 2) text.length = text := by
  obtain ⟨hdeclared, hstop, hle, htext⟩ := readEntry_eq_ok.1 h
  have hlen : text.length = declaredAt region offset - 1 := by
    rw [htext]
    exact length_slice_of_le (by omega)
  refine ⟨by omega, hle, ?_⟩
  rw [hlen]
  exact htext.symm

/-- Bytes behind the end of an entry make no difference to it. -/
theorem readEntry_append (hstop : stop ≤ region.length) (extra : Bytes) (offset : Nat) :
    readEntry (region ++ extra) offset = .ok (text, stop) ↔
      readEntry region offset = .ok (text, stop) := by
  rw [readEntry_eq_ok, readEntry_eq_ok]
  by_cases hoffset : offset + 2 ≤ region.length
  · have hdeclared : declaredAt (region ++ extra) offset = declaredAt region offset :=
      congrArg toNatLE (slice_append_of_le hoffset extra)
    rw [hdeclared]
    refine and_congr_right fun _ => and_congr_right fun hend => ?_
    rw [slice_append_of_le (by omega), List.length_append]
    exact and_congr_left fun _ => ⟨fun _ => hstop, fun _ => by omega⟩
  · constructor
    · rintro ⟨-, hend, -⟩
      omega
    · rintro ⟨-, hend, -⟩
      omega

/-! ## The entries of the tags -/

namespace PayloadView

variable {s : Shape} {bitmap slots region' : Bytes} {n first : Nat} {offsets : List Nat}

/-- Where the tags that are not missing have their entries. -/
def entryOffsets (s : Shape) (bitmap slots : Bytes) : List Nat :=
  (s.numberedTags.filter fun (_, i) => hasEntry s i && !Bitmap.marked bitmap (i - s.tagIndex)).map
    fun (_, i) => offset (tagSlot s slots i)

/-- The end of the furthest entry at one of `offsets`, or `first`. -/
def furthestEnd (region : Bytes) (first : Nat) (offsets : List Nat) : Except WireError Nat :=
  offsets.foldlM
    (fun furthest o => (readEntry region o).map fun entry => max furthest entry.2) first

theorem entriesEnd_eq (s : Shape) (bitmap slots region : Bytes) :
    entriesEnd s bitmap slots region = furthestEnd region 0 (entryOffsets s bitmap slots) := by
  rw [entriesEnd, furthestEnd, entryOffsets, List.foldlM_map, List.foldlM_filter]
  rfl

theorem mem_entryOffsets {i : Nat} (htag : s.tagIndex ≤ i) (hi : i < s.columns.length)
    (hentry : hasEntry s i = true) (hmarked : Bitmap.marked bitmap (i - s.tagIndex) = false) :
    offset (tagSlot s slots i) ∈ entryOffsets s bitmap slots := by
  rw [entryOffsets, List.mem_map]
  refine ⟨_, List.mem_filter.2 ⟨Shape.mem_numberedTags htag hi, ?_⟩, rfl⟩
  simp only [hentry, hmarked, Bool.not_false, Bool.and_self]

theorem furthestEnd_cons {o : Nat} :
    furthestEnd region first (o :: offsets) = .ok n ↔
      ∃ text stop, readEntry region o = .ok (text, stop) ∧
        furthestEnd region (max first stop) offsets = .ok n := by
  rw [furthestEnd, List.foldlM_cons, Outcome.bind_eq_ok]
  constructor
  · rintro ⟨_, hentry, hrest⟩
    obtain ⟨⟨text, stop⟩, hread, rfl⟩ := Outcome.map_eq_ok.1 hentry
    exact ⟨text, stop, hread, hrest⟩
  · rintro ⟨text, stop, hread, hrest⟩
    exact ⟨_, Outcome.map_eq_ok.2 ⟨_, hread, rfl⟩, hrest⟩

/-- Every entry is there, and none ends behind the furthest one. -/
theorem furthestEnd_spec (h : furthestEnd region first offsets = .ok n) :
    first ≤ n ∧ n ≤ max first region.length ∧
      ∀ o ∈ offsets, ∃ text stop, readEntry region o = .ok (text, stop) ∧ stop ≤ n := by
  induction offsets generalizing first with
  | nil =>
    cases h
    exact ⟨Nat.le_refl _, Nat.le_max_left _ _, fun o ho => absurd ho List.not_mem_nil⟩
  | cons o offsets ih =>
    obtain ⟨text, stop, hread, hrest⟩ := furthestEnd_cons.1 h
    obtain ⟨hfirst, hn, hall⟩ := ih hrest
    obtain ⟨-, hstop, -⟩ := length_of_readEntry hread
    refine ⟨by omega, by omega, List.forall_mem_cons.2 ⟨⟨text, stop, hread, by omega⟩, hall⟩⟩

/-- Another region with the same entries has the same end. -/
theorem furthestEnd_congr (h : furthestEnd region first offsets = .ok n)
    (hsame : ∀ o text stop, stop ≤ n → readEntry region o = .ok (text, stop) →
      readEntry region' o = .ok (text, stop)) :
    furthestEnd region' first offsets = .ok n := by
  induction offsets generalizing first with
  | nil => exact h
  | cons o offsets ih =>
    obtain ⟨text, stop, hread, hrest⟩ := furthestEnd_cons.1 h
    obtain ⟨hfirst, -, -⟩ := furthestEnd_spec hrest
    exact furthestEnd_cons.2 ⟨text, stop, hsame o text stop (by omega) hread, ih hrest⟩

theorem entriesEnd_le (h : entriesEnd s bitmap slots region = .ok n) : n ≤ region.length := by
  rw [entriesEnd_eq] at h
  obtain ⟨-, hn, -⟩ := furthestEnd_spec h
  omega

/-- The furthest entry ends in the same place, whether or not bytes stand behind
it. -/
theorem entriesEnd_append (hn : n ≤ region.length) (extra : Bytes) :
    entriesEnd s bitmap slots (region ++ extra) = .ok n ↔
      entriesEnd s bitmap slots region = .ok n := by
  rw [entriesEnd_eq, entriesEnd_eq]
  constructor <;> intro h <;> refine furthestEnd_congr h fun o text stop hstop hread => ?_
  · exact (readEntry_append (by omega) extra o).1 hread
  · exact (readEntry_append (by omega) extra o).2 hread

theorem readEntry_of_entriesEnd (h : entriesEnd s bitmap slots region = .ok n) {i : Nat}
    (htag : s.tagIndex ≤ i) (hi : i < s.columns.length) (hentry : hasEntry s i = true)
    (hmarked : Bitmap.marked bitmap (i - s.tagIndex) = false) :
    ∃ text stop, readEntry region (offset (tagSlot s slots i)) = .ok (text, stop) := by
  rw [entriesEnd_eq] at h
  obtain ⟨-, -, hall⟩ := furthestEnd_spec h
  obtain ⟨text, stop, hread, -⟩ := hall _ (mem_entryOffsets htag hi hentry hmarked)
  exact ⟨text, stop, hread⟩

end PayloadView
end SeriesWire
