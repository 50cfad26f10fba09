/-
What writing a cell leaves alone.  `Replaces` says that bytes were laid over others and
nothing else changed.  A cell that is written replaces the front of its destination and
its entry's part of the region, by bytes that are known without looking at either buffer.
One that is not changes nothing, except that an entry is laid out before its offset is:
it stays behind when there is no room for the offset (`Stray`).
-/
import SeriesWire.Proofs.Cell.Octets
import SeriesWire.Proofs.Shape

namespace SeriesWire

open Bytes

/-! ## Bytes over bytes -/

/-- `after` is `before` with `src` from `start` on, as long as it was, and the same on
both sides of `src`. -/
structure Replaces (before : Bytes) (start : Nat) (src after : Bytes) : Prop where
  length_eq : after.length = before.length
  take_eq : after.take start = before.take start
  slice_eq : after.slice start src.length = src
  drop_eq : after.drop (start + src.length) = before.drop (start + src.length)

theorem replaces_nil (before : Bytes) (start : Nat) : Replaces before start [] before where
  length_eq := rfl
  take_eq := rfl
  slice_eq := List.take_zero
  drop_eq := rfl

/-- What replaces the same bytes in the same way is the same. -/
theorem Replaces.unique {before src a b : Bytes} {start : Nat} (ha : Replaces before start src a)
    (hb : Replaces before start src b) : a = b := by
  rw [← List.take_append_drop start a, ← List.take_append_drop start b, ha.take_eq, hb.take_eq,
    drop_eq_slice_append a start src.length, drop_eq_slice_append b start src.length,
    ha.slice_eq, hb.slice_eq, ha.drop_eq, hb.drop_eq]

theorem replaces_overwrite {before src : Bytes} {start : Nat}
    (h : start + src.length ≤ before.length) :
    Replaces before start src (before.overwrite start src) where
  length_eq := length_overwrite h
  take_eq := take_overwrite_of_le (Nat.le_refl start) (by omega) src
  slice_eq := by
    have hfront : (before.take start).length = start := by
      rw [List.length_take]
      omega
    have hcut := slice_append (before.take start) src (before.drop (start + src.length))
    rwa [hfront, ← List.append_assoc] at hcut
  drop_eq := drop_overwrite (by omega) (Nat.le_refl _)

namespace CellValue

variable {v : CellValue} {t : ColumnType} {oid : UInt32} {width offset : Nat} {primary : Bool}
  {dest region : Bytes} {stored : Stored}

/-! ## Entries -/

/-- The entry of `v` fits the region, and there is no room for its offset. -/
def Stray (v : CellValue) (oid : UInt32) (dest region : Bytes) (offset : Nat) (primary : Bool) :
    Prop :=
  ∃ t text, ColumnType.ofOid? oid = some t ∧ t.isVariable = true ∧ primary = false ∧
    v = .bytes text ∧ fitsTextHeader text = true ∧
    offset + (textEntry text).length ≤ region.length ∧ dest.length < ColumnType.offsetWidth

/-- Only texts of variable columns have an entry. -/
theorem entry_of_store_ok (h : v.store t width offset primary = .ok stored) :
    stored.entry = [] ∨ stored.width = ColumnType.offsetWidth ∧ t.isVariable = true ∧
      primary = false ∧ ∃ text, v = .bytes text ∧ fitsTextHeader text = true ∧
        stored.entry = textEntry text := by
  cases hv : v.isNull with
  | true =>
    rw [eq_null_of_isNull hv] at h
    cases t with
    | date => cases h
    | _ =>
      cases h
      exact .inl rfl
  | false =>
    rcases store_ok hv h with ⟨_, -, -, rfl⟩ | ⟨-, -, _, -, rfl⟩ | ⟨hentry, text, rfl, hfits, rfl⟩
    · exact .inl rfl
    · exact .inl rfl
    · rw [Bool.and_eq_true, Bool.not_eq_true'] at hentry
      exact .inr ⟨rfl, hentry.1, hentry.2, text, rfl, hfits, rfl⟩

/-- Nothing is stray in a column of a type that cannot be packed. -/
theorem packable_of_stray (h : v.Stray oid dest region offset primary) :
    ∃ t, ColumnType.packable? oid = some t := by
  obtain ⟨t, text, ht, hvariable, -⟩ := h
  have hencodable : t.isEncodable = true := by
    cases t <;> first | rfl | cases hvariable
  exact ⟨t, ColumnType.packable?_eq_some.2 ⟨hencodable, ColumnType.oid_of_ofOid? ht⟩⟩

/-- What is stray could be stored. -/
theorem store_of_stray (h : v.Stray t.oid dest region offset primary) (width : Nat) :
    ∃ stored, v.store t width offset primary = .ok stored := by
  obtain ⟨t', text, ht, hvariable, rfl, rfl, hfits, -⟩ := h
  rw [ColumnType.ofOid?_oid] at ht
  cases ht
  rw [store_variable hvariable, if_neg Bool.false_ne_true, storeVariable, if_pos hfits]
  exact ⟨_, rfl⟩

theorem stray_iff (h : v.store t width offset primary = .ok stored) :
    v.Stray t.oid dest region offset primary ↔ stored.entry ≠ [] ∧
      offset + stored.entry.length ≤ region.length ∧ dest.length < stored.width := by
  constructor
  · rintro ⟨t', text, ht, hvariable, rfl, rfl, hfits, hregion, hdest⟩
    rw [ColumnType.ofOid?_oid] at ht
    cases ht
    rw [store_variable hvariable, if_neg Bool.false_ne_true, storeVariable, if_pos hfits] at h
    cases h
    exact ⟨List.append_ne_nil_of_right_ne_nil _ (List.cons_ne_nil 0 []), hregion, hdest⟩
  · rintro ⟨hsome, hregion, hdest⟩
    rcases entry_of_store_ok h with hnone | ⟨hwidth, hvariable, rfl, text, rfl, hfits, hentry⟩
    · exact absurd hnone hsome
    · rw [hentry] at hregion
      rw [hwidth] at hdest
      exact ⟨t, text, ColumnType.ofOid?_oid t, hvariable, rfl, rfl, hfits, hregion, hdest⟩

/-! ## Writing -/

/-- The entry does not fit; or it is written and the slot does not fit; or both are
written. -/
theorem write_cases (oid : UInt32) (stored : Stored) (dest region : Bytes) (offset : Nat) :
    ((stored.entry ≠ [] ∧ region.length < offset + stored.entry.length) ∧
      Placed.write oid stored dest region offset =
        ⟨dest, region, .error (.bounds (.entry stored.entry.length offset region.length))⟩) ∨
    (∃ region', (stored.entry = [] ∨ offset + stored.entry.length ≤ region.length) ∧
      dest.length < stored.width ∧ Replaces region offset stored.entry region' ∧
      Placed.write oid stored dest region offset =
        ⟨dest, region', .error (.bounds (.slot oid stored.width dest.length))⟩) ∨
    ∃ dest' region', stored.width ≤ dest.length ∧ Replaces dest 0 stored.slot dest' ∧
      Replaces region offset stored.entry region' ∧
      Placed.write oid stored dest region offset =
        ⟨dest', region', .ok (stored.width, stored.entry.length)⟩ := by
  by_cases hlong : stored.entry ≠ [] ∧ region.length < offset + stored.entry.length
  · refine .inl ⟨hlong, ?_⟩
    simp only [Placed.write, Stored.checkEntry, if_pos hlong]
  have hfits : stored.entry = [] ∨ offset + stored.entry.length ≤ region.length := by
    by_cases hnone : stored.entry = []
    · exact .inl hnone
    · exact .inr (Nat.le_of_not_lt fun hlt => hlong ⟨hnone, hlt⟩)
  have hregion : Replaces region offset stored.entry
      (if stored.entry = [] then region else region.overwrite offset stored.entry) := by
    split
    next hnone =>
      rw [hnone]
      exact replaces_nil region offset
    next hsome => exact replaces_overwrite (hfits.resolve_left hsome)
  by_cases hshort : dest.length < stored.width
  · refine .inr (.inl ⟨_, hfits, hshort, hregion, ?_⟩)
    simp only [Placed.write, Stored.checkEntry, if_neg hlong, Stored.checkSlot, if_pos hshort]
  · have hdest : Replaces dest 0 stored.slot (dest.overwrite 0 stored.slot) :=
      replaces_overwrite (by rw [Nat.zero_add, Stored.length_slot]; omega)
    refine .inr (.inr ⟨_, _, Nat.le_of_not_lt hshort, hdest, hregion, ?_⟩)
    simp only [Placed.write, Stored.checkEntry, if_neg hlong, Stored.checkSlot, if_neg hshort]

/-- Where the bytes of a cell go.  Only the third case of `write_cases` gives the widths
that were taken, and in the second the entry is left. -/
theorem write_frame (oid : UInt32) (stored : Stored) (dest region : Bytes) (offset : Nat) :
    let placed := Placed.write oid stored dest region offset
    let stray := stored.entry ≠ [] ∧ offset + stored.entry.length ≤ region.length ∧
      dest.length < stored.width
    (∀ fixed used, placed.outcome = .ok (fixed, used) →
      stored.slot.length = fixed ∧ stored.entry.length = used ∧
        Replaces dest 0 stored.slot placed.dest ∧
        Replaces region offset stored.entry placed.region) ∧
    (∀ e, placed.outcome = .error e → placed.dest = dest ∧ (¬stray → placed.region = region)) ∧
    (stray → ∃ e, placed.outcome = .error e ∧
      Replaces region offset stored.entry placed.region) := by
  dsimp only
  rcases write_cases oid stored dest region offset with
    ⟨hlong, heq⟩ | ⟨region', hfits, hshort, hregion, heq⟩ |
    ⟨dest', region', hdest, hslot, hregion, heq⟩
  · rw [heq]
    exact ⟨nofun, fun _ _ => ⟨rfl, fun _ => rfl⟩,
      fun hstray => absurd hstray.2.1 (Nat.not_le_of_lt hlong.2)⟩
  · rw [heq]
    refine ⟨nofun, fun _ _ => ⟨rfl, fun hstray => ?_⟩, fun _ => ⟨_, rfl, hregion⟩⟩
    by_cases hnone : stored.entry = []
    · rw [hnone] at hregion
      exact hregion.unique (replaces_nil region offset)
    · exact absurd ⟨hnone, hfits.resolve_left hnone, hshort⟩ hstray
  · rw [heq]
    refine ⟨fun fixed used hok => ?_, nofun,
      fun hstray => absurd hdest (Nat.not_le_of_lt hstray.2.2)⟩
    cases hok
    exact ⟨stored.length_slot, rfl, hslot, hregion⟩

/-- What was written shows in the region. -/
theorem place_ok {fixed used : Nat}
    (h : (v.place t.oid dest width region offset primary).outcome = .ok (fixed, used)) :
    ∃ stored, v.store t width offset primary = .ok stored ∧ stored.entry.length = used ∧
      Replaces region offset stored.entry
        (v.place t.oid dest width region offset primary).region := by
  rw [place_oid] at h ⊢
  cases hstore : v.store t width offset primary with
  | error e =>
    rw [hstore] at h
    cases h
  | ok stored =>
    rw [hstore] at h
    obtain ⟨-, hused, -, hregion⟩ := (write_frame t.oid stored dest region offset).1 _ _ h
    exact ⟨stored, rfl, hused, hregion⟩

/-- A cell is written over the front of its destination and over its entry's part of the
region, and nowhere else.  The bytes are the same whatever stood in the buffers.  A cell
that is not written leaves both as they were, but for an entry that turns out to be
stray. -/
theorem place_replaces (v : CellValue) (oid : UInt32) (width offset : Nat) (primary : Bool) :
    ∃ slot entry : Bytes, ∀ dest region : Bytes,
      let placed := v.place oid dest width region offset primary
      (∀ fixed used, placed.outcome = .ok (fixed, used) →
        slot.length = fixed ∧ entry.length = used ∧ Replaces dest 0 slot placed.dest ∧
          Replaces region offset entry placed.region) ∧
      (∀ e, placed.outcome = .error e → placed.dest = dest ∧
        (¬v.Stray oid dest region offset primary → placed.region = region)) ∧
      (v.Stray oid dest region offset primary →
        ∃ e, placed.outcome = .error e ∧ Replaces region offset entry placed.region) := by
  cases hpackable : ColumnType.packable? oid with
  | none =>
    refine ⟨[], [], fun dest region => ?_⟩
    rw [place, hpackable]
    refine ⟨nofun, fun _ _ => ⟨rfl, fun _ => rfl⟩, fun hstray => ?_⟩
    obtain ⟨t, ht⟩ := packable_of_stray hstray
    rw [hpackable] at ht
    cases ht
  | some t =>
    obtain ⟨-, rfl⟩ := ColumnType.packable?_eq_some.1 hpackable
    cases hstore : v.store t width offset primary with
    | error e =>
      refine ⟨[], [], fun dest region => ?_⟩
      rw [place_oid, hstore]
      refine ⟨nofun, fun _ _ => ⟨rfl, fun _ => rfl⟩, fun hstray => ?_⟩
      obtain ⟨stored, hstored⟩ := store_of_stray hstray width
      rw [hstore] at hstored
      cases hstored
    | ok stored =>
      refine ⟨stored.slot, stored.entry, fun dest region => ?_⟩
      rw [place_oid, hstore, stray_iff hstore]
      exact write_frame t.oid stored dest region offset

end CellValue
end SeriesWire
