/-
Texts in cells.  Which bytes can be read as the text of a cell is said by `IsText`: they
start behind the header, have no NUL in them and are no longer than declared.  Decoding
takes the longest of them, since the others are those that it starts with
(`isText_iff`).  So a text comes back from the cell or the entry that it was written into,
as far as its first NUL, and nothing that stands behind it shows.
-/
import SeriesWire.Proofs.Cell.Frame
import SeriesWire.Proofs.Cell.Shown

namespace SeriesWire

open Bytes

/-- The length that a cell declares for its text. -/
def declaredLen (raw : Bytes) : Nat := (raw.slice 0 textHeaderLen).toNatLE

/-- `text` can be read from `raw`.  A length of zero declares nothing. -/
structure IsText (raw text : Bytes) : Prop where
  starts : text <+: raw.drop textHeaderLen
  nulFree : 0 ∉ text
  length_le : declaredLen raw ≠ 0 → text.length ≤ declaredLen raw

variable {oid : UInt32} {t : ColumnType} {raw text : Bytes}

/-! ## Reading -/

/-- A text goes on up to the first NUL. -/
theorem starts_beforeNul {bs : Bytes} (h : text <+: bs) (hnul : 0 ∉ text) :
    text <+: beforeNul bs := by
  obtain ⟨rest, rfl⟩ := h
  have hall : ∀ b ∈ text, (b != 0) = true := fun b hb =>
    bne_iff_ne.2 fun hzero => hnul (hzero ▸ hb)
  rw [beforeNul, List.takeWhile_append_of_pos hall]
  exact List.prefix_append _ _

theorem isText_iff : IsText raw text ↔ text <+: (CellSpan.ofText raw).resolve raw := by
  by_cases hshort : raw.length < textHeaderLen
  · have hbody : raw.drop textHeaderLen = [] := List.drop_eq_nil_of_le (by omega)
    rw [resolve_ofText_short hshort]
    constructor
    · intro h
      rw [← hbody]
      exact h.starts
    · intro h
      rw [List.prefix_nil.1 h]
      exact ⟨List.nil_prefix, List.not_mem_nil, fun _ => Nat.zero_le _⟩
  · rw [resolve_ofText (by omega)]
    change _ ↔ _ <+: beforeNul ((raw.drop textHeaderLen).take
      (if 0 < declaredLen raw then min (raw.drop textHeaderLen).length (declaredLen raw)
        else (raw.drop textHeaderLen).length))
    constructor
    · intro h
      refine starts_beforeNul (List.prefix_take_iff.2 ⟨h.starts, ?_⟩) h.nulFree
      have hwithin := h.starts.length_le
      split
      next hdeclared => exact Nat.le_min.2 ⟨hwithin, h.length_le (Nat.ne_of_gt hdeclared)⟩
      next => exact hwithin
    · intro h
      have htaken := List.prefix_take_iff.1 (h.trans (List.takeWhile_prefix _))
      refine ⟨htaken.1, fun hzero => zero_not_mem_beforeNul _ (h.subset hzero), fun hne => ?_⟩
      have hbound := htaken.2
      rw [if_pos (Nat.pos_of_ne_zero hne)] at hbound
      exact Nat.le_trans hbound (Nat.min_le_right _ _)

/-- What is read is a text, and no text is longer. -/
theorem resolve_ofText_longest (raw : Bytes) :
    IsText raw ((CellSpan.ofText raw).resolve raw) ∧
      ∀ other, IsText raw other → other.length ≤ ((CellSpan.ofText raw).resolve raw).length :=
  ⟨isText_iff.2 (List.prefix_refl _), fun _ h => (isText_iff.1 h).length_le⟩

theorem ofText_eq (raw : Bytes) :
    CellSpan.ofText raw =
      if raw.length < textHeaderLen then .range 0 0
      else .range textHeaderLen
        (textHeaderLen + ((CellSpan.ofText raw).resolve raw).length) := by
  by_cases hshort : raw.length < textHeaderLen
  · rw [if_pos hshort, CellSpan.ofText, if_pos hshort]
  · rw [if_neg hshort, resolve_ofText (by omega), CellSpan.ofText, if_neg hshort]

/-! ## Entries -/

namespace CellValue

/-- The entry of a text stands at its offset. -/
theorem slice_of_place {width offset fixed used : Nat} {dest region : Bytes}
    (ht : t.isVariable = true)
    (h : ((bytes text).place t.oid dest width region offset false).outcome = .ok (fixed, used)) :
    fitsTextHeader text = true ∧
      ((bytes text).place t.oid dest width region offset false).region.slice offset used =
        textEntry text := by
  obtain ⟨stored, hstore, rfl, hregion⟩ := place_ok h
  rw [store_variable ht, if_neg Bool.false_ne_true] at hstore
  obtain ⟨hfits, rfl⟩ := storeVariable_ok hstore
  exact ⟨hfits, hregion.slice_eq⟩

end CellValue

/-! ## Round trips -/

/-- A character cell is decoded to the longest text that can be read from it.  A text that
was written into a result cell of any width, or as an entry at any offset, is read up to
its first NUL, whatever comes behind it. -/
theorem decodeCell_characters (ht : ColumnType.ofOid? oid = some t) (hc : t.isCharacter = true) :
    (∀ raw, ∃ text, decodeCell oid raw = .ok text ∧ IsText raw text ∧
      (∀ other, IsText raw other → other.length ≤ text.length) ∧
      CellSpan.decode oid raw =
        .ok (if raw.length < 2 then .range 0 0 else .range 2 (2 + text.length))) ∧
    (∀ v out cell, (CellValue.bytes v).writeResult oid out = (cell, .ok ()) →
      decodeCell oid cell = .ok (beforeNul v)) ∧
    (∀ (v : Bytes) (column : ColumnType) (dest region : Bytes) (width offset fixed used : Nat),
      column.isVariable = true →
      ((CellValue.bytes v).place column.oid dest width region offset false).outcome =
        .ok (fixed, used) →
      ∀ extra, decodeCell oid
        (((CellValue.bytes v).place column.oid dest width region offset false).region.slice
          offset used ++ extra) = .ok (beforeNul v)) ∧
    ∀ v : Bytes, 0 ∉ v → beforeNul v = v := by
  have hw : t.fixedWidth? = none := by
    rw [ColumnType.isCharacter_eq] at hc
    exact Option.isNone_iff_eq_none.1 hc
  refine ⟨fun raw => ?_, fun v out cell h => ?_, fun v column dest region width offset fixed used
    hcolumn h extra => ?_, fun v hv => beforeNul_eq_self hv⟩
  · obtain ⟨htext, hlongest⟩ := resolve_ofText_longest raw
    refine ⟨_, decodeCell_character ht hw, htext, hlongest, ?_⟩
    simp only [CellSpan.decode, ht, hw]
    exact congrArg _ (ofText_eq raw)
  · rw [CellValue.writeResult] at h
    cases hresult : (CellValue.bytes v).result oid out.length with
    | error e =>
      rw [hresult] at h
      cases h
    | ok content =>
      rw [hresult] at h
      cases h
      obtain ⟨-, rfl, hfits, hroom⟩ := CellValue.result_bytes ht hresult
      exact decodeCell_text ht hw hfits hroom
  · obtain ⟨hfits, hslice⟩ := CellValue.slice_of_place hcolumn h
    rw [hslice]
    exact decodeCell_textEntry ht hw hfits extra

/-- A text with a NUL in a cell that it fills, and one in front of another entry. -/
theorem decodeCell_characters_filled :
    let cell := (CellValue.bytes [97, 0, 98]).writeResult 25 (zeros 6)
    let placed := (CellValue.bytes [97, 98]).place 1043 (zeros 8) 8 (List.replicate 7 7) 1 false
    cell = ([4, 0, 97, 0, 98, 0], .ok ()) ∧ decodeCell 25 cell.1 = .ok [97] ∧
      placed.outcome = .ok (8, 5) ∧ placed.region = [7, 3, 0, 97, 98, 0, 7] ∧
      decodeCell 25 (placed.region.drop 1) = .ok [97, 98] := by
  intro cell placed
  have hcell : cell = ([4, 0, 97, 0, 98, 0], .ok ()) := rfl
  have hplaced : placed.outcome = .ok (8, 5) := rfl
  obtain ⟨-, hresult, hentry, hwhole⟩ := @decodeCell_characters 25 .text rfl rfl
  refine ⟨hcell, hresult _ _ _ hcell, hplaced, rfl, ?_⟩
  rw [← hwhole [97, 98] (by decide)]
  exact hentry _ .varchar (zeros 8) (List.replicate 7 7) 8 1 8 5 rfl hplaced [7]

end SeriesWire
