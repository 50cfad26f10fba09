/-
Which layouts there are, and what they measure.  A layout is made from declared columns
exactly if they are `WellFormed`, which says it in terms of the declaration alone.  The
positions in a payload and the widths of a row come from the declared widths by sums
that are taken in several places; `Geometry` says that they agree, and that a value
never takes more of a slot than the layout has for it.
-/
import SeriesWire.Proofs.Payload.Acceptance

namespace SeriesWire

open Bytes

namespace Layout

variable {layout : Layout} {oids lens : List UInt32} {types : List ColumnType} {tagIndex : Nat}
  {primaryTags : List Nat}

/-! ## Well-formed declarations -/

/-- The least width that a tag is declared with: that of its number, of the offset of
its text, or of a text that stands in the slot. -/
def tagFloor (t : ColumnType) (primary : Bool) : Nat :=
  match t with
  | .int2 => 2
  | .int4 | .float4 => 4
  | .int8 | .float8 | .timestamp | .timestamptz | .date => 8
  | .bpchar => 1
  | .varchar | .text => if primary then 1 else 8

theorem leastWidth_eq (t : ColumnType) (primary : Bool) :
    Shape.leastWidth t primary = tagFloor t primary := by
  cases t <;> cases primary <;> rfl

/-- What a declaration of columns must be like, the tags being the columns from
`tagIndex` on.  Fields can be declared as narrow as one likes. -/
structure WellFormed (oids lens : List UInt32) (tagIndex : Nat) (primaryTags : List Nat) :
    Prop where
  length_eq : oids.length = lens.length
  tagIndex_le : tagIndex ≤ oids.length
  encodable : ∀ oid ∈ oids, ∃ t : ColumnType, t.isEncodable = true ∧ t.oid = oid
  isTag : ∀ i ∈ primaryTags, tagIndex ≤ i ∧ i < oids.length
  nodup : primaryTags.Nodup
  tagFloor_le : ∀ i t, tagIndex ≤ i → oids[i]? = some (ColumnType.oid t) →
    tagFloor t (primaryTags.contains i) ≤ (lens.getD i 0).toNat
  primaryLen_le : totalLen (primaryTags.map fun i => (lens.getD i 0).toNat) ≤ 65535

/-- Known types can be chosen for the columns one by one. -/
theorem exists_types_iff :
    (∃ types : List ColumnType, (∀ t ∈ types, t.isEncodable = true) ∧ types.map (·.oid) = oids) ↔
      ∀ oid ∈ oids, ∃ t : ColumnType, t.isEncodable = true ∧ t.oid = oid := by
  constructor
  · rintro ⟨types, hall, rfl⟩ oid hoid
    obtain ⟨t, ht, rfl⟩ := List.mem_map.1 hoid
    exact ⟨t, hall t ht, rfl⟩
  · intro h
    induction oids with
    | nil => exact ⟨[], fun t ht => absurd ht List.not_mem_nil, rfl⟩
    | cons oid oids ih =>
      obtain ⟨⟨t, ht, rfl⟩, hrest⟩ := List.forall_mem_cons.1 h
      obtain ⟨types, hall, rfl⟩ := ih hrest
      exact ⟨t :: types, List.forall_mem_cons.2 ⟨ht, hall⟩, rfl⟩

theorem fault_declared (hoids : types.map (·.oid) = oids) (hlen : oids.length = lens.length)
    (htag : tagIndex ≤ oids.length) :
    (declared types lens tagIndex primaryTags).fault? = none ↔
      (∀ i ∈ primaryTags, tagIndex ≤ i ∧ i < oids.length) ∧ primaryTags.Nodup ∧
        (∀ i t, tagIndex ≤ i → oids[i]? = some (ColumnType.oid t) →
          tagFloor t (primaryTags.contains i) ≤ (lens.getD i 0).toNat) ∧
        totalLen (primaryTags.map fun i => (lens.getD i 0).toNat) ≤ 65535 := by
  rw [Shape.fault_eq_none, tagIndex_declared hoids hlen htag, length_columns_declared hoids hlen]
  refine and_congr_right fun _ => and_congr_right fun _ => and_congr ?_ ?_
  · constructor
    · intro h i t hi hoid
      obtain ⟨hlt, hget⟩ := List.getElem?_eq_some_iff.1 hoid
      have htype : ((declared types lens tagIndex primaryTags).column i).type = t :=
        ColumnType.oid_injective ((oid_declared hoids hlen hlt).trans hget)
      have hwide := h i hi hlt
      rwa [width_declared hoids hlen, leastWidth_eq, htype] at hwide
    · intro h i hi hlt
      rw [width_declared hoids hlen, leastWidth_eq]
      refine h i _ hi ?_
      rw [List.getElem?_eq_getElem hlt, oid_declared hoids hlen hlt]
  · simp only [Shape.primaryLen, width_declared hoids hlen]
    exact Nat.lt_succ_iff

theorem isOk_ofColumns_iff :
    (∃ layout, ofColumns oids lens tagIndex primaryTags = .ok layout) ↔
      WellFormed oids lens tagIndex primaryTags := by
  constructor
  · rintro ⟨layout, h⟩
    obtain ⟨hlen, htag, types, hencodable, hoids, hfault, -⟩ := ofColumns_eq_ok.1 h
    obtain ⟨htags, hnodup, hwide, hprimary⟩ := (fault_declared hoids hlen htag).1 hfault
    exact ⟨hlen, htag, exists_types_iff.1 ⟨types, hencodable, hoids⟩, htags, hnodup, hwide,
      hprimary⟩
  · intro h
    obtain ⟨types, hencodable, hoids⟩ := exists_types_iff.2 h.encodable
    have hfault := (fault_declared hoids h.length_eq h.tagIndex_le).2
      ⟨h.isTag, h.nodup, h.tagFloor_le, h.primaryLen_le⟩
    exact ⟨⟨declared types lens tagIndex primaryTags, hfault⟩, ofColumns_eq_ok.2
      ⟨h.length_eq, h.tagIndex_le, types, hencodable, hoids, hfault, rfl⟩⟩

/-! ## Sums of widths -/

/-- The width of a row is counted over known column types, packable or not. -/
theorem rowSizeOf_map_oid (h : types.length = lens.length) :
    rowSizeOf (types.map (·.oid)) lens =
      .ok (totalLen ((List.zipWith Column.mk types lens).map (·.slotWidth))) := by
  rw [rowSizeOf]
  refine Outcome.check_eq_ok.2 ⟨?_, ?_⟩
  · rw [List.length_map]
    exact Classical.not_not.2 h
  · refine Outcome.bind_eq_ok.2 ⟨_, ?_, rfl⟩
    induction types generalizing lens with
    | nil => rfl
    | cons t types ih =>
      cases lens with
      | nil => cases h
      | cons len lens =>
        rw [List.map_cons, List.zip_cons_cons, List.mapM_cons]
        dsimp only
        rw [ColumnType.ofOid?_oid]
        refine Outcome.bind_eq_ok.2 ⟨_, rfl, ?_⟩
        exact Outcome.bind_eq_ok.2 ⟨_, ih (Nat.succ.inj h), rfl⟩

/-- Columns are declared by two lists. -/
theorem zipWith_columns (h : types.length = lens.length) :
    (List.zipWith Column.mk types lens).map (·.type) = types ∧
      (List.zipWith Column.mk types lens).map (·.storageLen) = lens := by
  induction types generalizing lens with
  | nil => exact ⟨rfl, (List.eq_nil_of_length_eq_zero h.symm).symm⟩
  | cons t types ih =>
    cases lens with
    | nil => cases h
    | cons len lens =>
      obtain ⟨htypes, hlens⟩ := ih (Nat.succ.inj h)
      exact ⟨congrArg (t :: ·) htypes, congrArg (len :: ·) hlens⟩

end Layout

/-! ## Cells -/

namespace CellValue

variable {v : CellValue} {t : ColumnType} {width offset : Nat} {primary : Bool}
  {dest region : Bytes}

/-- A missing value takes as much of its slot as any other. -/
theorem width_eq_takenWidth {stored : Stored}
    (h : v.store t width offset primary = .ok stored) :
    stored.width = takenWidth t width primary := by
  cases hv : v.isNull with
  | false => exact width_of_store hv h
  | true =>
    cases v with
    | null =>
      cases t with
      | date => cases h
      | _ =>
        cases h
        rfl
    | _ => cases hv

theorem fixed_of_place {fixed used : Nat}
    (h : (v.place t.oid dest width region offset primary).outcome = .ok (fixed, used)) :
    fixed = takenWidth t width primary := by
  rw [place_oid] at h
  cases hstore : v.store t width offset primary with
  | error e =>
    rw [hstore] at h
    cases h
  | ok stored =>
    rw [hstore] at h
    simp only [Placed.write] at h
    split at h
    · cases h
    · split at h
      · cases h
      · cases h
        exact width_eq_takenWidth hstore

/-- With that much room, a cell is written if the value can be stored and its entry
fits. -/
theorem isOk_place_iff (hdest : takenWidth t width primary ≤ dest.length) :
    (v.place t.oid dest width region offset primary).outcome.isOk = true ↔
      ∃ stored, v.store t width offset primary = .ok stored ∧
        (stored.entry = [] ∨ offset + stored.entry.length ≤ region.length) := by
  rw [place_oid]
  cases hstore : v.store t width offset primary with
  | error e =>
    constructor
    · intro h
      cases h
    · rintro ⟨_, h, -⟩
      cases h
  | ok stored =>
    have hslot : stored.checkSlot t.oid dest.length = .ok () := by
      rw [Stored.checkSlot, width_eq_takenWidth hstore]
      exact if_neg (Nat.not_lt_of_le hdest)
    by_cases hentry : stored.entry = [] ∨ offset + stored.entry.length ≤ region.length
    · have hfits : stored.checkEntry region.length offset = .ok () :=
        if_neg fun h => hentry.elim h.1 (Nat.not_le_of_lt h.2)
      simp only [Placed.write, hfits, hslot]
      exact ⟨fun _ => ⟨stored, rfl, hentry⟩, fun _ => rfl⟩
    · obtain ⟨hsome, hlong⟩ := not_or.1 hentry
      have hfits : stored.checkEntry region.length offset =
          .error (.bounds (.entry stored.entry.length offset region.length)) :=
        if_pos ⟨hsome, Nat.lt_of_not_le hlong⟩
      simp only [Placed.write, hfits]
      constructor
      · intro h
        cases h
      · rintro ⟨_, ⟨⟩, h⟩
        exact absurd h hentry

end CellValue

/-! ## Layouts -/

namespace Layout

/-- Values of column `i` are written, if at all, at a fixed width that `P` holds of. -/
def Reports (layout : Layout) (i : Nat) (primary : Bool) (P : Nat → Prop) : Prop :=
  ∀ (v : CellValue) (dest region : Bytes) (offset fixed used : Nat),
    (v.place (layout.column i).type.oid dest (layout.column i).width region offset
      primary).outcome = .ok (fixed, used) → P fixed

/-- A slot of `room` bytes is wide enough for all values of column `i`: one is written if
it can be stored and its entry fits. -/
def Suffices (layout : Layout) (i : Nat) (primary : Bool) (room : Nat) : Prop :=
  ∀ (v : CellValue) (dest region : Bytes) (offset : Nat), room ≤ dest.length →
    ((v.place (layout.column i).type.oid dest (layout.column i).width region offset
        primary).outcome.isOk = true ↔
      ∃ stored, v.store (layout.column i).type (layout.column i).width offset primary =
          .ok stored ∧
        (stored.entry = [] ∨ offset + stored.entry.length ≤ region.length))

/-- What a layout measures, in terms of the declaration that it was made from. -/
structure Geometry (layout : Layout) (oids lens : List UInt32) (tagIndex : Nat)
    (primaryTags : List Nat) : Prop where
  oids_eq : layout.columns.map (·.type.oid) = oids
  lens_eq : layout.columns.map (·.storageLen) = lens
  tagIndex_eq : layout.tagIndex = tagIndex
  primaryTags_eq : layout.primaryTags = primaryTags
  primaryLen_eq : layout.primaryLen = totalLen (primaryTags.map fun i => (lens.getD i 0).toNat)
  tagStart_eq : layout.tagStart = 49 + layout.primaryLen
  tagSectionLen_eq : layout.tagSectionLen =
    Bitmap.size (oids.length - tagIndex) + totalLen ((lens.drop tagIndex).map UInt32.toNat)
  varStart_eq : layout.varStart = layout.tagStart + layout.tagSectionLen
  varStart_eq_declared : layout.varStart = Payload.tagStart layout.primaryLen 0 +
    Payload.tagSectionLen ((lens.drop tagIndex).map UInt32.toNat)
  rowSize_eq : rowSizeOf (oids.take tagIndex) (lens.take tagIndex) = .ok layout.rowSize
  rowSize_eq_totalLen : layout.rowSize =
    totalLen ((List.range tagIndex).map fun i => (layout.column i).slotWidth)
  field : ∀ i, i < tagIndex →
    layout.Reports i false (· = (layout.column i).slotWidth) ∧
      layout.Suffices i false (layout.column i).slotWidth
  tag : ∀ i, tagIndex ≤ i → i < oids.length →
    layout.Reports i (layout.isPrimary i) (· ≤ (layout.column i).width) ∧
      layout.Suffices i (layout.isPrimary i) (layout.column i).width

variable {layout : Layout} {oids lens : List UInt32} {tagIndex : Nat} {primaryTags : List Nat}

theorem takenWidth_field (layout : Layout) (i : Nat) :
    CellValue.takenWidth (layout.column i).type (layout.column i).width false =
      (layout.column i).slotWidth := by
  rw [CellValue.takenWidth, Bool.and_false]
  rfl

theorem geometry_of_ofColumns (h : ofColumns oids lens tagIndex primaryTags = .ok layout) :
    layout.Geometry oids lens tagIndex primaryTags := by
  obtain ⟨hlen, htag, types, -, hoids, -, hshape⟩ := ofColumns_eq_ok.1 h
  have htypes : types.length = lens.length := by
    rw [← hlen, ← hoids, List.length_map]
  have hfirst : layout.tagIndex = tagIndex := by
    rw [hshape]
    exact tagIndex_declared hoids hlen htag
  have hcolumns : layout.columns = List.zipWith Column.mk types lens := by
    rw [hshape]
    exact columns_declared
  have hfields : layout.fields = (List.zipWith Column.mk types lens).take tagIndex := by
    rw [hshape]
    rfl
  have htags : layout.tags = (List.zipWith Column.mk types lens).drop tagIndex := by
    rw [hshape]
    rfl
  obtain ⟨hdeclared, hlens⟩ := zipWith_columns htypes
  have hwidths : layout.tags.map (·.width) = (lens.drop tagIndex).map UInt32.toNat := by
    have hcut : (List.zipWith Column.mk types lens).map (·.width) =
        ((List.zipWith Column.mk types lens).map (·.storageLen)).map UInt32.toNat := by
      rw [List.map_map]
      rfl
    rw [htags, List.map_drop, hcut, hlens, List.map_drop]
  constructor
  case oids_eq =>
    have hcut : (List.zipWith Column.mk types lens).map (·.type.oid) =
        ((List.zipWith Column.mk types lens).map (·.type)).map (·.oid) := by
      rw [List.map_map]
      rfl
    rw [hcolumns, hcut, hdeclared, hoids]
  case lens_eq => rw [hcolumns, hlens]
  case tagIndex_eq => exact hfirst
  case primaryTags_eq => rw [hshape]; rfl
  case primaryLen_eq =>
    rw [hshape]
    simp only [Shape.primaryLen, width_declared hoids hlen]
    rfl
  case tagStart_eq =>
    rw [Shape.tagStart, Payload.tagStart, Payload.headLen, Payload.primaryLenWidth,
      Payload.tagLenWidth]
    omega
  case tagSectionLen_eq =>
    rw [Shape.tagSectionLen, hwidths, Payload.tagSectionLen, List.length_map, List.length_drop,
      hlen]
  case varStart_eq => rfl
  case varStart_eq_declared => rw [Shape.varStart, Shape.tagStart, Shape.tagSectionLen, hwidths]
  case rowSize_eq =>
    have htaken : (types.take tagIndex).length = (lens.take tagIndex).length := by
      rw [List.length_take, List.length_take, htypes]
    rw [Shape.rowSize, hfields, ← hoids, ← List.map_take, rowSizeOf_map_oid htaken,
      List.take_zipWith]
  case rowSize_eq_totalLen =>
    rw [Shape.rowSize, Shape.fields_eq_map, List.map_map, hfirst]
    rfl
  case field =>
    intro i hi
    refine ⟨fun v dest region offset fixed used h => ?_, fun v dest region offset hdest => ?_⟩
    · rw [← takenWidth_field]
      exact CellValue.fixed_of_place h
    · rw [← takenWidth_field] at hdest
      exact CellValue.isOk_place_iff hdest
  case tag =>
    intro i hi hlt
    have hle := layout.takenWidth_le (i := i) (by omega) (by
      rw [hcolumns, length_zipWith_columns hoids hlen]
      exact hlt)
    refine ⟨fun v dest region offset fixed used h => ?_, fun v dest region offset hdest => ?_⟩
    · rw [CellValue.fixed_of_place h]
      exact hle
    · exact CellValue.isOk_place_iff (Nat.le_trans hle hdest)

/-- Layouts are made from the well-formed declarations, and what they measure is
consistent. -/
theorem ofColumns_spec (oids lens : List UInt32) (tagIndex : Nat) (primaryTags : List Nat) :
    ((∃ layout, ofColumns oids lens tagIndex primaryTags = .ok layout) ↔
      WellFormed oids lens tagIndex primaryTags) ∧
    ∀ layout, ofColumns oids lens tagIndex primaryTags = .ok layout →
      layout.Geometry oids lens tagIndex primaryTags :=
  ⟨isOk_ofColumns_iff, fun _ h => geometry_of_ofColumns h⟩

/-- Three fields and three tags, the first of which is primary. -/
theorem ofColumns_spec_station :
    ∃ layout, ofColumns [1184, 701, 1043, 1043, 23, 25] [8, 8, 64, 16, 4, 8] 3 [3] = .ok layout ∧
      WellFormed [1184, 701, 1043, 1043, 23, 25] [8, 8, 64, 16, 4, 8] 3 [3] ∧
      layout.tagStart = 65 ∧ layout.varStart = 94 ∧ layout.rowSize = 24 ∧
      layout.Reports 3 true (· ≤ 16) := by
  obtain ⟨haccepts, hgeometry⟩ :=
    ofColumns_spec [1184, 701, 1043, 1043, 23, 25] [8, 8, 64, 16, 4, 8] 3 [3]
  obtain ⟨layout, h⟩ : ∃ layout, ofColumns [1184, 701, 1043, 1043, 23, 25]
      [8, 8, 64, 16, 4, 8] 3 [3] = .ok layout := ⟨_, rfl⟩
  have hg := hgeometry layout h
  have hprimary : layout.primaryLen = 16 := hg.primaryLen_eq.trans (by decide)
  have hstart : layout.tagStart = 65 := by rw [hg.tagStart_eq, hprimary]
  have hsection : layout.tagSectionLen = 29 := hg.tagSectionLen_eq.trans (by decide)
  refine ⟨layout, h, haccepts.1 ⟨layout, h⟩, hstart, ?_, ?_, ?_⟩
  · rw [hg.varStart_eq, hstart, hsection]
  · cases h
    rfl
  · have hreports := (hg.tag 3 (by decide) (by decide)).1
    cases h
    exact hreports

end Layout
end SeriesWire
