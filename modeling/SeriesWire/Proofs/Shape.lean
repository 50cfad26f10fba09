/-
Shapes and their faults.  Columns go by their numbers, fields first.  `fault_eq_none`
says when there is nothing wrong with a shape, and `ofColumns_eq_ok` which declarations
of columns make a layout.
-/
import Mathlib.Data.List.GetD
import SeriesWire.Layout
import SeriesWire.Proofs.Outcomes

namespace SeriesWire

open Bytes

/-! ## Columns -/

namespace Shape

theorem length_columns (s : Shape) : s.columns.length = s.tagIndex + s.tags.length := by
  rw [Shape.columns, List.length_append]
  rfl

theorem length_sub_tagIndex (s : Shape) :
    s.columns.length - s.tagIndex = s.tags.length := by
  rw [Shape.length_columns, Nat.add_sub_cancel_left]

/-- Fields are columns. -/
theorem lt_length_columns {s : Shape} {i : Nat} (hi : i < s.tagIndex) :
    i < s.columns.length := by
  rw [Shape.length_columns]
  exact Nat.lt_add_right _ hi

theorem column_tag {s : Shape} {k : Nat} (hk : k < s.tags.length) :
    s.column (s.tagIndex + k) = s.tags[k] := by
  have hlt : s.tagIndex + k < s.columns.length := by
    rw [Shape.columns, List.length_append, Shape.tagIndex]
    omega
  rw [Shape.column, List.getD_eq_getElem _ _ hlt]
  simp only [Shape.columns, Shape.tagIndex]
  rw [List.getElem_append_right (Nat.le_add_right _ _)]
  congr 1
  omega

theorem column_field {s : Shape} {k : Nat} (hk : k < s.fields.length) :
    s.column k = s.fields[k] := by
  have hlt : k < s.columns.length := by
    rw [Shape.columns, List.length_append]
    omega
  rw [Shape.column, List.getD_eq_getElem _ _ hlt]
  simp only [Shape.columns]
  rw [List.getElem_append_left hk]

theorem sub_tagIndex_lt {s : Shape} {i : Nat} (htag : s.tagIndex ≤ i)
    (hi : i < s.columns.length) : i - s.tagIndex < s.tags.length := by
  rw [Shape.columns, List.length_append] at hi
  rw [Shape.tagIndex] at htag ⊢
  omega

theorem mem_numberedTags {s : Shape} {i : Nat} (htag : s.tagIndex ≤ i)
    (hi : i < s.columns.length) : (s.column i, i) ∈ s.numberedTags := by
  have hlt := Shape.sub_tagIndex_lt htag hi
  have hcolumn := Shape.column_tag hlt
  rw [Nat.add_sub_cancel' htag] at hcolumn
  rw [Shape.numberedTags, List.mk_mem_zipIdx_iff_le_and_getElem?_sub, hcolumn]
  exact ⟨htag, List.getElem?_eq_getElem hlt⟩

theorem tagSectionLen_eq (s : Shape) :
    s.tagSectionLen = Bitmap.size s.tags.length + totalLen (s.tags.map (·.width)) := by
  rw [Shape.tagSectionLen, Payload.tagSectionLen, List.length_map]

/-- The fields are the first columns. -/
theorem fields_eq_map (s : Shape) : s.fields = (List.range s.tagIndex).map s.column := by
  apply List.ext_getElem
  · rw [List.length_map, List.length_range, Shape.tagIndex]
  · intro i hi _
    rw [List.getElem_map, List.getElem_range, Shape.column_field hi]

/-! ## Faults -/

variable {s : Shape}

/-- The primary tags are walked over with those in `seen` behind. -/
theorem primaryFault_eq_none {seen numbers : List Nat} :
    s.primaryFault? seen numbers = none ↔
      (∀ i ∈ numbers, (s.tagIndex ≤ i ∧ i < s.columns.length) ∧ i ∉ seen) ∧ numbers.Nodup := by
  induction numbers generalizing seen with
  | nil => exact ⟨fun _ => ⟨fun i hi => absurd hi List.not_mem_nil, .nil⟩, fun _ => rfl⟩
  | cons i rest ih =>
    rw [primaryFault?, List.forall_mem_cons, List.nodup_cons]
    split
    next hrange =>
      constructor
      · intro h
        cases h
      · rintro ⟨⟨⟨hi, -⟩, -⟩, -⟩
        omega
    next hrange =>
      split
      next hseen =>
        constructor
        · intro h
          cases h
        · rintro ⟨⟨⟨-, hi⟩, -⟩, -⟩
          exact absurd hseen hi
      next hseen =>
        rw [ih]
        constructor
        · rintro ⟨hrest, hnodup⟩
          refine ⟨⟨⟨by omega, hseen⟩, fun j hj => ?_⟩, fun hi => ?_, hnodup⟩
          · obtain ⟨hj, hnot⟩ := hrest j hj
            exact ⟨hj, fun h => hnot (List.mem_cons_of_mem _ h)⟩
          · exact (hrest i hi).2 List.mem_cons_self
        · rintro ⟨⟨-, hrest⟩, hi, hnodup⟩
          refine ⟨fun j hj => ?_, hnodup⟩
          obtain ⟨hrange, hnot⟩ := hrest j hj
          refine ⟨hrange, fun h => ?_⟩
          rcases List.mem_cons.1 h with rfl | h
          · exact hi hj
          · exact hnot h

theorem narrowFault_eq_none :
    s.narrowFault? = none ↔ ∀ i, s.tagIndex ≤ i → i < s.columns.length →
      leastWidth (s.column i).type (s.isPrimary i) ≤ (s.column i).width := by
  rw [narrowFault?, List.findSome?_eq_none_iff]
  constructor
  · intro h i htag hi
    have hcolumn := h _ (mem_numberedTags htag hi)
    simpa using hcolumn
  · rintro h ⟨c, i⟩ hc
    obtain ⟨htag, hc⟩ := List.mk_mem_zipIdx_iff_le_and_getElem?_sub.1 hc
    obtain ⟨hlt, rfl⟩ := List.getElem?_eq_some_iff.1 hc
    have hi : i < s.columns.length := by
      rw [length_columns]
      omega
    have hcolumn := column_tag hlt
    rw [Nat.add_sub_cancel' htag] at hcolumn
    rw [← hcolumn]
    exact if_neg (Nat.not_lt_of_le (h i htag hi))

theorem primaryWidthFault_eq_none : s.primaryWidthFault? = none ↔ s.primaryLen < space 2 := by
  rw [primaryWidthFault?]
  split
  next h => exact ⟨fun _ => h, fun _ => rfl⟩
  next h => exact ⟨nofun, fun h' => absurd h' h⟩

/-- All that a layout promises about its columns. -/
theorem fault_eq_none :
    s.fault? = none ↔ (∀ i ∈ s.primaryTags, s.tagIndex ≤ i ∧ i < s.columns.length) ∧
      s.primaryTags.Nodup ∧
      (∀ i, s.tagIndex ≤ i → i < s.columns.length →
        leastWidth (s.column i).type (s.isPrimary i) ≤ (s.column i).width) ∧
      s.primaryLen < space 2 := by
  simp only [fault?, Option.orElse_eq_orElse, Option.orElse_eq_or, Option.or_eq_none_iff]
  rw [primaryFault_eq_none, narrowFault_eq_none, primaryWidthFault_eq_none, and_assoc]
  simp only [List.not_mem_nil, not_false_eq_true, and_true]

end Shape

namespace ColumnType

theorem oid_injective {t t' : ColumnType} (h : t.oid = t'.oid) : t = t' := by
  have ht := ofOid?_oid t
  rw [h, ofOid?_oid] at ht
  exact (Option.some.inj ht).symm

theorem packable?_eq_some {n : UInt32} {t : ColumnType} :
    packable? n = some t ↔ t.isEncodable = true ∧ t.oid = n := by
  rw [packable?, Option.filter_eq_some_iff, and_comm]
  refine and_congr_right fun _ => ⟨oid_of_ofOid?, ?_⟩
  rintro rfl
  exact ofOid?_oid t

end ColumnType

namespace Layout

variable {layout : Layout} {oids lens : List UInt32} {types : List ColumnType} {tagIndex : Nat}
  {primaryTags : List Nat}

/-! ## Declarations -/

/-- The shape of columns of known types. -/
def declared (types : List ColumnType) (lens : List UInt32) (tagIndex : Nat)
    (primaryTags : List Nat) : Shape :=
  { fields := (List.zipWith Column.mk types lens).take tagIndex
    tags := (List.zipWith Column.mk types lens).drop tagIndex
    primaryTags }

theorem ofShape_eq_ok {s : Shape} :
    ofShape s = .ok layout ↔ s.fault? = none ∧ layout.toShape = s := by
  rw [ofShape]
  split
  next fault hfault =>
    rw [hfault]
    constructor
    · intro h
      cases h
    · rintro ⟨h, -⟩
      cases h
  next hfault =>
    constructor
    · rintro ⟨⟩
      exact ⟨hfault, rfl⟩
    · rintro ⟨-, rfl⟩
      rfl

theorem packableTypes_eq_ok :
    packableTypes oids = .ok types ↔
      (∀ t ∈ types, t.isEncodable = true) ∧ types.map (·.oid) = oids := by
  induction oids generalizing types with
  | nil =>
    rw [List.map_eq_nil_iff]
    constructor
    · rintro ⟨⟩
      exact ⟨fun t ht => absurd ht List.not_mem_nil, rfl⟩
    · rintro ⟨-, rfl⟩
      rfl
  | cons oid oids ih =>
    rw [packableTypes, List.mapM_cons, Outcome.bind_eq_ok]
    constructor
    · rintro ⟨t, ht, hbehind⟩
      obtain ⟨rest, hrest, hall⟩ := Outcome.bind_eq_ok.1 hbehind
      cases hall
      obtain ⟨hall, hoids⟩ := ih.1 hrest
      split at ht
      next found hfound =>
        cases ht
        obtain ⟨hencodable, hoid⟩ := ColumnType.packable?_eq_some.1 hfound
        exact ⟨List.forall_mem_cons.2 ⟨hencodable, hall⟩, by rw [List.map_cons, hoid, hoids]⟩
      next => cases ht
    · rintro ⟨hall, hoids⟩
      cases types with
      | nil => cases hoids
      | cons t rest =>
        obtain ⟨hoid, hrest⟩ := List.cons.inj hoids
        obtain ⟨hencodable, hall⟩ := List.forall_mem_cons.1 hall
        rw [ColumnType.packable?_eq_some.2 ⟨hencodable, hoid⟩]
        exact ⟨t, rfl, Outcome.bind_eq_ok.2 ⟨rest, ih.2 ⟨hall, hrest⟩, rfl⟩⟩

/-- A layout is the shape that was declared, and without faults. -/
theorem ofColumns_eq_ok :
    ofColumns oids lens tagIndex primaryTags = .ok layout ↔
      oids.length = lens.length ∧ tagIndex ≤ oids.length ∧
        ∃ types, (∀ t ∈ types, t.isEncodable = true) ∧ types.map (·.oid) = oids ∧
          (declared types lens tagIndex primaryTags).fault? = none ∧
          layout.toShape = declared types lens tagIndex primaryTags := by
  rw [ofColumns]
  refine Outcome.check_eq_ok.trans (and_congr Classical.not_not (Outcome.check_eq_ok.trans
    (and_congr Nat.not_lt (Outcome.bind_eq_ok.trans (exists_congr fun types => ?_)))))
  rw [packableTypes_eq_ok, and_assoc]
  exact and_congr_right fun _ => and_congr_right fun _ => ofShape_eq_ok

section Declared

variable (hoids : types.map (·.oid) = oids) (hlen : oids.length = lens.length)
  (htag : tagIndex ≤ oids.length)

theorem columns_declared :
    (declared types lens tagIndex primaryTags).columns = List.zipWith Column.mk types lens :=
  List.take_append_drop _ _

include hoids hlen

theorem length_zipWith_columns : (List.zipWith Column.mk types lens).length = oids.length := by
  have htypes := congrArg List.length hoids
  rw [List.length_map] at htypes
  rw [List.length_zipWith, htypes, hlen, Nat.min_self]

theorem length_columns_declared :
    (declared types lens tagIndex primaryTags).columns.length = oids.length := by
  rw [columns_declared, length_zipWith_columns hoids hlen]

theorem width_declared (i : Nat) :
    ((declared types lens tagIndex primaryTags).column i).width = (lens.getD i 0).toNat := by
  have hcolumns := length_zipWith_columns hoids hlen
  rw [Shape.column, columns_declared]
  by_cases hi : i < oids.length
  · rw [List.getD_eq_getElem _ _ (by omega), List.getD_eq_getElem _ _ (by omega),
      List.getElem_zipWith]
    rfl
  · rw [List.getD_eq_default _ _ (by omega), List.getD_eq_default _ _ (by omega)]
    rfl

theorem oid_declared {i : Nat} (hi : i < oids.length) :
    ((declared types lens tagIndex primaryTags).column i).type.oid = oids[i] := by
  have hcolumns := length_zipWith_columns hoids hlen
  subst hoids
  rw [Shape.column, columns_declared, List.getD_eq_getElem _ _ (by omega), List.getElem_zipWith,
    List.getElem_map]

include htag

theorem tagIndex_declared : (declared types lens tagIndex primaryTags).tagIndex = tagIndex := by
  have hcolumns := length_zipWith_columns hoids hlen
  rw [Shape.tagIndex, declared, List.length_take]
  omega

end Declared

end Layout
end SeriesWire
