/-
What a decoded cell is displayed as.  A cell as wide as its type is not cut, and a
text that can be read strictly is read the same way with replacement characters.
For a value that was accepted into a cell this comes to the value itself
(`displays_shown`).
-/
import SeriesWire.Cell.Render
import SeriesWire.Proofs.Cell.Shown
import SeriesWire.Proofs.Text.Utf8

namespace SeriesWire

open Bytes

/-- Where nothing is bad there is nothing to replace. -/
theorem Utf8.decodeLossy_of_decode {bs : Bytes} {s : String} (h : decode bs = .ok s) :
    decodeLossy bs = s := by
  rw [← encode_of_decode h, decodeLossy, chunks_encode, List.map_map]
  exact (congrArg String.ofList (List.map_id _)).trans String.ofList_toList

section Rendering

variable {oid : UInt32} {t : ColumnType} {cell : Bytes}

theorem renderCell_fixed (ht : ColumnType.ofOid? oid = some t)
    (hw : t.fixedWidth? = some cell.length) : renderCell oid cell = renderFixed t cell := by
  simp only [renderCell, ht, hw, Option.bind_some, Option.map_some]
  rw [if_neg (Nat.lt_irrefl _), List.take_length]

theorem renderCell_character (ht : ColumnType.ofOid? oid = some t) (hw : t.fixedWidth? = none) :
    renderCell oid cell = Utf8.decodeLossy cell := by
  simp only [renderCell, ht, hw, Option.bind_some, Option.map_none]

/-- An integer of any width. -/
theorem renderFixed_integer (ht : t ∈ [ColumnType.int2, .int4, .int8]) :
    renderFixed t cell = toString cell.toIntLE := by
  simp only [List.mem_cons, List.not_mem_nil, or_false] at ht
  rcases ht with rfl | rfl | rfl <;> rfl

end Rendering

namespace CellValue

variable {oid : UInt32} {t : ColumnType} {width : Nat} {content : Bytes}

theorem fitsInt_of_resultInt {size : Nat} {n : Int64}
    (h : resultInt t size width n = .ok content) : FitsInt size n.toInt := by
  rw [resultInt] at h
  split at h
  next hfits => exact hfits
  next => cases h

/-- A whole number that was accepted is in the range of its column. -/
theorem toIntLE_octets {n : Int64} (ht : ColumnType.ofOid? oid = some t)
    (hint : t ∈ [ColumnType.int2, .int4, .int8]) (h : (int n).result oid width = .ok content) :
    ((int n).octets t).toIntLE = n.toInt := by
  simp only [List.mem_cons, List.not_mem_nil, or_false] at hint
  rcases hint with rfl | rfl | rfl
  all_goals
    simp only [result, ht] at h
    exact toIntLE_ofIntLE (fitsInt_of_resultInt h)

/-- `display` tells the value `v` of a column of type `oid`: a whole number by its
decimal digits, a text by itself, and an instant like its Unix milliseconds. -/
structure Displays (v : CellValue) (oid : UInt32) (display : String) : Prop where
  integer : ∀ n t, v = int n → ColumnType.ofOid? oid = some t →
    t ∈ [ColumnType.int2, .int4, .int8] → display = toString n.toInt
  text : ∀ bs s t, v = bytes bs → ColumnType.ofOid? oid = some t → t.isCharacter = true →
    Utf8.decode bs = .ok s → 0 ∉ bs → display = s
  instant : ∀ micros, v = timestamp micros →
    display = renderCell oid (ofIntLE 8 (micros.toInt.fdiv 1000 + 946684800000))

/-- What was accepted is displayed. -/
theorem displays_shown {v : CellValue} (h : v.result oid width = .ok content) :
    v.Displays oid (renderCell oid (v.shown oid width)) where
  integer := by
    rintro n t rfl ht hint
    obtain ⟨-, hw, -⟩ := result_number ht rfl (fun _ hb => CellValue.noConfusion hb) h
    simp only [shown, ht]
    rw [renderCell_fixed ht hw, renderFixed_integer hint, toIntLE_octets ht hint h]
  text := by
    rintro text s t rfl ht - hs hnul
    obtain ⟨hw, -⟩ := result_bytes ht h
    simp only [shown, ht]
    rw [renderCell_character ht hw, beforeNul_eq_self hnul, Utf8.decodeLossy_of_decode hs]
  instant := by
    rintro micros rfl
    cases ht : ColumnType.ofOid? oid with
    | none =>
      -- Of a type unknown here there are no instants.
      simp only [result, ht] at h
      cases h
    | some t =>
      simp only [shown, ht]
      rw [Int.fdiv_eq_ediv_of_nonneg _ (by decide)]
      rfl

end CellValue
end SeriesWire
