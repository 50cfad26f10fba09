/-
Batches from rows to the screen.  A builder lays the cells of a column side by side, a
decoder cuts them apart again, and every cell is displayed as the value that stands
in its place in the rows.
-/
import SeriesWire.Proofs.Batch.Builder
import SeriesWire.Proofs.Cell.Display

namespace SeriesWire

open Bytes

namespace BatchBuilder

variable {b : BatchBuilder} {rows : List (List CellValue)} {batch : RowBatch}
  {columns : List (ColumnBlock × Bytes)} {body : Bytes}

/-- Each cell of a decoded grid shows a value that was accepted in its place. -/
theorem Carries.exists_shown (h : b.Carries rows batch columns) (hb : b.Sound)
    (hwide : ∀ c < b.oids.length, ¬Narrow (b.oids.getD c 0) (b.storageLens.getD c 0).toNat)
    {g : RowGrid} (hshows : g.Shows b.oids rows.length b.oids.length fun r c =>
      (batch.columns.getD c default).rawCell (columns.map (·.2)).flatten r)
    {r c : Nat} {row : List CellValue} {oid : UInt32} (hrow : rows[r]? = some row)
    (hoid : b.oids[c]? = some oid) :
    ∃ v width content, row[c]? = some v ∧ v.result oid width = .ok content ∧
      g.get? r c = some (v.shown oid width) := by
  obtain ⟨hr, rfl⟩ := List.getElem?_eq_some_iff.1 hrow
  obtain ⟨hc, rfl⟩ := List.getElem?_eq_some_iff.1 hoid
  have harity : c < rows[r].length := by rwa [h.arity _ (List.getElem_mem hr)]
  obtain ⟨raw, hraw, hfound⟩ := hshows.inside r c hr hc
  obtain ⟨content, hresult, -, hcell⟩ := h.cell hb hr hc
  have hnarrow := hwide c hc
  rw [List.getD_eq_getElem _ _ hc] at hraw hresult hnarrow
  rw [List.getD_eq_getElem _ _ harity] at hresult
  rw [hcell, CellValue.decodeCell_result hnarrow hresult] at hraw
  refine ⟨rows[r][c], _, content, List.getElem?_eq_getElem harity, hresult, ?_⟩
  rw [hfound, ← Except.ok.inj hraw]

/-- Whatever rows a builder takes into an uncompressed batch, a decoder of the same types
makes a grid of it in which each cell is displayed as the value in its place. -/
theorem displays_built {oids lens : List UInt32} {made : BatchBuilder}
    (hmake : make oids lens = .ok made)
    (hwide : ∀ c < oids.length, ¬Narrow (oids.getD c 0) (lens.getD c 0).toNat)
    (hbody : BatchBuilder.body { made with compression := .plain } rows = .ok body) :
    ∃ g, RowGrid.decode oids body = .ok g ∧ g.rows = rows.length ∧ g.cols = oids.length ∧
      ∀ r row, rows[r]? = some row → row.length = oids.length ∧
        ∀ c oid, oids[c]? = some oid → ∃ v cell, row[c]? = some v ∧ g.get? r c = some cell ∧
          v.Displays oid (renderCell oid cell) := by
  obtain ⟨hmade, rfl, rfl⟩ := make_ok hmake
  have hsound : Sound { made with compression := .plain } :=
    ⟨hmade.lens, hmade.count, hmade.nonzero⟩
  obtain ⟨batch, hbatch, hfields⟩ := body_ok hbody
  obtain ⟨columns, hcarries⟩ := batch_ok hbatch
  obtain ⟨g, hg, hshows⟩ := hcarries.shows hsound hfields hwide nofun
  refine ⟨g, hg, hshows.rows, hshows.cols, fun r row hrow => ⟨?_, fun c oid hoid => ?_⟩⟩
  · exact hcarries.arity row (List.mem_of_getElem? hrow)
  · obtain ⟨v, width, content, hv, hresult, hfound⟩ :=
      hcarries.exists_shown hsound hwide hshows hrow hoid
    exact ⟨v, _, hv, hfound, CellValue.displays_shown hresult⟩

/-- Columns wider than their types, with the least number of 64 bits, a text and the last
microsecond before the database epoch in the second row. -/
def logRows : List (List CellValue) :=
  [[.null, .null, .null],
    [.int Int64.minValue, .bytes [110, 195, 169], .timestamp (-1)]]

theorem displays_logRows :
    ∃ made body g, make [20, 1043, 1114] [10, 8, 9] = .ok made ∧
      BatchBuilder.body { made with compression := .plain } logRows = .ok body ∧
      RowGrid.decode [20, 1043, 1114] body = .ok g ∧ g.rows = 2 ∧ g.cols = 3 ∧
      (∃ cell, g.get? 1 0 = some cell ∧ renderCell 20 cell = "-9223372036854775808") ∧
      (∃ cell, g.get? 1 1 = some cell ∧ renderCell 1043 cell = "né") ∧
      ∃ cell, g.get? 1 2 = some cell ∧
        renderCell 1114 cell = renderCell 1114 (ofIntLE 8 946684799999) := by
  have hmake : make [20, 1043, 1114] [10, 8, 9] = .ok
      { oids := [20, 1043, 1114], storageLens := [10, 8, 9], compression := configured {} } := rfl
  have hwide : ∀ c < 3, ¬Narrow (([20, 1043, 1114] : List UInt32).getD c 0)
      (([10, 8, 9] : List UInt32).getD c 0).toNat := by decide
  obtain ⟨body, hbody⟩ : ∃ body, BatchBuilder.body
      { oids := [20, 1043, 1114], storageLens := [10, 8, 9], compression := .plain } logRows =
        .ok body :=
    Outcome.exists_of_isOk (by decide)
  obtain ⟨g, hg, hrows, hcols, hcells⟩ := displays_built hmake hwide hbody
  obtain ⟨-, hrow⟩ := hcells 1 _ rfl
  refine ⟨_, body, g, hmake, hbody, hg, hrows, hcols, ?_, ?_, ?_⟩
  · obtain ⟨v, cell, hv, hcell, hdisplay⟩ := hrow 0 20 rfl
    cases hv
    exact ⟨cell, hcell, hdisplay.integer _ .int8 rfl (by decide) (by decide)⟩
  · obtain ⟨v, cell, hv, hcell, hdisplay⟩ := hrow 1 1043 rfl
    cases hv
    exact ⟨cell, hcell, hdisplay.text _ _ .varchar rfl (by decide) rfl rfl (by decide)⟩
  · obtain ⟨v, cell, hv, hcell, hdisplay⟩ := hrow 2 1114 rfl
    cases hv
    have hfloor : (-1 : Int64).toInt.fdiv 1000 + 946684800000 = 946684799999 := by decide
    have hinstant := hdisplay.instant _ rfl
    rw [hfloor] at hinstant
    exact ⟨cell, hcell, hinstant⟩

end BatchBuilder
end SeriesWire
