/-
Columns too narrow for their type.  A builder looks at the width of a column only
where it writes a value, so that it takes such a column as long as every value in
it is missing (`Carries.null_of_narrow`).  A decoder looks at every cell and
refuses the batch.  What a builder puts out is therefore decoded exactly if no
column is too narrow.
-/
import SeriesWire.Proofs.Batch.Builder

namespace SeriesWire

open Bytes

/-- A number that has been written fits, and a type that can be too narrow takes
no text. -/
theorem CellValue.null_of_narrow {v : CellValue} {oid : UInt32} {width : Nat} {content : Bytes}
    (hnarrow : Narrow oid width) (h : v.result oid width = .ok content) : v = .null := by
  obtain ⟨t, natural, ht, hnatural, hlt⟩ := hnarrow
  cases v with
  | null => rfl
  | bytes text =>
    obtain ⟨hvariable, -⟩ := result_bytes ht h
    rw [hnatural] at hvariable
    cases hvariable
  | int _ | float _ | timestamp _ =>
    obtain ⟨-, hwidth, hfits⟩ := result_number ht rfl (fun _ hb => CellValue.noConfusion hb) h
    rw [hnatural] at hwidth
    cases hwidth
    omega

namespace BatchBuilder

variable {b : BatchBuilder} {rows : List (List CellValue)} {batch : RowBatch}
  {columns : List (ColumnBlock × Bytes)}

theorem Carries.null_of_narrow (h : b.Carries rows batch columns) (hb : b.Sound) {c : Nat}
    (hc : c < b.oids.length)
    (hnarrow : Narrow (b.oids.getD c 0) (b.storageLens.getD c 0).toNat) :
    ∀ row ∈ rows, row[c]? = some .null := by
  intro row hrow
  have hwithin : c < row.length := by rwa [h.arity row hrow]
  obtain ⟨r, hr, rfl⟩ := List.getElem_of_mem hrow
  obtain ⟨content, hresult, -⟩ := h.cell hb hr hc
  have hnull := CellValue.null_of_narrow hnarrow hresult
  rw [List.getD_eq_getElem _ _ hwithin] at hnull
  rw [List.getElem?_eq_getElem hwithin, hnull]

/-- A decoder takes what a builder puts out uncompressed exactly if every column
is as wide as its type.  A column that is not holds missing values only, and the
first one is what the decoder reports. -/
theorem decode_plain_iff {oids lens : List UInt32} {made : BatchBuilder} {body : Bytes}
    (hmake : make oids lens = .ok made)
    (hbody : BatchBuilder.body { made with compression := .plain } rows = .ok body) :
    ((∃ g, RowGrid.decode oids body = .ok g) ↔
      ∀ c < oids.length, ¬Narrow (oids.getD c 0) (lens.getD c 0).toNat) ∧
    ∀ c < oids.length, Narrow (oids.getD c 0) (lens.getD c 0).toNat →
      (∀ row ∈ rows, row[c]? = some .null) ∧
      ((∀ c' < c, ¬Narrow (oids.getD c' 0) (lens.getD c' 0).toNat) →
        ∃ cause, RowGrid.decode oids body = .error (.cell 0 c (.malformed cause))) := by
  obtain ⟨hmade, rfl, rfl⟩ := make_ok hmake
  have hsound : Sound { made with compression := .plain } :=
    ⟨hmade.lens, hmade.count, hmade.nonzero⟩
  obtain ⟨batch, hbatch, hfields⟩ := body_ok hbody
  obtain ⟨columns, hcarries⟩ := batch_ok hbatch
  refine ⟨⟨?_, ?_⟩, ?_⟩
  · rintro ⟨g, hg⟩ c hc hnarrow
    obtain ⟨_, cause, -, -, -, herror⟩ := hcarries.refused hsound hfields ⟨c, hc, hnarrow⟩ nofun
    rw [hg] at herror
    cases herror
  · intro hwide
    obtain ⟨g, hg, -⟩ := hcarries.shows hsound hfields hwide nofun
    exact ⟨g, hg⟩
  · intro c hc hnarrow
    refine ⟨hcarries.null_of_narrow hsound hc hnarrow, fun hfirst => ?_⟩
    obtain ⟨first, cause, -, hfound, hbefore, herror⟩ :=
      hcarries.refused hsound hfields ⟨c, hc, hnarrow⟩ nofun
    -- both are the first column that is too narrow
    obtain rfl : first = c := by
      rcases Nat.lt_trichotomy first c with hlt | heq | hgt
      · exact absurd hfound (hfirst first hlt)
      · exact heq
      · exact absurd hnarrow (hbefore c hgt)
    exact ⟨cause, herror⟩

/-- A text column, and a column of numbers that has no room for any. -/
theorem decode_plain_nulls :
    ∃ made body cause, make [1043, 21] [8, 1] = .ok made ∧
      BatchBuilder.body { made with compression := .plain }
        [[.bytes [97], .null], [.null, .null]] = .ok body ∧
      RowGrid.decode [1043, 21] body = .error (.cell 0 1 (.malformed cause)) := by
  have hmake : make [1043, 21] [8, 1] =
      .ok { oids := [1043, 21], storageLens := [8, 1], compression := configured {} } := rfl
  obtain ⟨body, hbody⟩ : ∃ body, BatchBuilder.body
      { oids := [1043, 21], storageLens := [8, 1], compression := .plain }
      [[.bytes [97], .null], [.null, .null]] = .ok body :=
    Outcome.exists_of_isOk (by decide)
  obtain ⟨-, hnarrow⟩ := decode_plain_iff hmake hbody
  obtain ⟨-, hrefused⟩ := hnarrow 1 (by decide) (by decide)
  obtain ⟨cause, hcause⟩ := hrefused (by decide)
  exact ⟨_, body, cause, hmake, hbody, hcause⟩

/-- One missing value in a column of numbers half as wide as they are. -/
theorem missing_undecodable :
    ∃ made body, make [23] [2] = .ok made ∧
      BatchBuilder.body { made with compression := .plain } [[.null]] = .ok body ∧
      RowGrid.decode [23] body =
        .error (.cell 0 0 (.malformed (.batch (.shortCell .int4 2 4)))) := by
  exact ⟨{ oids := [23], storageLens := [2], compression := configured {} },
    [0, 0, 0, 1, 0, 1, 0, 0, 0, 2, 0, 0, 0, 2, 0, 0, 0, 0, 0, 0, 0, 1, 0, 2, 0, 0], rfl, rfl, rfl⟩

end BatchBuilder
end SeriesWire
