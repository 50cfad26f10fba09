/-
Rows as parameters of a Bind.  A row is bound if each value is of a kind that its column
takes (`exists_ofCells_iff`), and an error names the first column that does not take its
value (`ofCells_error`).  The other side sees the row again, with doubles for the integers
of float columns (`cells_ofCells`).
-/
import SeriesWire.Proofs.Cell.Param
import SeriesWire.Proofs.Message.Bind

namespace SeriesWire
namespace Bind

variable {portal statement : String} {oids : List UInt32} {row : List CellValue} {b : Bind}
  {e : WireError} {dst dst' : Bytes}

/-- There is a value for each column, and each column takes its value. -/
def Takes (oids : List UInt32) (row : List CellValue) : Prop :=
  oids.length = row.length ∧
    ∀ (c : Nat) (oid : UInt32) (v : CellValue), oids[c]? = some oid → row[c]? = some v →
      v.HasParam oid

/-- Column `c` does not take its value, for the reason `e`.  The columns in front of it do. -/
def Refuses (oids : List UInt32) (row : List CellValue) (c : Nat) (e : WireError) : Prop :=
  Takes (oids.take c) (row.take c) ∧
    ∃ oid v, oids[c]? = some oid ∧ row[c]? = some v ∧ ¬v.HasParam oid ∧ v.toParam oid = .error e

/-! ## Columns -/

theorem takes_iff (hlen : oids.length = row.length) :
    Takes oids row ↔ ∀ c (hc : c < row.length), row[c].HasParam oids[c] := by
  rw [Takes, and_iff_right hlen]
  constructor
  · intro hall c hc
    exact hall c _ _ (List.getElem?_eq_getElem _) (List.getElem?_eq_getElem hc)
  · intro hall c oid v hoid hv
    obtain ⟨hc, rfl⟩ := List.getElem?_eq_some_iff.1 hv
    obtain ⟨_, rfl⟩ := List.getElem?_eq_some_iff.1 hoid
    exact hall c hc

/-- The parameters of a row. -/
def paramsOf (oids : List UInt32) (row : List CellValue) : Except WireError (List (Option Bytes)) :=
  (oids.zip row).zipIdx.mapM fun ((oid, v), c) => WireError.inCell 0 c (v.toParam oid)

theorem ofCells_eq_ok : ofCells portal statement oids row = .ok b ↔
    oids.length = row.length ∧ ∃ params, paramsOf oids row = .ok params ∧
      b = ⟨portal, statement, [binary], params, [binary]⟩ := by
  rw [ofCells, Outcome.check_eq_ok, Classical.not_not, Outcome.bind_eq_ok]
  exact and_congr_right fun _ => exists_congr fun _ => and_congr_right fun _ =>
    ⟨fun h => (Except.ok.inj h).symm, fun h => congrArg Except.ok h.symm⟩

theorem length_columns (hlen : oids.length = row.length) :
    (oids.zip row).zipIdx.length = row.length := by
  rw [List.length_zipIdx, List.length_zip, hlen, Nat.min_self]

theorem paramsOf_eq_ok {params : List (Option Bytes)} (hlen : oids.length = row.length) :
    paramsOf oids row = .ok params ↔
      ∃ h : params.length = row.length, ∀ c (hc : c < row.length),
        row[c].toParam oids[c] = .ok params[c] := by
  rw [paramsOf, Outcome.mapM_eq_ok]
  simp only [length_columns hlen, List.getElem_zipIdx, List.getElem_zip, WireError.inCell,
    Outcome.mapError_eq_ok, Nat.zero_add]

theorem exists_paramsOf_iff (hlen : oids.length = row.length) :
    (∃ params, paramsOf oids row = .ok params) ↔ Takes oids row := by
  rw [takes_iff hlen, paramsOf, Outcome.exists_mapM_eq_ok]
  simp only [length_columns hlen, List.getElem_zipIdx, List.getElem_zip, WireError.inCell,
    Outcome.mapError_eq_ok, CellValue.exists_toParam_iff]

theorem paramsOf_error (hlen : oids.length = row.length) (h : paramsOf oids row = .error e) :
    ∃ c cause, e = .cell 0 c cause ∧ Refuses oids row c cause := by
  obtain ⟨c, hc, hfound, hbefore⟩ := Outcome.mapM_first_error h
  rw [length_columns hlen] at hc
  simp only [List.getElem_zipIdx, List.getElem_zip, Nat.zero_add, WireError.inCell,
    Outcome.mapError_eq_ok, CellValue.exists_toParam_iff] at hfound hbefore
  cases hcause : row[c].toParam oids[c] with
  | ok param =>
    rw [hcause] at hfound
    cases hfound
  | error cause =>
    rw [hcause] at hfound
    cases hfound
    have htakes : Takes (oids.take c) (row.take c) := by
      refine (takes_iff (by rw [List.length_take, List.length_take, hlen])).2 fun j hj => ?_
      rw [List.getElem_take, List.getElem_take]
      exact hbefore j (Nat.lt_of_lt_of_le hj (List.length_take_le c row))
    have hrefused : ¬row[c].HasParam oids[c] := by
      rw [← CellValue.exists_toParam_iff, hcause]
      exact fun ⟨_, hparam⟩ => nomatch hparam
    exact ⟨c, cause, rfl, htakes, oids[c], row[c], List.getElem?_eq_getElem _,
      List.getElem?_eq_getElem hc, hrefused, hcause⟩

/-! ## Rows -/

theorem exists_ofCells_iff :
    (∃ b, ofCells portal statement oids row = .ok b) ↔ Takes oids row := by
  simp only [ofCells_eq_ok, exists_and_left]
  constructor
  · rintro ⟨hlen, b, params, hparams, -⟩
    exact (exists_paramsOf_iff hlen).1 ⟨params, hparams⟩
  · intro htakes
    obtain ⟨params, hparams⟩ := (exists_paramsOf_iff htakes.1).2 htakes
    exact ⟨htakes.1, _, params, hparams, rfl⟩

theorem ofCells_error (h : ofCells portal statement oids row = .error e) :
    oids.length ≠ row.length ∧ e = .malformed (.bind (.valueCount row.length oids.length)) ∨
      oids.length = row.length ∧ ∃ c cause, e = .cell 0 c cause ∧ Refuses oids row c cause := by
  by_cases hlen : oids.length = row.length
  · rw [ofCells, if_neg (Classical.not_not.2 hlen)] at h
    change (paramsOf oids row >>= _) = _ at h
    cases hparams : paramsOf oids row with
    | ok params =>
      rw [hparams] at h
      cases h
    | error e' =>
      rw [hparams] at h
      cases h
      exact .inr ⟨hlen, paramsOf_error hlen hparams⟩
  · rw [ofCells, if_pos hlen] at h
    cases h
    exact .inl ⟨hlen, rfl⟩

/-- The parameters of a row are read as the row. -/
theorem cells_ofCells (h : ofCells portal statement oids row = .ok b) :
    b.cells oids = .ok (List.zipWith CellValue.received row oids) := by
  obtain ⟨hlen, params, hparams, rfl⟩ := ofCells_eq_ok.1 h
  obtain ⟨hcount, hparam⟩ := (paramsOf_eq_ok hlen).1 hparams
  rw [cells, Outcome.check_eq_ok, Classical.not_not, Outcome.mapM_eq_ok]
  refine ⟨hlen.trans hcount.symm, ?_, fun c hc => ?_⟩
  · rw [List.length_zipWith, List.length_zip, hlen, hcount]
  · rw [List.getElem_zip, List.getElem_zipWith]
    exact CellValue.ofParam_toParam (hparam c _)

theorem decode_encode (h : b.encode dst = .ok () dst') :
    decode (dst'.drop (dst.length + Frame.headLen)) = .ok b :=
  whole_read.run_eq_ok_iff.2 ⟨trivial, (send_ok_parts h).2⟩

/-- A row of values that its columns take comes through a Bind, each integer of a float
column as the nearest double.  The columns take nothing else, and name the first value
that they do not.  In the other direction a parameter comes through as it was. -/
theorem ofCells_row (portal statement : String) (oids : List UInt32) (row : List CellValue) :
    ((∃ b, ofCells portal statement oids row = .ok b) ↔ Takes oids row) ∧
      (∀ e, ofCells portal statement oids row = .error e →
        oids.length ≠ row.length ∧ e = .malformed (.bind (.valueCount row.length oids.length)) ∨
          oids.length = row.length ∧
            ∃ c cause, e = .cell 0 c cause ∧ Refuses oids row c cause) ∧
      (∀ b dst dst', ofCells portal statement oids row = .ok b → b.encode dst = .ok () dst' →
        decode (dst'.drop (dst.length + Frame.headLen)) = .ok b ∧
          b.cells oids = .ok (List.zipWith CellValue.received row oids)) ∧
      (∀ n oid x, (CellValue.int n).received oid = .float x → x.Nearest n.toInt) ∧
      ∀ oid param v, CellValue.ofParam oid param = .ok v → v.toParam oid = .ok param :=
  ⟨exists_ofCells_iff, fun _ => ofCells_error,
    fun _ _ _ h hsent => ⟨decode_encode hsent, cells_ofCells h⟩,
    fun _ _ _ => CellValue.nearest_received, fun _ _ _ => CellValue.toParam_ofParam⟩

/-- An integer in a float column beside an empty text, a missing value and an instant
before the epoch.  A text among integers.  A NaN with a payload. -/
theorem ofCells_row_mixed :
    (∃ b, ofCells "" "s" [701, 25, 23, 1114] [.int 3, .bytes [], .null, .timestamp (-1)] = .ok b ∧
      decode [0, 115, 0, 0, 1, 0, 1, 0, 4, 0, 0, 0, 8, 64, 8, 0, 0, 0, 0, 0, 0, 0, 0, 0, 0, 255,
        255, 255, 255, 0, 0, 0, 8, 255, 255, 255, 255, 255, 255, 255, 255, 0, 1, 0, 1] = .ok b ∧
      b.cells [701, 25, 23, 1114] =
        .ok [.float ⟨4613937818241073152⟩, .bytes [], .null, .timestamp (-1)]) ∧
      Refuses [20, 23, 23] [.int 1, .bytes [7], .null] 1 ((CellValue.bytes [7]).mismatch 23) ∧
      (CellValue.float ⟨9218868437227405313⟩).toParam 701 =
        .ok (some [127, 240, 0, 0, 0, 0, 0, 1]) := by
  have hbound : ofCells "" "s" [701, 25, 23, 1114] [.int 3, .bytes [], .null, .timestamp (-1)] =
      .ok ⟨"", "s", [1], [some [64, 8, 0, 0, 0, 0, 0, 0], some [], none,
        some [255, 255, 255, 255, 255, 255, 255, 255]], [1]⟩ := by decide +kernel
  have hsent : encode ⟨"", "s", [1], [some [64, 8, 0, 0, 0, 0, 0, 0], some [], none,
      some [255, 255, 255, 255, 255, 255, 255, 255]], [1]⟩ [] =
      .ok () [66, 0, 0, 0, 49, 0, 115, 0, 0, 1, 0, 1, 0, 4, 0, 0, 0, 8, 64, 8, 0, 0, 0, 0, 0, 0, 0,
        0, 0, 0, 255, 255, 255, 255, 0, 0, 0, 8, 255, 255, 255, 255, 255, 255, 255, 255, 0, 1, 0,
        1] := rfl
  obtain ⟨hread, hcells⟩ := (ofCells_row _ _ _ _).2.2.1 _ _ _ hbound hsent
  refine ⟨⟨_, hbound, hread, hcells⟩, ?_, (ofCells_row "" "" [] []).2.2.2.2 _ _ _ rfl⟩
  rcases (ofCells_row "" "s" [20, 23, 23] [.int 1, .bytes [7], .null]).2.1 _ rfl with
    ⟨hlen, -⟩ | ⟨-, c, cause, herror, hrefuses⟩
  · exact absurd rfl hlen
  · cases herror
    exact hrefuses

end Bind
end SeriesWire
