/-
Grids and the blocks they are decoded from.  A cell can only fail to be decoded
when its column is too narrow for its type, so a column is decoded as a whole or
fails at its first cell.  `RowGrid.Shows` says which cell stands where: the
decoder fills its array column by column, and `get?` finds row `r` of column `c`
at `c * rows + r`.
-/
import Mathlib.Data.List.GetD
import SeriesWire.Batch.Decoder
import SeriesWire.Proofs.Cell.Shown
import SeriesWire.Proofs.Outcomes

namespace SeriesWire

open Bytes

namespace RowBatch

/-! ## One column -/

theorem length_take_block {block : Bytes} {count width : Nat}
    (hlen : block.length = (count + 1) * width) :
    (block.take width).length = width ∧ (block.drop width).length = count * width := by
  rw [Nat.succ_mul] at hlen
  rw [List.length_take, List.length_drop]
  omega

theorem decodeCells_ok {oid : UInt32} {width : Nat} (hwide : ¬Narrow oid width) (column : Nat)
    {count : Nat} (row : Nat) (done : Array Bytes) {block : Bytes}
    (hlen : block.length = count * width) :
    ∃ (out : Array Bytes) (cells : List Bytes),
      decodeCells oid width column row done count block = .ok out ∧
        out.toList = done.toList ++ cells ∧ cells.length = count ∧
        ∀ i (hi : i < cells.length),
          decodeCell oid (block.slice (i * width) width) = .ok cells[i] := by
  induction count generalizing row done block with
  | zero =>
    refine ⟨done, [], rfl, ?_, rfl, fun i hi => absurd hi (Nat.not_lt_zero i)⟩
    rw [List.append_nil]
  | succ count ih =>
    obtain ⟨htake, hdrop⟩ := length_take_block hlen
    have hcell : ¬Narrow oid (block.take width).length := by rwa [htake]
    obtain ⟨cell, hcell⟩ := exists_decodeCell hcell
    obtain ⟨out, cells, hout, hlist, hcount, hcells⟩ := ih (row + 1) (done.push cell) hdrop
    refine ⟨out, cell :: cells, ?_, ?_, ?_, ?_⟩
    · rw [decodeCells, hcell]
      exact hout
    · rw [hlist, Array.toList_push, List.append_assoc]
      rfl
    · rw [List.length_cons, hcount]
    · intro i hi
      cases i with
      | zero =>
        rw [Nat.zero_mul, slice_zero]
        exact hcell
      | succ i =>
        have hrest := hcells i (Nat.lt_of_succ_lt_succ hi)
        rw [slice, List.drop_drop] at hrest
        rw [Nat.succ_mul, Nat.add_comm, slice]
        exact hrest

theorem decodeCells_of_narrow {oid : UInt32} {width : Nat} (hnarrow : Narrow oid width)
    (column : Nat) {count : Nat} (hcount : 0 < count) (row : Nat) (done : Array Bytes)
    {block : Bytes} (hlen : block.length = count * width) :
    ∃ cause, decodeCells oid width column row done count block =
      .error (.cell row column (.malformed cause)) := by
  obtain ⟨count, rfl⟩ : ∃ n, count = n + 1 := ⟨count - 1, by omega⟩
  obtain ⟨htake, -⟩ := length_take_block hlen
  rw [← htake] at hnarrow
  obtain ⟨cause, hcause⟩ := decodeCell_of_narrow hnarrow
  refine ⟨cause, ?_⟩
  rw [decodeCells, hcause]

/-! ## All columns -/

variable {rows : Nat} {l : List (UInt32 × ColumnBlock × Bytes)}

theorem decodeColumns_ok (column : Nat) (done : Array Bytes)
    (hwide : ∀ x ∈ l, ¬Narrow x.1 x.2.1.storageLen.toNat)
    (hlen : ∀ x ∈ l, x.2.2.length = rows * x.2.1.storageLen.toNat) :
    ∃ (out : Array Bytes) (cells : List (List Bytes)),
      decodeColumns rows column done l = .ok out ∧
        out.toList = done.toList ++ cells.flatten ∧ (∀ part ∈ cells, part.length = rows) ∧
        cells.length = l.length ∧
        ∀ c (hc : c < l.length) r, r < rows →
          ∃ v, decodeCell l[c].1
            (l[c].2.2.slice (r * l[c].2.1.storageLen.toNat) l[c].2.1.storageLen.toNat) = .ok v ∧
            (cells[c]?.bind (·[r]?)) = some v := by
  induction l generalizing column done with
  | nil =>
    refine ⟨done, [], rfl, ?_, fun part hpart => absurd hpart List.not_mem_nil, rfl,
      fun c hc => absurd hc (Nat.not_lt_zero c)⟩
    rw [List.flatten_nil, List.append_nil]
  | cons x l ih =>
    obtain ⟨hx, hwide⟩ := List.forall_mem_cons.1 hwide
    obtain ⟨hxlen, hlen⟩ := List.forall_mem_cons.1 hlen
    obtain ⟨mid, part, hmid, hmidlist, hpart, hpartcells⟩ :=
      decodeCells_ok hx column 0 done hxlen
    obtain ⟨out, cells, hout, hlist, hparts, hcount, hcells⟩ := ih (column + 1) mid hwide hlen
    refine ⟨out, part :: cells, ?_, ?_, ?_, ?_, ?_⟩
    · rw [decodeColumns, hmid]
      exact hout
    · rw [hlist, hmidlist, List.flatten_cons, List.append_assoc]
    · exact List.forall_mem_cons.2 ⟨hpart, hparts⟩
    · rw [List.length_cons, List.length_cons, hcount]
    · intro c hc r hr
      cases c with
      | zero =>
        have hr' : r < part.length := by omega
        refine ⟨part[r], hpartcells r hr', ?_⟩
        exact List.getElem?_eq_getElem hr'
      | succ c => exact hcells c (Nat.lt_of_succ_lt_succ hc) r hr

/-- The first column that is too narrow is reported at its first cell. -/
theorem decodeColumns_of_narrow (column : Nat) (done : Array Bytes) (hrows : 0 < rows)
    (hnarrow : ∃ x ∈ l, Narrow x.1 x.2.1.storageLen.toNat)
    (hlen : ∀ x ∈ l, x.2.2.length = rows * x.2.1.storageLen.toNat) :
    ∃ c cause, ∃ hc : c < l.length,
      Narrow l[c].1 l[c].2.1.storageLen.toNat ∧
        (∀ c' (hc' : c' < c), ¬Narrow l[c'].1 l[c'].2.1.storageLen.toNat) ∧
        decodeColumns rows column done l =
          .error (.cell 0 (column + c) (.malformed cause)) := by
  induction l generalizing column done with
  | nil =>
    obtain ⟨x, hx, -⟩ := hnarrow
    cases hx
  | cons x l ih =>
    obtain ⟨hxlen, hlen⟩ := List.forall_mem_cons.1 hlen
    by_cases hx : Narrow x.1 x.2.1.storageLen.toNat
    · obtain ⟨cause, hcause⟩ := decodeCells_of_narrow hx column hrows 0 done hxlen
      refine ⟨0, cause, Nat.zero_lt_succ _, hx, fun c' hc' => absurd hc' (Nat.not_lt_zero c'), ?_⟩
      rw [decodeColumns, hcause]
      rfl
    · have hrest : ∃ y ∈ l, Narrow y.1 y.2.1.storageLen.toNat := by
        obtain ⟨y, hy, hynarrow⟩ := hnarrow
        rcases List.mem_cons.1 hy with rfl | hy
        · exact absurd hynarrow hx
        · exact ⟨y, hy, hynarrow⟩
      obtain ⟨mid, part, hmid, -⟩ := decodeCells_ok hx column 0 done hxlen
      obtain ⟨c, cause, hc, hfound, hfirst, herror⟩ := ih (column + 1) mid hrest hlen
      refine ⟨c + 1, cause, Nat.succ_lt_succ hc, hfound, ?_, ?_⟩
      · intro c' hc'
        cases c' with
        | zero => exact hx
        | succ c' => exact hfirst c' (Nat.lt_of_succ_lt_succ hc')
      · rw [decodeColumns, hmid, show column + (c + 1) = column + 1 + c by omega]
        exact herror

end RowBatch

theorem getElem?_flatten_of_length {ls : List (List Bytes)} {n : Nat}
    (hlen : ∀ l ∈ ls, l.length = n) (c : Nat) {r : Nat} (hr : r < n) :
    ls.flatten[c * n + r]? = ls[c]?.bind (·[r]?) := by
  induction ls generalizing c with
  | nil => rfl
  | cons l ls ih =>
    obtain ⟨hl, hls⟩ := List.forall_mem_cons.1 hlen
    rw [List.flatten_cons]
    cases c with
    | zero =>
      rw [Nat.zero_mul, Nat.zero_add, List.getElem?_append_left (by omega)]
      rfl
    | succ c =>
      rw [Nat.succ_mul, List.getElem?_append_right (by omega), List.getElem?_cons_succ, hl,
        show c * n + n + r - n = c * n + r by omega]
      exact ih hls c

/-! ## Grids -/

def ColumnBlock.rawCell (c : ColumnBlock) (source : Bytes) (r : Nat) : Bytes :=
  source.slice (c.offset.toNat + r * c.storageLen.toNat) c.storageLen.toNat

/-- The block of a column with `rows` cells lies inside `source`. -/
def ColumnBlock.Inside (c : ColumnBlock) (rows : Nat) (source : Bytes) : Prop :=
  c.offset.toNat < source.length ∧
    c.offset.toNat + rows * c.storageLen.toNat ≤ source.length

/-- `g` has `rowNum` rows and `colNum` columns, whose cells are decoded from
`raw`. -/
structure RowGrid.Shows (g : RowGrid) (oids : List UInt32) (rowNum colNum : Nat)
    (raw : Nat → Nat → Bytes) : Prop where
  rows : g.rows = rowNum
  cols : g.cols = colNum
  inside : ∀ r c, r < rowNum → c < colNum →
    ∃ v, decodeCell (oids.getD c 0) (raw r c) = .ok v ∧ g.get? r c = some v
  outside : ∀ r c, ¬(r < rowNum ∧ c < colNum) → g.get? r c = none

namespace RowBatch

variable {b : RowBatch} {oids : List UInt32} {source : Bytes} {region : String}

theorem columnBytes_ok {rows column : Nat} {c : ColumnBlock} (h : c.Inside rows source) :
    columnBytes source region rows column c =
      .ok (source.slice c.offset.toNat (rows * c.storageLen.toNat)) := by
  obtain ⟨hstart, hend⟩ := h
  rw [columnBytes, if_neg (by omega)]

theorem columnBytes_outside {rows : Nat} {c : ColumnBlock} (h : ¬c.Inside rows source)
    (region : String) (column : Nat) :
    ∃ cause, columnBytes source region rows column c = .error (.bounds cause) := by
  rw [ColumnBlock.Inside] at h
  simp only [columnBytes]
  rw [if_pos (by omega)]
  exact ⟨_, rfl⟩

def blocks (b : RowBatch) (source : Bytes) : List Bytes :=
  b.columns.map fun c => source.slice c.offset.toNat (b.rowNum.toNat * c.storageLen.toNat)

theorem mapM_columnBytes_ok (hinside : ∀ c ∈ b.columns, c.Inside b.rowNum.toNat source) :
    (b.columns.zipIdx.mapM fun (c, i) => columnBytes source region b.rowNum.toNat i c) =
      .ok (b.blocks source) := by
  rw [Outcome.mapM_eq_ok]
  refine ⟨by rw [blocks, List.length_map, List.length_zipIdx], fun i hi => ?_⟩
  have hi' : i < b.columns.length := by rwa [List.length_zipIdx] at hi
  simp only [List.getElem_zipIdx, blocks, List.getElem_map]
  exact columnBytes_ok (hinside _ (List.getElem_mem hi'))

theorem getElem_zip_blocks (hoids : oids.length = b.colNum.toNat)
    (hcols : b.columns.length = b.colNum.toNat) {c : Nat}
    (hc : c < (oids.zip (b.columns.zip (b.blocks source))).length) :
    c < b.colNum.toNat ∧
      (oids.zip (b.columns.zip (b.blocks source)))[c] =
        (oids.getD c 0, b.columns.getD c default,
          source.slice (b.columns.getD c default).offset.toNat
            (b.rowNum.toNat * (b.columns.getD c default).storageLen.toNat)) := by
  have hc' : c < b.colNum.toNat := by
    rw [List.length_zip, List.length_zip, blocks, List.length_map] at hc
    omega
  refine ⟨hc', ?_⟩
  rw [List.getD_eq_getElem _ _ (by omega), List.getD_eq_getElem _ _ (by omega)]
  simp only [List.getElem_zip, blocks, List.getElem_map]

theorem length_zip_blocks (hoids : oids.length = b.colNum.toNat)
    (hcols : b.columns.length = b.colNum.toNat) :
    (oids.zip (b.columns.zip (b.blocks source))).length = b.colNum.toNat := by
  rw [List.length_zip, List.length_zip, blocks, List.length_map]
  omega

theorem length_of_mem_zip_blocks (hoids : oids.length = b.colNum.toNat)
    (hcols : b.columns.length = b.colNum.toNat)
    (hinside : ∀ c ∈ b.columns, c.Inside b.rowNum.toNat source) :
    ∀ x ∈ oids.zip (b.columns.zip (b.blocks source)),
      x.2.2.length = b.rowNum.toNat * x.2.1.storageLen.toNat := by
  intro x hx
  obtain ⟨c, hc, rfl⟩ := List.getElem_of_mem hx
  obtain ⟨hc', heq⟩ := getElem_zip_blocks hoids hcols hc
  have hmem : b.columns.getD c default ∈ b.columns := by
    rw [List.getD_eq_getElem _ _ (by omega)]
    exact List.getElem_mem _
  rw [heq]
  exact length_slice_of_le (hinside _ hmem).2

theorem grid_eq (hsource : b.source = .ok (source, region))
    (hoids : oids.length = b.colNum.toNat) :
    b.grid oids = (do
      let blocks ← b.columns.zipIdx.mapM fun (c, i) =>
        columnBytes source region b.rowNum.toNat i c
      let cells ← decodeColumns b.rowNum.toNat 0 #[] (oids.zip (b.columns.zip blocks))
      return { rows := b.rowNum.toNat, cols := b.colNum.toNat, cells }) := by
  rw [grid, if_neg (not_not_intro hoids), hsource]
  rfl

/-- A batch whose blocks lie inside their source and whose columns are wide enough
is decoded cell by cell. -/
theorem grid_ok (hsource : b.source = .ok (source, region))
    (hoids : oids.length = b.colNum.toNat) (hcols : b.columns.length = b.colNum.toNat)
    (hinside : ∀ c ∈ b.columns, c.Inside b.rowNum.toNat source)
    (hwide : ∀ c < b.colNum.toNat,
      ¬Narrow (oids.getD c 0) (b.columns.getD c default).storageLen.toNat) :
    ∃ g, b.grid oids = .ok g ∧ g.Shows oids b.rowNum.toNat b.colNum.toNat fun r c =>
      (b.columns.getD c default).rawCell source r := by
  have hlen := length_of_mem_zip_blocks hoids hcols hinside
  have hcount : (oids.zip (b.columns.zip (b.blocks source))).length = b.colNum.toNat :=
    length_zip_blocks hoids hcols
  have hall : ∀ x ∈ oids.zip (b.columns.zip (b.blocks source)),
      ¬Narrow x.1 x.2.1.storageLen.toNat := by
    intro x hx
    obtain ⟨c, hc, rfl⟩ := List.getElem_of_mem hx
    obtain ⟨hc', heq⟩ := getElem_zip_blocks hoids hcols hc
    rw [heq]
    exact hwide c hc'
  obtain ⟨out, cells, hout, hlist, hparts, hnum, hcells⟩ := decodeColumns_ok 0 #[] hall hlen
  refine ⟨⟨b.rowNum.toNat, b.colNum.toNat, out⟩, ?_, rfl, rfl, ?_, ?_⟩
  · rw [grid_eq hsource hoids, mapM_columnBytes_ok hinside, Outcome.ok_bind, hout]
    rfl
  · intro r c hr hc
    have hc' : c < (oids.zip (b.columns.zip (b.blocks source))).length := by omega
    obtain ⟨v, hv, hfound⟩ := hcells c hc' r hr
    obtain ⟨-, heq⟩ := getElem_zip_blocks hoids hcols hc'
    simp only [heq] at hv
    have hroom : r * (b.columns.getD c default).storageLen.toNat +
        (b.columns.getD c default).storageLen.toNat ≤
        b.rowNum.toNat * (b.columns.getD c default).storageLen.toNat := by
      rw [← Nat.succ_mul]
      exact Nat.mul_le_mul_right _ hr
    rw [slice_slice hroom] at hv
    refine ⟨v, hv, ?_⟩
    show (if r < b.rowNum.toNat ∧ c < b.colNum.toNat then out[c * b.rowNum.toNat + r]?
      else none) = _
    rw [if_pos ⟨hr, hc⟩, ← Array.getElem?_toList, hlist]
    show cells.flatten[c * b.rowNum.toNat + r]? = _
    rw [getElem?_flatten_of_length hparts c hr, hfound]
  · intro r c hout
    exact if_neg hout

theorem grid_outside (hsource : b.source = .ok (source, region))
    (hoids : oids.length = b.colNum.toNat)
    (houtside : ¬∀ c ∈ b.columns, c.Inside b.rowNum.toNat source) :
    ∃ cause, b.grid oids = .error (.bounds cause) := by
  cases hblocks : b.columns.zipIdx.mapM fun (c, i) =>
      columnBytes source region b.rowNum.toNat i c with
  | error e =>
    obtain ⟨⟨c, i⟩, -, hc⟩ := Outcome.mapM_eq_error hblocks
    change columnBytes source region b.rowNum.toNat i c = .error e at hc
    by_cases hinside : c.Inside b.rowNum.toNat source
    · rw [columnBytes_ok hinside] at hc
      cases hc
    · obtain ⟨cause, hcause⟩ := columnBytes_outside hinside region i
      rw [hcause] at hc
      cases hc
      refine ⟨cause, ?_⟩
      rw [grid_eq hsource hoids, hblocks]
      rfl
  | ok blocks =>
    refine absurd (fun c hc => ?_) houtside
    obtain ⟨hcount, hfound⟩ := Outcome.mapM_eq_ok.1 hblocks
    obtain ⟨i, hi, rfl⟩ := List.getElem_of_mem hc
    have hi' : i < b.columns.zipIdx.length := by rwa [List.length_zipIdx]
    have hcolumn := hfound i hi'
    simp only [List.getElem_zipIdx] at hcolumn
    by_cases hinside : b.columns[i].Inside b.rowNum.toNat source
    · exact hinside
    · obtain ⟨cause, hcause⟩ := columnBytes_outside hinside region (0 + i)
      rw [hcause] at hcolumn
      cases hcolumn

/-- Of a batch whose blocks lie inside their source, the first column that is too
narrow is reported. -/
theorem grid_narrow (hsource : b.source = .ok (source, region))
    (hoids : oids.length = b.colNum.toNat) (hcols : b.columns.length = b.colNum.toNat)
    (hrows : 0 < b.rowNum.toNat)
    (hinside : ∀ c ∈ b.columns, c.Inside b.rowNum.toNat source)
    (hnarrow : ∃ c, c < b.colNum.toNat ∧
      Narrow (oids.getD c 0) (b.columns.getD c default).storageLen.toNat) :
    ∃ c cause, c < b.colNum.toNat ∧
      Narrow (oids.getD c 0) (b.columns.getD c default).storageLen.toNat ∧
      (∀ c' < c, ¬Narrow (oids.getD c' 0) (b.columns.getD c' default).storageLen.toNat) ∧
      b.grid oids = .error (.cell 0 c (.malformed cause)) := by
  have hlen := length_of_mem_zip_blocks hoids hcols hinside
  have hcount : (oids.zip (b.columns.zip (b.blocks source))).length = b.colNum.toNat :=
    length_zip_blocks hoids hcols
  have hsome : ∃ x ∈ oids.zip (b.columns.zip (b.blocks source)),
      Narrow x.1 x.2.1.storageLen.toNat := by
    obtain ⟨c, hc, hnarrow⟩ := hnarrow
    have hc' : c < (oids.zip (b.columns.zip (b.blocks source))).length := by omega
    refine ⟨_, List.getElem_mem hc', ?_⟩
    rw [(getElem_zip_blocks hoids hcols hc').2]
    exact hnarrow
  obtain ⟨c, cause, hc, hfound, hfirst, herror⟩ := decodeColumns_of_narrow 0 #[] hrows hsome hlen
  obtain ⟨hc', heq⟩ := getElem_zip_blocks hoids hcols hc
  rw [heq] at hfound
  refine ⟨c, cause, hc', hfound, ?_, ?_⟩
  · intro c' hlt
    have hnot := hfirst c' hlt
    have hc'' : c' < (oids.zip (b.columns.zip (b.blocks source))).length := by omega
    rw [(getElem_zip_blocks hoids hcols hc'').2] at hnot
    exact hnot
  · rw [grid_eq hsource hoids, mapM_columnBytes_ok hinside, Outcome.ok_bind, herror, Nat.zero_add]
    rfl

end RowBatch
end SeriesWire
