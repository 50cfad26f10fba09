/-
What a builder lays out, and that a decoder shows it.  `blocks_ok` says where the
columns stand and what is in them, `source_ok` that a decoder gets at the same
bytes whether they are compressed or not; `decode_built` puts these together with
the message and the grid.
-/
import SeriesWire.Batch.Builder
import SeriesWire.Proofs.Batch.Grid
import SeriesWire.Proofs.Block.Expansion
import SeriesWire.Proofs.Block.Store
import SeriesWire.Proofs.Message.RowBatch
import SeriesWire.Proofs.Wire.Frame

namespace SeriesWire

open Bytes

namespace BatchBuilder

/-! ## Columns -/

section Columns

variable {rows : List (List CellValue)} {oid : UInt32} {width column start : Nat} {block : Bytes}
  {l : List (UInt32 × UInt32)} {out : List (ColumnBlock × Bytes)}

theorem columnBytes_ok (h : columnBytes rows oid width column = .ok block) :
    block.length = rows.length * width ∧
      ∀ r (hr : r < rows.length), ∃ content,
        (rows[r].getD column .null).result oid width = .ok content ∧
          block.slice (r * width) width = fit width content := by
  obtain ⟨cells, hcells, hblock⟩ := Outcome.bind_eq_ok.1 h
  cases hblock
  obtain ⟨hcount, hcells⟩ := Outcome.mapM_eq_ok.1 hcells
  rw [List.length_zipIdx] at hcount
  have hcell : ∀ r (hr : r < rows.length), ∃ content,
      (rows[r].getD column .null).result oid width = .ok content ∧
        fit width content = cells[r] := by
    intro r hr
    have hr' : r < rows.zipIdx.length := by rwa [List.length_zipIdx]
    have hfound := hcells r hr'
    rw [List.getElem_zipIdx] at hfound
    exact Outcome.map_eq_ok.1 (Outcome.mapError_eq_ok.1 hfound)
  have hlen : ∀ cell ∈ cells, cell.length = width := by
    intro cell hmem
    obtain ⟨r, hr, rfl⟩ := List.getElem_of_mem hmem
    obtain ⟨content, -, hfit⟩ := hcell r (hcount ▸ hr)
    rw [← hfit, length_fit]
  refine ⟨by rw [length_flatten_of_length hlen, hcount], fun r hr => ?_⟩
  obtain ⟨content, hresult, hfit⟩ := hcell r hr
  exact ⟨content, hresult, by rw [slice_flatten_of_length hlen (hcount ▸ hr), hfit]⟩

/-- The columns stand behind each other, each at the offset that its metadata
names. -/
theorem blocks_ok (h : blocks rows column start l = .ok out) :
    ∃ hlen : out.length = l.length, ∀ c (hc : c < l.length),
      out[c].1.storageLen = l[c].2 ∧
        out[c].1.offset.toNat = start + ((out.map (·.2)).take c).flatten.length ∧
        columnBytes rows l[c].1 l[c].2.toNat (column + c) = .ok out[c].2 := by
  induction l generalizing column start out with
  | nil =>
    cases h
    exact ⟨rfl, fun c hc => absurd hc (Nat.not_lt_zero c)⟩
  | cons x l ih =>
    obtain ⟨oid, len⟩ := x
    rw [blocks] at h
    by_cases hstart : space 4 ≤ start
    · rw [if_pos hstart] at h
      cases h
    rw [if_neg hstart] at h
    obtain ⟨-, -, h⟩ := Outcome.bind_eq_ok.1 h
    obtain ⟨block, hblock, h⟩ := Outcome.bind_eq_ok.1 h
    obtain ⟨more, hmore, hout⟩ := Outcome.bind_eq_ok.1 h
    cases hout
    obtain ⟨hlen, hrest⟩ := ih hmore
    have hoffset : (UInt32.ofNat start).toNat = start := by
      apply UInt32.toNat_ofNat_of_lt'
      rw [space_four] at hstart
      have hsize : UInt32.size = 4294967296 := rfl
      omega
    refine ⟨by rw [List.length_cons, List.length_cons, hlen], fun c hc => ?_⟩
    cases c with
    | zero => exact ⟨rfl, hoffset, hblock⟩
    | succ c =>
      obtain ⟨hwidth, hplace, hbytes⟩ := hrest c (Nat.lt_of_succ_lt_succ hc)
      refine ⟨hwidth, ?_, ?_⟩
      · rw [List.getElem_cons_succ, hplace, List.map_cons, List.take_succ_cons, List.flatten_cons,
          List.length_append, (columnBytes_ok hblock).1, Nat.mul_comm rows.length, Nat.add_assoc]
      · rw [show column + (c + 1) = column + 1 + c by omega]
        exact hbytes

theorem inside_of_blocks (h : blocks rows 0 0 l = .ok out) (hrows : 0 < rows.length)
    (hwidth : ∀ x ∈ l, x.2 ≠ 0) :
    ∀ c ∈ out.map (·.1), c.Inside rows.length (out.map (·.2)).flatten := by
  obtain ⟨hlen, hcolumns⟩ := blocks_ok h
  intro x hx
  obtain ⟨c, hc, rfl⟩ := List.getElem_of_mem hx
  rw [List.length_map] at hc
  have hc' : c < (out.map (·.2)).length := by rwa [List.length_map]
  obtain ⟨hstorage, hoffset, hbytes⟩ := hcolumns c (hlen ▸ hc)
  have hpos : 0 < out[c].1.storageLen.toNat := by
    have hne := hwidth _ (List.getElem_mem (hlen ▸ hc))
    rw [hstorage, Nat.pos_iff_ne_zero]
    exact fun hzero => hne (UInt32.toNat_inj.1 hzero)
  have hblock := slice_flatten_le hc'
  rw [List.getElem_map, (columnBytes_ok hbytes).1, ← hstorage] at hblock
  have hmul := Nat.mul_pos hrows hpos
  rw [List.getElem_map, ColumnBlock.Inside, hoffset]
  omega

/-- In the bytes of all columns, a cell is found where the metadata of its column
says. -/
theorem rawCell_of_blocks (h : blocks rows 0 0 l = .ok out) {c r : Nat} (hc : c < l.length)
    (hr : r < rows.length) :
    ∃ content, (rows[r].getD c .null).result l[c].1 l[c].2.toNat = .ok content ∧
      ((out.map Prod.fst).getD c default).storageLen = l[c].2 ∧
      ((out.map Prod.fst).getD c default).rawCell (out.map (·.2)).flatten r =
        fit l[c].2.toNat content := by
  obtain ⟨hlen, hcolumns⟩ := blocks_ok h
  obtain ⟨hstorage, hoffset, hbytes⟩ := hcolumns c hc
  obtain ⟨hblock, hcells⟩ := columnBytes_ok hbytes
  obtain ⟨content, hresult, hcell⟩ := hcells r hr
  have hc' : c < (out.map (·.2)).length := by rwa [List.length_map, hlen]
  have hfound := slice_flatten hc'
  rw [List.getElem_map] at hfound
  have hroom : r * l[c].2.toNat + l[c].2.toNat ≤ out[c].2.length := by
    rw [hblock, ← Nat.succ_mul]
    exact Nat.mul_le_mul_right _ hr
  rw [Nat.zero_add] at hoffset hresult
  have hget : (out.map Prod.fst).getD c default = out[c].1 := by
    rw [List.getD_eq_getElem _ _ (by rwa [List.length_map, hlen]), List.getElem_map]
  rw [hget]
  refine ⟨content, hresult, hstorage, ?_⟩
  rw [ColumnBlock.rawCell, hstorage, hoffset, ← slice_slice hroom, hfound, hcell]

end Columns

/-! ## Payloads -/

/-- What `pack` makes of a content, the decompressor of the codec restores. -/
def Restores (codec : Codec) (pack : Bytes → Except WireError Bytes) : Prop :=
  ∀ content block, content.length < space 4 → pack content = .ok block →
    codec.decompress? content.length block = some content

theorem restores_compress (codec : Codec) : Restores codec fun content =>
    .ok (codec.compress content) := by
  intro content block hlen hblock
  cases hblock
  exact Codec.decompress?_compress hlen (Nat.le_refl _)

theorem framed_ok {pack : Bytes → Except WireError Bytes} {content payload : Bytes}
    (h : framed pack content = .ok payload) :
    ∃ packed, pack content = .ok packed ∧ content.length < space 4 ∧ packed.length < space 4 ∧
      payload = ofNatBE 4 content.length ++ ofNatBE 4 packed.length ++ packed := by
  obtain ⟨packed, hpacked, h⟩ := Outcome.bind_eq_ok.1 h
  refine ⟨packed, hpacked, ?_⟩
  simp only [List.forIn_cons, List.forIn_nil] at h
  by_cases hcontent : space 4 ≤ content.length
  · rw [if_pos hcontent] at h
    cases h
  by_cases hpack : space 4 ≤ packed.length
  · rw [if_neg hcontent, if_pos hpack] at h
    cases h
  rw [if_neg hcontent, if_neg hpack] at h
  exact ⟨by omega, by omega, (Except.ok.inj h).symm⟩

theorem inflate_framed {codec : Codec} {content packed : Bytes}
    (hcontent : content.length < space 4) (hpacked : packed.length < space 4)
    (h : codec.decompress? content.length packed = some content) :
    RowBatch.inflate (.block codec)
      (ofNatBE 4 content.length ++ ofNatBE 4 packed.length ++ packed) = .ok content := by
  have hsize : ((ofNatBE 4 content.length ++ ofNatBE 4 packed.length ++ packed).slice 0 4).toNatBE =
      content.length := by
    rw [List.append_assoc, slice_zero, List.take_left' (length_ofNatBE 4 _),
      toNatBE_ofNatBE_of_lt hcontent]
  have hlen : ((ofNatBE 4 content.length ++ ofNatBE 4 packed.length ++ packed).slice 4 4).toNatBE =
      packed.length := by
    have hslice := slice_append (ofNatBE 4 content.length) (ofNatBE 4 packed.length) packed
    rw [length_ofNatBE, length_ofNatBE] at hslice
    rw [List.append_assoc, hslice, toNatBE_ofNatBE_of_lt hpacked]
  have hhead : (ofNatBE 4 content.length ++ ofNatBE 4 packed.length).length =
      RowBatch.blockHeadLen := by
    rw [List.length_append, length_ofNatBE, length_ofNatBE, RowBatch.blockHeadLen]
  have hlimit : ¬RowBatch.inflationLimit packed.length < content.length := by
    have := Codec.length_decompress? h
    rw [RowBatch.inflationLimit]
    omega
  have hlong : ¬(ofNatBE 4 content.length ++ ofNatBE 4 packed.length ++ packed).length <
      RowBatch.blockHeadLen := by
    rw [List.length_append, hhead]
    omega
  simp only [RowBatch.inflate, hsize, hlen]
  rw [if_neg hlong, List.drop_left' hhead, if_neg (not_not_intro rfl), if_neg hlimit,
    Compression.inflate, Codec.inflate, h]
  exact if_pos rfl

theorem source_ok {b : BatchBuilder} {content payload : Bytes} {batch : RowBatch}
    (hpack : ∀ codec, b.compression = .block codec → Restores codec (b.pack codec))
    (h : b.payload content = .ok payload) (hcompression : batch.compression = b.compression)
    (hpayload : batch.payload = payload) : ∃ region, batch.source = .ok (content, region) := by
  rw [BatchBuilder.payload] at h
  rw [RowBatch.source, hcompression, hpayload]
  cases hb : b.compression with
  | plain =>
    rw [hb] at h
    cases h
    exact ⟨_, rfl⟩
  | block codec =>
    rw [hb] at h
    obtain ⟨packed, hpacked, hcontent, hlen, rfl⟩ := framed_ok h
    have hrestored := hpack codec hb content packed hcontent hpacked
    refine ⟨"decompressed block", ?_⟩
    show Except.map _ _ = _
    rw [inflate_framed hcontent hlen hrestored]
    rfl

/-! ## Batches -/

/-- What is checked when a builder is made. -/
structure Sound (b : BatchBuilder) : Prop where
  lens : b.oids.length = b.storageLens.length
  count : 1 ≤ b.oids.length ∧ b.oids.length ≤ RowBatch.maxColumns
  nonzero : ∀ len ∈ b.storageLens, len ≠ 0

theorem make_ok {oids lens : List UInt32} {b : BatchBuilder} (h : make oids lens = .ok b) :
    b.Sound ∧ b.oids = oids ∧ b.storageLens = lens := by
  rw [make] at h
  by_cases hlens : oids.length ≠ lens.length
  · rw [if_pos hlens] at h
    cases h
  rw [if_neg hlens] at h
  by_cases hcount : oids.length = 0 ∨ RowBatch.maxColumns < oids.length
  · rw [if_pos hcount] at h
    cases h
  rw [if_neg hcount] at h
  cases hzero : lens.findIdx? (· == 0) with
  | some column =>
    rw [hzero] at h
    cases h
  | none =>
    rw [hzero] at h
    cases h
    refine ⟨⟨not_not.1 hlens, ⟨?_, ?_⟩, fun len hlen => ?_⟩, rfl, rfl⟩
    · show 1 ≤ oids.length
      omega
    · show oids.length ≤ RowBatch.maxColumns
      omega
    · have hne := List.findIdx?_eq_none_iff.1 hzero len hlen
      simpa using hne

/-- What a builder puts into a batch. -/
structure Carries (b : BatchBuilder) (rows : List (List CellValue)) (batch : RowBatch)
    (columns : List (ColumnBlock × Bytes)) : Prop where
  count : 1 ≤ rows.length ∧ rows.length < space 4
  arity : ∀ row ∈ rows, row.length = b.oids.length
  laid : blocks rows 0 0 (b.oids.zip b.storageLens) = .ok columns
  payload : b.payload (columns.map (·.2)).flatten = .ok batch.payload
  rowNum : batch.rowNum = UInt32.ofNat rows.length
  colNum : batch.colNum = UInt16.ofNat b.oids.length
  metadata : batch.columns = columns.map (·.1)
  compression : batch.compression = b.compression

variable {b : BatchBuilder} {rows : List (List CellValue)} {batch : RowBatch}

theorem batch_ok (h : b.batch rows = .ok batch) : ∃ columns, b.Carries rows batch columns := by
  rw [BatchBuilder.batch] at h
  by_cases hnone : rows.isEmpty
  · rw [if_pos hnone] at h
    cases h
  rw [if_neg hnone] at h
  dsimp only at h
  cases harity : rows.zipIdx.find? fun x => x.1.length ≠ b.oids.length with
  | some x =>
    rw [harity] at h
    cases h
  | none =>
    rw [harity] at h
    dsimp only at h
    by_cases hmany : space 4 ≤ rows.length
    · rw [if_pos hmany] at h
      cases h
    rw [if_neg hmany] at h
    obtain ⟨columns, hcolumns, h⟩ := Outcome.bind_eq_ok.1 h
    obtain ⟨payload, hpayload, h⟩ := Outcome.bind_eq_ok.1 h
    cases h
    refine ⟨columns, ⟨?_, by omega⟩, ?_, hcolumns, hpayload, rfl, rfl, rfl, rfl⟩
    · rw [List.isEmpty_iff] at hnone
      exact List.length_pos_iff.2 hnone
    · intro row hrow
      obtain ⟨r, hr, rfl⟩ := List.getElem_of_mem hrow
      have hr' : r < rows.zipIdx.length := by rwa [List.length_zipIdx]
      have hfound := List.find?_eq_none.1 harity _ (List.getElem_mem hr')
      rw [List.getElem_zipIdx] at hfound
      simpa using hfound

theorem body_ok {body : Bytes} (h : b.body rows = .ok body) :
    ∃ batch, b.batch rows = .ok batch ∧ Field.encodeAll batch.fields = .ok body := by
  unfold BatchBuilder.body at h
  split at h
  next message hsent =>
    cases h
    rw [BatchBuilder.encode] at hsent
    cases hbatch : b.batch rows with
    | error e =>
      rw [hbatch] at hsent
      cases hsent
    | ok batch =>
      rw [hbatch] at hsent
      dsimp only [RowBatch.encode] at hsent
      by_cases hcount : batch.columns.length ≠ batch.colNum.toNat
      · rw [if_pos hcount] at hsent
        cases hsent
      rw [if_neg hcount] at hsent
      obtain ⟨-, hfields⟩ := send_ok_parts hsent
      rw [List.length_nil, Nat.zero_add] at hfields
      exact ⟨batch, rfl, hfields⟩
  next => cases h

section Carried

variable {columns : List (ColumnBlock × Bytes)} {body : Bytes}

theorem Carries.toNat_rowNum (h : b.Carries rows batch columns) :
    batch.rowNum.toNat = rows.length := by
  have hlt := h.count.2
  rw [space_four] at hlt
  rw [h.rowNum]
  exact UInt32.toNat_ofNat_of_lt' hlt

theorem Carries.toNat_colNum (h : b.Carries rows batch columns) (hb : b.Sound) :
    batch.colNum.toNat = b.oids.length := by
  rw [h.colNum]
  apply UInt16.toNat_ofNat_of_lt'
  exact Nat.lt_of_le_of_lt hb.count.2 (by decide)

theorem Carries.length_columns (h : b.Carries rows batch columns) (hb : b.Sound) :
    batch.columns.length = batch.colNum.toNat := by
  obtain ⟨hlen, -⟩ := blocks_ok h.laid
  rw [h.toNat_colNum hb, h.metadata, List.length_map, hlen, List.length_zip, ← hb.lens,
    Nat.min_self]

theorem Sound.width_ne_zero (hb : b.Sound) : ∀ x ∈ b.oids.zip b.storageLens, x.2 ≠ 0 :=
  fun _ hx => hb.nonzero _ (List.of_mem_zip hx).2

theorem Carries.storageLen_ne_zero (h : b.Carries rows batch columns) (hb : b.Sound) :
    ∀ c ∈ batch.columns, c.storageLen ≠ 0 := by
  obtain ⟨hlen, hcolumns⟩ := blocks_ok h.laid
  intro x hx
  rw [h.metadata] at hx
  obtain ⟨c, hc, rfl⟩ := List.getElem_of_mem hx
  rw [List.length_map, hlen] at hc
  rw [List.getElem_map, (hcolumns c hc).1]
  exact hb.width_ne_zero _ (List.getElem_mem hc)

theorem Carries.cell (h : b.Carries rows batch columns) (hb : b.Sound) {r c : Nat}
    (hr : r < rows.length) (hc : c < b.oids.length) :
    ∃ content, (rows[r].getD c .null).result (b.oids.getD c 0) (b.storageLens.getD c 0).toNat =
        .ok content ∧
      (batch.columns.getD c default).storageLen = b.storageLens.getD c 0 ∧
      (batch.columns.getD c default).rawCell (columns.map (·.2)).flatten r =
        fit (b.storageLens.getD c 0).toNat content := by
  have hlens : c < b.storageLens.length := hb.lens ▸ hc
  have hzip : c < (b.oids.zip b.storageLens).length := by
    rw [List.length_zip]
    omega
  have hcell := rawCell_of_blocks h.laid hzip hr
  rw [List.getElem_zip] at hcell
  rw [h.metadata, List.getD_eq_getElem _ _ hc, List.getD_eq_getElem _ _ hlens]
  exact hcell

theorem Carries.decode (h : b.Carries rows batch columns) (hb : b.Sound)
    (hfields : Field.encodeAll batch.fields = .ok body) : RowBatch.decode body = .ok batch := by
  refine RowBatch.decode_of_encodeAll
    ⟨?_, ?_, h.length_columns hb, h.storageLen_ne_zero hb⟩ hfields
  · rw [← UInt32.toNat_inj.ne, h.toNat_rowNum]
    exact Nat.ne_of_gt h.count.1
  · rw [h.toNat_colNum hb]
    exact hb.count

/-- All blocks lie inside the bytes of the columns. -/
theorem Carries.inside (h : b.Carries rows batch columns) (hb : b.Sound) :
    ∀ c ∈ batch.columns, c.Inside batch.rowNum.toNat (columns.map (·.2)).flatten := by
  rw [h.toNat_rowNum, h.metadata]
  exact inside_of_blocks h.laid h.count.1 hb.width_ne_zero

theorem Carries.storageLen (h : b.Carries rows batch columns) (hb : b.Sound) {c : Nat}
    (hc : c < b.oids.length) :
    (batch.columns.getD c default).storageLen = b.storageLens.getD c 0 := by
  obtain ⟨-, -, hstorage, -⟩ := h.cell hb h.count.1 hc
  exact hstorage

theorem Carries.decode_eq (h : b.Carries rows batch columns) (hb : b.Sound)
    (hfields : Field.encodeAll batch.fields = .ok body) :
    RowGrid.decode b.oids body = batch.grid b.oids := by
  rw [RowGrid.decode, h.decode hb hfields, Outcome.ok_bind]

/-- The grid that a decoder makes of what a builder laid out. -/
theorem Carries.shows (h : b.Carries rows batch columns) (hb : b.Sound)
    (hfields : Field.encodeAll batch.fields = .ok body)
    (hwide : ∀ c < b.oids.length, ¬Narrow (b.oids.getD c 0) (b.storageLens.getD c 0).toNat)
    (hpack : ∀ codec, b.compression = .block codec → Restores codec (b.pack codec)) :
    ∃ g, RowGrid.decode b.oids body = .ok g ∧ g.Shows b.oids rows.length b.oids.length fun r c =>
      (batch.columns.getD c default).rawCell (columns.map (·.2)).flatten r := by
  obtain ⟨region, hsource⟩ := source_ok hpack h.payload h.compression rfl
  have hcolNum := h.toNat_colNum hb
  obtain ⟨g, hg, hshows⟩ := RowBatch.grid_ok hsource hcolNum.symm
    (h.length_columns hb) (h.inside hb) (by
      intro c hc
      rw [hcolNum] at hc
      rw [h.storageLen hb hc]
      exact hwide c hc)
  rw [h.toNat_rowNum, hcolNum] at hshows
  exact ⟨g, (h.decode_eq hb hfields).trans hg, hshows⟩

/-- What a builder laid out with a column too narrow for its type is refused by a
decoder, at the first such column. -/
theorem Carries.refused (h : b.Carries rows batch columns) (hb : b.Sound)
    (hfields : Field.encodeAll batch.fields = .ok body)
    (hnarrow : ∃ c < b.oids.length, Narrow (b.oids.getD c 0) (b.storageLens.getD c 0).toNat)
    (hpack : ∀ codec, b.compression = .block codec → Restores codec (b.pack codec)) :
    ∃ c cause, c < b.oids.length ∧ Narrow (b.oids.getD c 0) (b.storageLens.getD c 0).toNat ∧
      (∀ c' < c, ¬Narrow (b.oids.getD c' 0) (b.storageLens.getD c' 0).toNat) ∧
      RowGrid.decode b.oids body = .error (.cell 0 c (.malformed cause)) := by
  obtain ⟨region, hsource⟩ := source_ok hpack h.payload h.compression rfl
  have hcolNum := h.toNat_colNum hb
  have hrows : 0 < batch.rowNum.toNat := by
    rw [h.toNat_rowNum]
    exact h.count.1
  obtain ⟨c, hc, hcnarrow⟩ := hnarrow
  obtain ⟨c, cause, hc, hfound, hfirst, herror⟩ := RowBatch.grid_narrow hsource hcolNum.symm
    (h.length_columns hb) hrows (h.inside hb)
    ⟨c, by rwa [hcolNum], by rwa [h.storageLen hb hc]⟩
  rw [hcolNum] at hc
  rw [h.storageLen hb hc] at hfound
  refine ⟨c, cause, hc, hfound, fun c' hc' => ?_, (h.decode_eq hb hfields).trans herror⟩
  have hnot := hfirst c' hc'
  rwa [h.storageLen hb (Nat.lt_trans hc' hc)] at hnot

end Carried

/-- Whatever rows a builder takes, a decoder of the same types shows each of their
values in its place.  The columns have to be as wide as their types, and what is
compressed has to be restored. -/
theorem decode_built {oids lens : List UInt32} {made : BatchBuilder} {compression : Compression}
    {pack : Codec → Bytes → Except WireError Bytes} {body : Bytes}
    (hmake : make oids lens = .ok made)
    (hwide : ∀ c < oids.length, ¬Narrow (oids.getD c 0) (lens.getD c 0).toNat)
    (hpack : ∀ codec, compression = .block codec → Restores codec (pack codec))
    (hbody : BatchBuilder.body { made with compression, pack } rows = .ok body) :
    ∃ g, RowGrid.decode oids body = .ok g ∧ g.rows = rows.length ∧ g.cols = oids.length ∧
      ∀ r (hr : r < rows.length), ∃ harity : rows[r].length = oids.length,
        ∀ c (hc : c < oids.length),
          g.get? r c = some (rows[r][c].shown (oids.getD c 0) (lens.getD c 0).toNat) := by
  obtain ⟨hmade, rfl, rfl⟩ := make_ok hmake
  have hsound : Sound { made with compression, pack } := ⟨hmade.lens, hmade.count, hmade.nonzero⟩
  obtain ⟨batch, hbatch, hfields⟩ := body_ok hbody
  obtain ⟨columns, hcarries⟩ := batch_ok hbatch
  obtain ⟨g, hg, hshows⟩ := hcarries.shows hsound hfields hwide hpack
  refine ⟨g, hg, hshows.rows, hshows.cols, fun r hr => ?_⟩
  have harity : rows[r].length = made.oids.length := hcarries.arity _ (List.getElem_mem hr)
  refine ⟨harity, fun c hc => ?_⟩
  obtain ⟨v, hv, hfound⟩ := hshows.inside r c hr hc
  obtain ⟨content, hresult, -, hraw⟩ := hcarries.cell hsound hr hc
  rw [hraw, CellValue.decodeCell_result (hwide c hc) hresult] at hv
  rw [hfound, ← Except.ok.inj hv, List.getD_eq_getElem _ _ (harity ▸ hc)]

def readings : List (List CellValue) :=
  [[.int 7, .bytes [97, 98, 0, 99]], [.null, .null]]

theorem decode_readings :
    ∃ made body g, make [23, 1043] [4, 8] = .ok made ∧
      BatchBuilder.body
        ⟨made.oids, made.storageLens, .lz4, fun codec content => .ok (codec.compress content)⟩
        readings = .ok body ∧
      RowGrid.decode [23, 1043] body = .ok g ∧ g.rows = 2 ∧ g.cols = 2 ∧
      g.get? 0 0 = some [7, 0, 0, 0] ∧ g.get? 0 1 = some [97, 98] ∧
      g.get? 1 0 = some [0, 0, 0, 0] ∧ g.get? 1 1 = some [] := by
  have hmake : make [23, 1043] [4, 8] =
      .ok { oids := [23, 1043], storageLens := [4, 8], compression := configured {} } := rfl
  have hwide : ∀ c < 2, ¬Narrow (([23, 1043] : List UInt32).getD c 0)
      (([4, 8] : List UInt32).getD c 0).toNat := by
    decide
  obtain ⟨body, hbody⟩ : ∃ body, BatchBuilder.body ⟨[23, 1043], [4, 8], .lz4,
      fun codec content => .ok (codec.compress content)⟩ readings = .ok body :=
    Outcome.exists_of_isOk (by decide)
  obtain ⟨g, hg, hrows, hcols, hcells⟩ := decode_built hmake hwide
    (fun codec _ => restores_compress codec) hbody
  obtain ⟨_, hfirst⟩ := hcells 0 (by decide)
  obtain ⟨_, hsecond⟩ := hcells 1 (by decide)
  exact ⟨_, body, g, hmake, hbody, hg, hrows, hcols, hfirst 0 (by decide), hfirst 1 (by decide),
    hsecond 0 (by decide), hsecond 1 (by decide)⟩

end BatchBuilder
end SeriesWire
