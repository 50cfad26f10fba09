/-
Compressed batches.  A decoder keeps the buffer that it inflates into, and a codec
is whatever writes over that buffer.  What the codec leaves there is decoded like
the payload of a plain batch with the same columns (`BatchDecoder.decode_packed`);
nothing depends on what earlier batches left, nor on any other codec.
-/
import SeriesWire.Proofs.Batch.Decoder

namespace SeriesWire

open Bytes

/-! ## Decoders -/

/-- A codec as a decoder calls it.  It gets a block and a buffer, writes over the
buffer, and says how many bytes it produced, or nothing if it cannot read the
block. -/
abbrev Unpacker : Type := Codec → Bytes → Bytes → Option Nat × Bytes

/-- The codecs write what is in the block over the start of the buffer. -/
def Codec.unpack : Unpacker := fun codec block buffer =>
  match codec.decompress? buffer.length block with
  | none => (none, buffer)
  | some content => (some content.length, buffer.overwrite 0 content)

theorem overwrite_zeros {content : Bytes} {size : Nat} (h : content.length = size) :
    (zeros size).overwrite 0 content = content := by
  rw [overwrite, List.take_zero, List.nil_append, Nat.zero_add,
    List.drop_of_length_le (Nat.le_of_eq ((length_zeros size).trans h.symm)), List.append_nil]

/-- The buffer is filled exactly if the block has as much in it. -/
theorem Codec.unpack_eq_some {codec : Codec} {block content : Bytes} {size : Nat} :
    codec.unpack block (zeros size) = (some size, content) ↔
      codec.decompress? size block = some content ∧ content.length = size := by
  rw [unpack, length_zeros]
  cases codec.decompress? size block with
  | none =>
    constructor
    · intro h
      cases h
    · rintro ⟨h, -⟩
      cases h
  | some found =>
    rw [Prod.mk.injEq, Option.some.injEq, Option.some.injEq]
    constructor
    · rintro ⟨hlen, rfl⟩
      rw [overwrite_zeros hlen]
      exact ⟨rfl, hlen⟩
    · rintro ⟨rfl, hlen⟩
      exact ⟨hlen, overwrite_zeros hlen⟩

/-- The columns of a batch whose blocks are in `source`. -/
def RowBatch.gridFrom (b : RowBatch) (oids : List UInt32) (source : Bytes) (region : String) :
    Except WireError RowGrid := do
  let blocks ← b.columns.zipIdx.mapM fun (c, i) => columnBytes source region b.rowNum.toNat i c
  let cells ← decodeColumns b.rowNum.toNat 0 #[] (oids.zip (b.columns.zip blocks))
  return { rows := b.rowNum.toNat, cols := b.colNum.toNat, cells }

/-- What is registered, and a buffer with whatever the last batch left in it. -/
structure BatchDecoder where
  oids : List UInt32
  scratch : Bytes

namespace BatchDecoder

/-- Inflate the single block of `payload` into the buffer. -/
def inflate (unpack : Unpacker) (codec : Codec) (payload scratch : Bytes) :
    Except WireError Unit × Bytes :=
  if payload.length < RowBatch.blockHeadLen then
    (.error (.malformed (.batch (.blockHeader payload.length))), scratch)
  else
    let uncompressed := toNatBE (payload.slice 0 4)
    let compressed := toNatBE (payload.slice 4 4)
    let block := payload.drop RowBatch.blockHeadLen
    if block.length ≠ compressed then
      (.error (.malformed (.batch (.blockLength block.length compressed))), scratch)
    else if RowBatch.inflationLimit compressed < uncompressed then
      (.error (.malformed (.batch (.inflation compressed uncompressed))), scratch)
    else
      -- The buffer is emptied and filled up with zeros before the codec gets it.
      let (produced, scratch) := unpack codec block (fit uncompressed (scratch.take 0))
      match produced with
      | none => (.error (.decompression codec.name .undecodable), scratch)
      | some n =>
        if n = uncompressed then (.ok (), scratch)
        else (.error (.decompression codec.name (.size n uncompressed)), scratch)

/-- Decode a body; the decoder comes back with its buffer as it is left. -/
def decode (unpack : Unpacker) (d : BatchDecoder) (body : Bytes) :
    Except WireError RowGrid × BatchDecoder :=
  match RowBatch.decode body with
  | .error e => (.error e, d)
  | .ok b =>
    if d.oids.length ≠ b.colNum.toNat then
      (.error (.malformed (.batch (.registered d.oids.length b.colNum.toNat))), d)
    else
      match b.compression with
      | .plain => (b.gridFrom d.oids b.payload "payload", d)
      | .block codec =>
        let (inflated, scratch) := inflate unpack codec b.payload d.scratch
        (inflated >>= fun _ => b.gridFrom d.oids scratch "decompressed block", { d with scratch })

/-- With the codecs of the library the buffer ends up with the content of the
block. -/
theorem inflate_unpack (codec : Codec) (payload scratch : Bytes) :
    (inflate Codec.unpack codec payload scratch).1.map
        (fun _ => (inflate Codec.unpack codec payload scratch).2) =
      RowBatch.inflate (.block codec) payload := by
  rw [inflate, RowBatch.inflate]
  dsimp only
  split
  · rfl
  split
  · rfl
  split
  · rfl
  generalize toNatBE (payload.slice 0 4) = size
  generalize payload.drop RowBatch.blockHeadLen = block
  rw [Compression.inflate, Codec.inflate, Codec.unpack, List.take_zero, fit_nil, length_zeros]
  cases codec.decompress? size block with
  | none => rfl
  | some content =>
    dsimp only
    by_cases hlen : content.length = size
    · rw [if_pos hlen, if_pos hlen, overwrite_zeros hlen]
      rfl
    · rw [if_neg hlen, if_neg hlen]
      rfl

theorem grid_eq_gridFrom (b : RowBatch) (oids : List UInt32) :
    b.grid oids =
      if oids.length ≠ b.colNum.toNat then
        .error (.malformed (.batch (.registered oids.length b.colNum.toNat)))
      else b.source >>= fun (source, region) => b.gridFrom oids source region := by
  rw [RowBatch.grid]
  split <;> rfl

/-- The decoder decodes as if it had no buffer. -/
theorem decode_unpack (d : BatchDecoder) (body : Bytes) :
    (d.decode Codec.unpack body).1 = RowGrid.decode d.oids body := by
  rw [decode, RowGrid.decode]
  cases RowBatch.decode body with
  | error e => rfl
  | ok b =>
    rw [Outcome.ok_bind, grid_eq_gridFrom]
    dsimp only
    split
    · rfl
    rw [RowBatch.source]
    cases b.compression with
    | plain => rfl
    | block codec =>
      dsimp only
      rw [← inflate_unpack codec b.payload d.scratch]
      cases (inflate Codec.unpack codec b.payload d.scratch).1 <;> rfl

end BatchDecoder

/-! ## Regions -/

/-- The same error, with the block of a column said to lie in `region`. -/
def WireError.inRegion (region : String) : WireError → WireError
  | .bounds (.block column start rows width _ size) =>
    .bounds (.block column start rows width region size)
  | e => e

namespace RowBatch

theorem columnBytes_inRegion (source : Bytes) (region region' : String) (rows column : Nat)
    (c : ColumnBlock) :
    (columnBytes source region rows column c).mapError (WireError.inRegion region') =
      columnBytes source region' rows column c := by
  simp only [columnBytes]
  split <;> rfl

/-- The cells know nothing of the region. -/
theorem decodeCells_inRegion (region : String) (oid : UInt32) (width column row : Nat)
    (done : Array Bytes) (count : Nat) (block : Bytes) :
    (decodeCells oid width column row done count block).mapError (WireError.inRegion region) =
      decodeCells oid width column row done count block := by
  induction count generalizing row done block with
  | zero => rfl
  | succ count ih =>
    rw [decodeCells]
    split
    · rfl
    · exact ih _ _ _

theorem decodeColumns_inRegion (region : String) (rows column : Nat) (done : Array Bytes)
    (columns : List (UInt32 × ColumnBlock × Bytes)) :
    (decodeColumns rows column done columns).mapError (WireError.inRegion region) =
      decodeColumns rows column done columns := by
  induction columns generalizing column done with
  | nil => rfl
  | cons first rest ih =>
    obtain ⟨oid, c, block⟩ := first
    have hcells :=
      decodeCells_inRegion region oid c.storageLen.toNat column 0 done rows block
    rw [decodeColumns]
    cases hdecoded : decodeCells oid c.storageLen.toNat column 0 done rows block with
    | error e =>
      rw [hdecoded] at hcells
      exact congrArg Except.error (Except.error.inj hcells)
    | ok done => exact ih _ _

theorem gridFrom_inRegion (b : RowBatch) (oids : List UInt32) (source : Bytes)
    (region region' : String) :
    (b.gridFrom oids source region).mapError (WireError.inRegion region') =
      b.gridFrom oids source region' := by
  rw [gridFrom, gridFrom, Outcome.mapError_bind, Outcome.mapError_mapM]
  simp only [columnBytes_inRegion]
  refine congrArg _ (funext fun blocks => ?_)
  rw [Outcome.mapError_bind, decodeColumns_inRegion]
  rfl

/-! ## The plain batch -/

/-- `body` is read as `b`, but for a plain payload, which is `content`, and for the
row size, which no decoder looks at. -/
def PlainIn (b : RowBatch) (content body : Bytes) : Prop :=
  ∃ rowSize, decode body = .ok { b with rowSize, compression := .plain, payload := content }

end RowBatch

namespace BatchBody

variable {body : Bytes} {b : RowBatch}

/-- The metadata of `body` in front of another payload, which is a plain one. -/
def plain (body content : Bytes) : Bytes :=
  body.take (column (colNum body) + 4) ++ (ofIntBE 2 2 ++ content)

theorem batch_of_decode (h : RowBatch.decode body = .ok b) :
    Shaped body ∧ ∃ c, b = batch body c := by
  by_cases hshaped : Shaped body ∧ ∃ c, Compression.ofTag (tag body) = .ok c
  · obtain ⟨hshaped, c, htag⟩ := hshaped
    rw [decode_shaped hshaped htag] at h
    exact ⟨hshaped, c, (Except.ok.inj h).symm⟩
  · obtain ⟨cause, hcause⟩ := decode_of_not_shaped hshaped
    rw [hcause] at h
    cases h

theorem slice_plain (h : Shaped body) (content : Bytes) {start len : Nat}
    (hle : start + len ≤ column (colNum body) + 4) :
    (plain body content).slice start len = body.slice start len := by
  have hmetadata := h.metadata
  have hlen : (body.take (column (colNum body) + 4)).length = column (colNum body) + 4 :=
    List.length_take_of_le (by omega)
  rw [plain, slice_append_of_le (by omega), ← slice_zero, slice_slice hle, Nat.zero_add]

/-- The body is read as the same batch with a plain payload. -/
theorem decode_plain (h : RowBatch.decode body = .ok b) (content : Bytes) :
    RowBatch.decode (plain body content) =
      .ok { b with compression := .plain, payload := content } := by
  obtain ⟨hshaped, c, rfl⟩ := batch_of_decode h
  have hmetadata := hshaped.metadata
  have hroom : 14 ≤ column (colNum body) + 4 := by
    rw [column]
    omega
  have hfront : (body.take (column (colNum body) + 4)).length = column (colNum body) + 4 :=
    List.length_take_of_le (by omega)
  have hrows : rowNum (plain body content) = rowNum body :=
    congrArg toNatBE (slice_plain hshaped content (by omega))
  have hcols : colNum (plain body content) = colNum body :=
    congrArg toNatBE (slice_plain hshaped content (by omega))
  have hwidth : ∀ c < colNum body, width (plain body content) c = width body c := fun c hc =>
    congrArg toNatBE (slice_plain hshaped content (by simp only [column]; omega))
  have hoffset : ∀ c < colNum body, offset (plain body content) c = offset body c := fun c hc =>
    congrArg toNatBE (slice_plain hshaped content (by simp only [column]; omega))
  have htag : tag (plain body content) = 2 := by
    have hfound := slice_append (body.take (column (colNum body) + 4)) (ofIntBE 2 2) content
    rw [hfront, length_ofIntBE] at hfound
    rw [tag, hcols, plain, hfound]
    exact toIntBE_ofIntBE (by decide)
  have hlen : (plain body content).length = column (colNum body) + 6 + content.length := by
    rw [plain, List.length_append, List.length_append, hfront, length_ofIntBE]
    omega
  have hpayload : payload (plain body content) = content := by
    rw [payload, hcols, plain, ← List.append_assoc]
    exact List.drop_left' (by rw [List.length_append, hfront, length_ofIntBE])
  have hplain : Shaped (plain body content) :=
    { counts := by omega
      rowNum := hrows ▸ hshaped.rowNum
      colNum := hcols ▸ hshaped.colNum
      metadata := by rw [hcols]; omega
      width := fun c hc => by
        rw [hcols] at hc
        rw [hwidth c hc]
        exact hshaped.width c hc }
  rw [decode_shaped hplain (ofTag_eq_plain.2 htag)]
  simp only [batch, hrows, hcols, hpayload,
    slice_plain hshaped content (show 6 + 4 ≤ _ by omega),
    slice_plain hshaped content (Nat.le_refl (column (colNum body) + 4))]
  refine congrArg Except.ok ?_
  congr 1
  refine List.map_congr_left fun c hc => ?_
  rw [List.mem_range] at hc
  rw [hwidth c hc, hoffset c hc]

end BatchBody

/-! ## Blocks and their content -/

/-- `body` holds `block`, announced as `size` bytes packed by `codec`, which is no
more than a block of its length can hold. -/
structure BatchBody.Packed (body : Bytes) (b : RowBatch) (codec : Codec) (size : Nat)
    (block : Bytes) : Prop where
  decode : RowBatch.decode body = .ok b
  compression : b.compression = .block codec
  payload : b.payload = ofNatBE 4 size ++ (ofNatBE 4 block.length ++ block)
  size_lt : size < space 4
  length_lt : block.length < space 4
  bounded : size ≤ RowBatch.inflationLimit block.length

namespace BatchDecoder

variable {unpack : Unpacker} {d : BatchDecoder} {codec : Codec} {body block scratch content : Bytes}
  {b : RowBatch} {size : Nat}

/-- The header of the block is as announced, so that the codec comes to see the
block and a buffer of zeros. -/
theorem inflate_packed (h : BatchBody.Packed body b codec size block) :
    inflate unpack codec b.payload scratch =
      match unpack codec block (zeros size) with
      | (none, left) => (.error (.decompression codec.name .undecodable), left)
      | (some n, left) =>
        if n = size then (.ok (), left)
        else (.error (.decompression codec.name (.size n size)), left) := by
  have huncompressed : toNatBE (b.payload.slice 0 4) = size := by
    rw [h.payload, slice_zero, List.take_left' (length_ofNatBE _ _),
      toNatBE_ofNatBE_of_lt h.size_lt]
  have hcompressed : toNatBE (b.payload.slice 4 4) = block.length := by
    have hfound := slice_append (ofNatBE 4 size) (ofNatBE 4 block.length) block
    rw [length_ofNatBE, length_ofNatBE] at hfound
    rw [h.payload, hfound, toNatBE_ofNatBE_of_lt h.length_lt]
  have hblock : b.payload.drop RowBatch.blockHeadLen = block := by
    rw [h.payload, ← List.append_assoc]
    exact List.drop_left' (by rw [List.length_append, length_ofNatBE, length_ofNatBE]; rfl)
  have hlen : ¬b.payload.length < RowBatch.blockHeadLen := by
    simp only [h.payload, List.length_append, length_ofNatBE, RowBatch.blockHeadLen]
    omega
  rw [inflate, if_neg hlen]
  dsimp only
  rw [huncompressed, hcompressed, hblock, if_neg (not_not_intro rfl),
    if_neg (Nat.not_lt_of_le h.bounded), List.take_zero, fit_nil]
  obtain ⟨produced, left⟩ := unpack codec block (zeros size)
  cases produced <;> rfl

theorem decode_plainIn (h : b.PlainIn content body) :
    (d.decode unpack body).1 =
      if d.oids.length ≠ b.colNum.toNat then
        .error (.malformed (.batch (.registered d.oids.length b.colNum.toNat)))
      else b.gridFrom d.oids content "payload" := by
  obtain ⟨rowSize, hbody⟩ := h
  rw [decode, hbody]
  dsimp only
  split <;> rfl

theorem decode_block (h : BatchBody.Packed body b codec size block) :
    (d.decode unpack body).1 =
      if d.oids.length ≠ b.colNum.toNat then
        .error (.malformed (.batch (.registered d.oids.length b.colNum.toNat)))
      else
        match unpack codec block (zeros size) with
        | (none, _) => .error (.decompression codec.name .undecodable)
        | (some n, left) =>
          if n = size then b.gridFrom d.oids left "decompressed block"
          else .error (.decompression codec.name (.size n size)) := by
  rw [decode, h.decode]
  dsimp only
  split
  · rfl
  rw [h.compression]
  dsimp only
  rw [inflate_packed h]
  obtain ⟨produced, left⟩ := unpack codec block (zeros size)
  cases produced with
  | none => rfl
  | some n =>
    dsimp only
    split <;> rfl

/-- A compressed batch is decoded like the plain one with its content, or not at
all.  The codec that the body names is the only one asked, and neither decoder
shows what its buffer held before. -/
theorem decode_packed :
    (∀ (d : BatchDecoder) body, (d.decode Codec.unpack body).1 = RowGrid.decode d.oids body) ∧
    (∀ body b content, RowBatch.decode body = .ok b →
      b.PlainIn content (BatchBody.plain body content)) ∧
    ∀ (unpack : Unpacker) (oids : List UInt32) (scratch scratch' : Bytes) body b codec size block
      content plain, BatchBody.Packed body b codec size block → b.PlainIn content plain →
      let outcome := (BatchDecoder.decode unpack ⟨oids, scratch⟩ body).1
      let outcome' := (BatchDecoder.decode unpack ⟨oids, scratch'⟩ plain).1
      (unpack codec block (zeros size) = (some size, content) →
        outcome = outcome'.mapError (WireError.inRegion "decompressed block")) ∧
      ((unpack codec block (zeros size)).1 ≠ some size →
        (oids.length = b.colNum.toNat ∧
          ∃ cause, outcome = .error (.decompression codec.name cause)) ∨
        (oids.length ≠ b.colNum.toNat ∧ outcome = outcome' ∧
          outcome = .error (.malformed (.batch (.registered oids.length b.colNum.toNat))))) := by
  refine ⟨decode_unpack, fun body b content h => ⟨_, BatchBody.decode_plain h content⟩, ?_⟩
  intro unpack oids scratch scratch' body b codec size block content plain hpacked hplain
  dsimp only
  rw [decode_block hpacked, decode_plainIn hplain]
  dsimp only
  by_cases hoids : oids.length ≠ b.colNum.toNat
  · rw [if_pos hoids, if_pos hoids]
    exact ⟨fun _ => rfl, fun _ => .inr ⟨hoids, rfl, rfl⟩⟩
  rw [if_neg hoids, if_neg hoids]
  constructor
  · intro hunpack
    rw [hunpack, RowBatch.gridFrom_inRegion]
    exact if_pos rfl
  · intro hfails
    refine .inl ⟨Classical.not_not.1 hoids, ?_⟩
    generalize unpack codec block (zeros size) = answer at hfails ⊢
    obtain ⟨produced, left⟩ := answer
    cases produced with
    | none => exact ⟨_, rfl⟩
    | some n => exact ⟨_, if_neg fun hn => hfails (congrArg some hn)⟩

def packedBatch : RowBatch :=
  { rowNum := 1
    colNum := 1
    rowSize := 4
    columns := [⟨4, 0⟩]
    capacity := 0
    compression := .snappy
    payload := [0, 0, 0, 4, 0, 0, 0, 6, 4, 12, 7, 0, 0, 0] }

/-- A row of one `int4`, stored by Snappy. -/
def packedBody : Bytes :=
  [0, 0, 0, 1, 0, 1, 0, 0, 0, 4, 0, 0, 0, 4, 0, 0, 0, 0, 0, 0, 0, 0, 0, 3] ++ packedBatch.payload

theorem decode_packedBody :
    BatchBody.Packed packedBody packedBatch .snappy 4 [4, 12, 7, 0, 0, 0] ∧
      Codec.unpack .snappy [4, 12, 7, 0, 0, 0] (zeros 4) = (some 4, [7, 0, 0, 0]) ∧
      (BatchDecoder.decode Codec.unpack ⟨[23], [9, 9]⟩ packedBody).1 =
        (RowGrid.decode [23] (BatchBody.plain packedBody [7, 0, 0, 0])).mapError
          (WireError.inRegion "decompressed block") := by
  have hpacked : BatchBody.Packed packedBody packedBatch .snappy 4 [4, 12, 7, 0, 0, 0] :=
    ⟨rfl, rfl, rfl, by decide, by decide, by decide⟩
  have hunpack : Codec.unpack .snappy [4, 12, 7, 0, 0, 0] (zeros 4) = (some 4, [7, 0, 0, 0]) :=
    Codec.unpack_eq_some.2 ⟨by decide +kernel, rfl⟩
  obtain ⟨hsame, hplain, hpair⟩ := decode_packed
  have hplain := hplain packedBody packedBatch [7, 0, 0, 0] rfl
  obtain ⟨hfilled, -⟩ := hpair Codec.unpack [23] [9, 9] [] _ _ _ _ _ _ _ hpacked hplain
  exact ⟨hpacked, hunpack, (hfilled hunpack).trans (by rw [hsame])⟩

end BatchDecoder
end SeriesWire
