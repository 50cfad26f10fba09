/-
Building row batches.  The cells of a column stand together, each as wide as the
column is declared, and the blocks of all columns are compressed as one.
-/
import SeriesWire.Cell.Result
import SeriesWire.Message.RowBatch
import SeriesWire.Settings

namespace SeriesWire

structure BatchBuilder where
  oids : List UInt32
  storageLens : List UInt32
  compression : Compression
  /-- How a codec compresses.  The same content has many blocks, and a decoder
  takes any of them. -/
  pack : Codec → Bytes → Except WireError Bytes :=
    fun codec content => .ok (codec.compress content)

namespace BatchBuilder

/-- The compression that the settings name, lz4 if they name none. -/
def configured (s : CodecSettings) : Compression :=
  (Compression.ofName? s.resultCompression).getD .lz4

def make (oids storageLens : List UInt32) : Except WireError BatchBuilder := do
  if oids.length ≠ storageLens.length then
    throw (.malformed (.batch (.lengths oids.length storageLens.length)))
  if oids.length = 0 ∨ RowBatch.maxColumns < oids.length then
    throw (.malformed (.batch (.columnCount oids.length RowBatch.maxColumns)))
  match storageLens.findIdx? (· == 0) with
  | some column => throw (.malformed (.batch (.zeroStorage column)))
  | none => return { oids, storageLens, compression := configured {} }

def columnBytes (rows : List (List CellValue)) (oid : UInt32) (width column : Nat) :
    Except WireError Bytes := do
  let cells ← rows.zipIdx.mapM fun (row, r) => WireError.inCell r column <|
    ((row.getD column .null).result oid width).map (Bytes.fit width)
  return cells.flatten

/-- The columns from number `column` on, whose blocks begin at `start`. -/
def blocks (rows : List (List CellValue)) (column start : Nat) :
    List (UInt32 × UInt32) → Except WireError (List (ColumnBlock × Bytes))
  | [] => .ok []
  | (oid, len) :: rest => do
    if Bytes.space 4 ≤ start then throw (.range "block offset" (.offset start))
    let block ← columnBytes rows oid len.toNat column
    let more ← blocks rows (column + 1) (start + len.toNat * rows.length) rest
    return (⟨len, UInt32.ofNat start⟩, block) :: more

/-- A block behind its two sizes. -/
def framed (pack : Bytes → Except WireError Bytes) (content : Bytes) : Except WireError Bytes := do
  let packed ← pack content
  for size in [content.length, packed.length] do
    if Bytes.space 4 ≤ size then throw (.range "compressed block" (.blockSize size))
  return Bytes.ofNatBE 4 content.length ++ Bytes.ofNatBE 4 packed.length ++ packed

def payload (b : BatchBuilder) (content : Bytes) : Except WireError Bytes :=
  match b.compression with
  | .plain => .ok content
  | .block codec => framed (b.pack codec) content

def batch (b : BatchBuilder) (rows : List (List CellValue)) : Except WireError RowBatch := do
  if rows.isEmpty then throw (.malformed (.batch .noRows))
  match rows.zipIdx.find? fun (row, _) => row.length ≠ b.oids.length with
  | some (row, r) => throw (.malformed (.batch (.arity r row.length b.oids.length)))
  | none => pure ()
  if Bytes.space 4 ≤ rows.length then throw (.range "row count" (.rows rows.length))
  let columns ← blocks rows 0 0 (b.oids.zip b.storageLens)
  let payload ← b.payload (columns.map (·.2)).flatten
  return {
    rowNum := UInt32.ofNat rows.length
    colNum := UInt16.ofNat b.oids.length
    rowSize := UInt32.ofNat
      (min (Bytes.totalLen (b.storageLens.map (·.toNat))) (Bytes.space 4 - 1))
    columns := columns.map (·.1)
    capacity := UInt32.ofNat rows.length
    compression := b.compression
    payload }

def encode (b : BatchBuilder) (rows : List (List CellValue)) : SendM Unit :=
  match b.batch rows with
  | .ok batch => batch.encode
  | .error e => throw e

def body (b : BatchBuilder) (rows : List (List CellValue)) : Except WireError Bytes :=
  match b.encode rows [] with
  | .ok () message => .ok (message.drop Frame.headLen)
  | .error e _ => .error e

end BatchBuilder
end SeriesWire
