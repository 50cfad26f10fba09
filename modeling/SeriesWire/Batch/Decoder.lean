/-
Decoding row batches.  The payload, inflated if it is compressed, holds one
block per column.  Every block is checked against the payload before the first
cell is read.
-/
import SeriesWire.Batch.Grid
import SeriesWire.Cell.Decode
import SeriesWire.Message.RowBatch

namespace SeriesWire
namespace RowBatch

def blockHeadLen : Nat := 8

/-- The most that `compressed` bytes can inflate to.  No codec expands a block
by more, so larger claims are refused before anything is allocated for them. -/
def inflationLimit (compressed : Nat) : Nat := compressed * 255 + 64

/-- The content of the single compressed block that makes up `payload`. -/
def inflate (c : Compression) (payload : Bytes) : Except WireError Bytes :=
  if payload.length < blockHeadLen then
    .error (.malformed (.batch (.blockHeader payload.length)))
  else
    let uncompressed := Bytes.toNatBE (payload.slice 0 4)
    let compressed := Bytes.toNatBE (payload.slice 4 4)
    let block := payload.drop blockHeadLen
    if block.length ≠ compressed then
      .error (.malformed (.batch (.blockLength block.length compressed)))
    else if inflationLimit compressed < uncompressed then
      .error (.malformed (.batch (.inflation compressed uncompressed)))
    else c.inflate uncompressed block

/-- The bytes that hold the column blocks, and what they are called. -/
def source (b : RowBatch) : Except WireError (Bytes × String) :=
  match b.compression with
  | .plain => .ok (b.payload, "payload")
  | c => (inflate c b.payload).map fun content => (content, "decompressed block")

def columnBytes (source : Bytes) (region : String) (rows column : Nat) (c : ColumnBlock) :
    Except WireError Bytes :=
  let start := c.offset.toNat
  let width := c.storageLen.toNat
  if source.length ≤ start ∨ source.length < start + rows * width then
    .error (.bounds (.block column start rows width region source.length))
  else .ok (source.slice start (rows * width))

/-- Decode `count` cells of a column from row `row` on, behind those in
`done`. -/
def decodeCells (oid : UInt32) (width column row : Nat) (done : Array Bytes) :
    Nat → Bytes → Except WireError (Array Bytes)
  | 0, _ => .ok done
  | count + 1, block =>
    match decodeCell oid (block.take width) with
    | .error e => .error (.cell row column e)
    | .ok cell => decodeCells oid width column (row + 1) (done.push cell) count (block.drop width)

def decodeColumns (rows column : Nat) (done : Array Bytes) :
    List (UInt32 × ColumnBlock × Bytes) → Except WireError (Array Bytes)
  | [] => .ok done
  | (oid, c, block) :: rest =>
    match decodeCells oid c.storageLen.toNat column 0 done rows block with
    | .error e => .error e
    | .ok done => decodeColumns rows (column + 1) done rest

def grid (b : RowBatch) (oids : List UInt32) : Except WireError RowGrid := do
  if oids.length ≠ b.colNum.toNat then
    throw (.malformed (.batch (.registered oids.length b.colNum.toNat)))
  let (source, region) ← b.source
  let rows := b.rowNum.toNat
  let blocks ← b.columns.zipIdx.mapM fun (c, i) => columnBytes source region rows i c
  let cells ← decodeColumns rows 0 #[] (oids.zip (b.columns.zip blocks))
  return { rows, cols := b.colNum.toNat, cells }

end RowBatch

def RowGrid.decode (oids : List UInt32) (body : Bytes) : Except WireError RowGrid := do
  (← RowBatch.decode body).grid oids

end SeriesWire
