/-
The row batch message: what a batch says about itself, and its payload, still
packed.
-/
import SeriesWire.Compression
import SeriesWire.Wire.Frame
import SeriesWire.Wire.Reader

namespace SeriesWire

/-- Width of a column's cells and where its block starts in the payload. -/
structure ColumnBlock where
  storageLen : UInt32
  offset : UInt32
  deriving DecidableEq, Repr, Inhabited

structure RowBatch where
  rowNum : UInt32
  colNum : UInt16
  rowSize : UInt32
  columns : List ColumnBlock
  capacity : UInt32
  compression : Compression
  payload : Bytes
  deriving DecidableEq, Repr

namespace RowBatch

def tag : UInt8 := 86

def maxColumns : Nat := 4096

def countsLen : Nat := 10

/-- Length of the metadata behind these: eight bytes per column, the capacity
and the compression. -/
def metadataLen (columns : Nat) : Nat := columns * 8 + 6

def columnFields (c : ColumnBlock) : List Field := [.u32 c.storageLen, .u32 c.offset]

def fields (b : RowBatch) : List Field :=
  [.u32 b.rowNum, .u16 b.colNum, .u32 b.rowSize] ++ b.columns.flatMap columnFields ++
    [.u32 b.capacity, .i16 (Int16.ofInt b.compression.tag), .bytes b.payload]

def encode (b : RowBatch) : SendM Unit :=
  if b.columns.length ≠ b.colNum.toNat then
    throw (.malformed (.batch (.entries b.columns.length b.colNum.toNat)))
  else send tag b.fields

def readColumn : ReadM ColumnBlock := return ⟨← Read.u32, ← Read.u32⟩

/-- Read `count` columns from number `column` on, behind those in `done`. -/
def readColumns (column : Nat) (done : List ColumnBlock) : Nat → ReadM (List ColumnBlock)
  | 0 => fun r => .ok done.reverse r
  | count + 1 => fun r =>
    match readColumn r with
    | .error e r => .error e r
    | .ok c r =>
      if c.storageLen = 0 then .error (.malformed (.batch (.zeroStorage column))) r
      else readColumns (column + 1) (c :: done) count r

def read : ReadM RowBatch := do
  let r ← get
  if r.remaining < countsLen then Read.reject (.batch (.shortBody r.remaining countsLen))
  let rowNum ← Read.u32
  let colNum ← Read.u16
  let rowSize ← Read.u32
  if rowNum = 0 then Read.reject (.batch .rowCount)
  let count := colNum.toNat
  if count = 0 ∨ maxColumns < count then Read.reject (.batch (.columnCount count maxColumns))
  let r ← get
  if !r.has (metadataLen count) then
    Read.reject (.batch (.metadata count (metadataLen count) r.remaining))
  let columns ← readColumns 0 [] count
  let capacity ← Read.u32
  match Compression.ofTag (← Read.i16).toInt with
  | .error e => throw e
  | .ok compression =>
    return { rowNum, colNum, rowSize, columns, capacity, compression, payload := ← Read.rest }

def decode (body : Bytes) : Except WireError RowBatch := Read.run "RowBatch" body read

end RowBatch
end SeriesWire
