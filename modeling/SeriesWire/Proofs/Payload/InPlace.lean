/-
Rows packed in place.  A packer computes blocks and lays them over the bytes of a
buffer, and a block that reaches beyond them makes them longer.  Here the same rows are
written into bytes of a fixed length, part by part: every slice is cut out of what there
is, every value and column is looked up, and the steps give up (`none`) as soon as one of
them reaches outside.  An error leaves the bytes as they are by then.
-/
import SeriesWire.Payload.Packer
import SeriesWire.Proofs.Payload.Guarded

namespace SeriesWire

open Bytes

/-- Steps on bytes that come to a value or to an error, or to nothing at all if they
reach outside. -/
abbrev InPlace (α : Type) : Type := ExceptT WireError (StateT Bytes Option) α

namespace InPlace

open Guarded (cut? minus?)

variable {α : Type}

/-- What the steps come to, and the bytes that they leave. -/
def on (steps : InPlace α) (data : Bytes) : Option (Except WireError α × Bytes) :=
  StateT.run (ExceptT.run steps) data

/-! ## Accesses -/

/-- What lies somewhere, if it is there. -/
def reach (found : Option α) : InPlace α := ExceptT.lift (StateT.lift found)

/-- A step that looks before it writes. -/
def report (outcome : Except WireError α) : InPlace α := ExceptT.mk (pure outcome)

/-- The bytes from `start` up to `stop`. -/
def cut (start stop : Nat) : InPlace Bytes := do reach (cut? (← get) start stop)

/-- Copy `src` over the bytes from `start` up to `stop`, of which there must be as
many. -/
def copy (start stop : Nat) (src : Bytes) : InPlace Unit := do
  let old ← cut start stop
  if src.length = old.length then set ((← get).overwrite start src) else reach none

def clear (start stop : Nat) : InPlace Unit := copy start stop (zeros (stop - start))

/-! ## Values -/

/-- Store the value of column `i` in a slot at `slot`, in front of `limit`, and its
entry `offset` bytes behind `limit`.  The widths that it took are left. -/
def cell (s : Shape) (row : List CellValue) (index i slot width limit offset : Nat)
    (primary : Bool) : InPlace (Nat × Nat) := do
  let column ← reach s.columns[i]?
  let value ← reach row[i]?
  let fixed ← cut 0 limit
  let region ← cut limit (← get).length
  let dest ← reach (cut? fixed slot (slot + width))
  let placed := value.place column.type.oid dest column.width region offset primary
  copy slot (slot + width) placed.dest
  copy limit (limit + region.length) placed.region
  report (WireError.inCell index i placed.outcome)

/-- Mark a missing value in the bitmap from `start` up to `stop`, in front of `limit`. -/
def mark (start stop limit bit : Nat) : InPlace Unit := do
  let fixed ← cut 0 limit
  let bitmap ← reach (cut? fixed start stop)
  copy start stop (← reach (Bitmap.mark? bitmap bit))

/-- Where the bitmap, the slots and the entries of a section start, and how its columns
are taken. -/
structure Strip where
  bitmap : Nat
  slots : Nat
  limit : Nat
  /-- The number of the column whose bit comes first. -/
  first : Nat
  width : Column → Nat
  primary : Nat → Bool
  /-- From one slot to the next, by the width of the slot and what was written. -/
  advance : Nat → Nat → Nat

/-- Write the values of the columns `numbers`, `used` bytes of entries being written.  The
length of all entries is left, and whether a value was not missing. -/
def values (s : Shape) (t : Strip) (row : List CellValue) (index : Nat) :
    List Nat → Nat → Nat → Bool → InPlace (Nat × Bool)
  | [], _, used, any => return (used, any)
  | i :: rest, slot, used, any => do
    let column ← reach s.columns[i]?
    let value ← reach row[i]?
    if value.isNull then do
      mark t.bitmap t.slots t.limit (← reach (minus? i t.first))
      values s t row index rest (slot + t.width column) used any
    else do
      let (written, entryLen) ← cell s row index i slot (t.width column) t.limit used (t.primary i)
      values s t row index rest (slot + t.advance (t.width column) written) (used + entryLen) true

/-- Write the primary tags `numbers` one behind the other. -/
def primaries (s : Shape) (row : List CellValue) (index : Nat) : List Nat → Nat → InPlace Unit
  | [], _ => return ()
  | i :: rest, slot => do
    let value ← reach row[i]?
    if value.isNull then throw (.cell index i (.malformed (.row .nullPrimary)))
    let column ← reach s.columns[i]?
    -- Nothing lies behind the bytes, so there is no room for an entry.
    let _ ← cell s row index i slot column.width (← get).length 0 true
    primaries s row index rest (slot + column.width)

/-! ## Rows -/

/-- Tags have the bits behind those of the fields, and slots as wide as declared. -/
def tagStrip (s : Shape) : Strip :=
  { bitmap := s.tagStart
    slots := s.tagStart + Bitmap.size (s.columns.length - s.tagIndex)
    limit := s.varStart
    first := s.tagIndex
    width := (·.width)
    primary := s.isPrimary
    advance := fun width _ => width }

/-- Fields are as wide as what was written. -/
def fieldStrip (s : Shape) (rowStart : Nat) : Strip :=
  let bitmap := rowStart + Payload.rowLenWidth
  let slots := bitmap + Bitmap.size s.tagIndex
  { bitmap, slots
    limit := slots + s.rowSize
    first := 0
    width := (·.slotWidth)
    primary := fun _ => false
    advance := fun _ written => written }

/-- Clear the place of a header, and write what does not depend on the row. -/
def openHeader (p : Packer) : InPlace Unit := do
  let s := p.layout.toShape
  clear 0 s.varStart
  let head ← cut 0 Payload.headLen
  copy 0 Payload.headLen (← reach (p.header.stamp? head))
  copy Payload.headLen (Payload.headLen + Payload.primaryLenWidth)
    (ofNatLE Payload.primaryLenWidth s.primaryLen)

/-- Write the header for `row`.  Where it ends is left. -/
def header (p : Packer) (row : List CellValue) (index : Nat) : InPlace Nat := do
  let s := p.layout.toShape
  let t := tagStrip s
  openHeader p
  primaries s row index s.primaryTags (Payload.headLen + Payload.primaryLenWidth)
  let numbers := List.range' s.tagIndex (s.columns.length - s.tagIndex)
  let (used, any) ← values s t row index numbers t.slots 0 false
  let tagLenStart ← reach (minus? s.tagStart Payload.tagLenWidth)
  copy tagLenStart s.tagStart (ofNatLE Payload.tagLenWidth s.tagSectionLen)
  let rowType : RowType := if any then .tagsAndData else .dataOnly
  copy (Payload.headLen - 1) Payload.headLen [rowType.byte]
  return t.limit + used

/-- Write a row at `rowStart`.  Where it ends is left. -/
def block (p : Packer) (row : List CellValue) (index rowStart : Nat) : InPlace Nat := do
  let s := p.layout.toShape
  let t := fieldStrip s rowStart
  clear rowStart t.limit
  let (used, _) ← values s t row index (List.range' 0 s.tagIndex) t.slots 0 false
  let rowLen := Bitmap.size s.tagIndex + s.rowSize + used
  if space Payload.rowLenWidth ≤ rowLen then throw (.range "row" (.rowLength rowLen))
  copy rowStart t.bitmap (ofNatLE Payload.rowLenWidth rowLen)
  return t.limit + used

/-! ## Buffers -/

/-- Room for the entries of the columns `numbers`, those that `skip` aside. -/
def entriesLen? (s : Shape) (skip : Nat → Bool) (row : List CellValue) (numbers : List Nat) :
    Option Nat := do
  let lengths ← numbers.mapM fun i =>
    if skip i then some 0
    else do
      let column ← s.columns[i]?
      let value ← row[i]?
      return Packer.entryLen column.type value
  return totalLen lengths

def writeHeader (p : Packer) (b : PayloadBuffer) (row : List CellValue) :
    Option (PayloadBuffer × Except WireError Unit) := do
  let s := p.layout.toShape
  let entriesLen ← entriesLen? s s.isPrimary row
    (List.range' s.tagIndex (s.columns.length - s.tagIndex))
  let b := b.ensure (s.varStart + entriesLen + Payload.dataLenWidth) p.extendStep
  match ← (header p row b.rowNum).on b.data with
  | (.error e, data) => return ({ b with data }, .error e)
  | (.ok headTail, data) =>
    return ({ b with data, headTail, tail := headTail + Payload.dataLenWidth }, .ok ())

def writeRow (p : Packer) (b : PayloadBuffer) (row : List CellValue) :
    Option (PayloadBuffer × Except WireError Unit) := do
  let s := p.layout.toShape
  let entriesLen ← entriesLen? s (fun _ => false) row (List.range' 0 s.tagIndex)
  let b := b.ensure (b.tail + Payload.rowLenWidth + (s.rowFixedLen + entriesLen)) p.extendStep
  match ← (block p row b.rowNum b.tail).on b.data with
  | (.error e, data) => return ({ b with data }, .error e)
  | (.ok tail, data) => return ({ b with data, tail, rowNum := b.rowNum + 1 }, .ok ())

/-- The buffer that a row is written to. -/
def opened (p : Packer) (b : PayloadBuffer) (row : List CellValue) :
    Option (PayloadBuffer × Except WireError Unit) :=
  if b.hasHeader then some (b, .ok ()) else writeHeader p b row

def fillRow (p : Packer) (b : PayloadBuffer) (row : List CellValue) :
    Option (PayloadBuffer × Except WireError Unit) :=
  if row.length ≠ p.layout.columns.length then
    some (b, .error (.malformed (.row (.arity row.length p.layout.columns.length))))
  else do
    match ← opened p b row with
    | (headed, .error e) => return (headed, .error e)
    | (headed, .ok ()) =>
      match ← writeRow p headed row with
      | (filled, .ok ()) => return (filled, .ok ())
      | (filled, .error e) =>
        return ({ filled with tail := b.tail, headTail := b.headTail }, .error e)

end InPlace
end SeriesWire
