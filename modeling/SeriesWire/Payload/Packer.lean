/-
Packing rows.  The header of a payload and each of its rows are laid out as a
block of bytes first.  When a value cannot be stored the block ends early: what
was laid out before the fault still goes into the buffer, but behind the
cursors, which stay where they were.
-/
import SeriesWire.Cell.Store
import SeriesWire.Payload.Buffer

namespace SeriesWire

/-- A value and where it goes: its column, the number under which faults report
it, its bit in the null bitmap, and the width of its slot. -/
structure Placement where
  column : Column
  number : Nat
  bit : Nat
  slotWidth : Nat
  primary : Bool
  value : CellValue

/-- A null bitmap, the slots behind it and the variable entries, as far as they
are laid out.  The entries have `room` bytes. -/
structure Section where
  bitmap : Bytes
  slots : Bytes
  entries : Bytes
  room : Nat
  deriving DecidableEq, Repr

namespace Section

def empty (columns room : Nat) : Section := ⟨Bytes.zeros (Bitmap.size columns), [], [], room⟩

/-- Lay out one value.  A missing one leaves its slot zero. -/
def put (s : Section) (p : Placement) : Except WireError Section :=
  if p.value.isNull then
    .ok
      { s with
        bitmap := Bitmap.mark s.bitmap p.bit
        slots := s.slots ++ Bytes.zeros p.slotWidth }
  else do
    let stored ← p.value.store p.column.type p.column.width s.entries.length p.primary
    stored.checkEntry s.room s.entries.length
    stored.checkSlot p.column.type.oid p.slotWidth
    return { s with
      slots := s.slots ++ stored.slot.fit p.slotWidth
      entries := s.entries ++ stored.entry }

/-- Lay out values in order, up to the first that cannot be stored. -/
def lay (row : Nat) (s : Section) : List Placement → Section × Except WireError Unit
  | [] => (s, .ok ())
  | p :: rest =>
    match s.put p with
    | .ok s' => lay row s' rest
    | .error e => (s, .error (.cell row p.number e))

/-- Bitmap, slots filled up to `width`, and entries. -/
def bytes (s : Section) (width : Nat) : Bytes := s.bitmap ++ s.slots.fit width ++ s.entries

end Section

structure Packer where
  layout : Layout
  header : PayloadHeader := {}
  /-- Least growth of a buffer that runs out of room. -/
  extendStep : Nat

namespace Packer

/-- A packer whose buffers grow by at least one byte at a time. -/
def make (layout : Layout) (header : PayloadHeader) (extendStep : Nat) : Packer :=
  { layout, header, extendStep := max extendStep 1 }

/-- Bytes a value takes outside its slot, whether or not it can be stored. -/
def entryLen (t : ColumnType) (v : CellValue) : Nat :=
  match v with
  | .bytes text => if t.isVariable then (textEntry text).length else 0
  | _ => 0

def tagPlacements (p : Packer) (row : List CellValue) : List Placement :=
  List.zipWith
    (fun (column, number) value =>
      { column, number, value
        bit := number - p.layout.tagIndex
        slotWidth := column.width
        primary := p.layout.isPrimary number })
    p.layout.numberedTags (row.drop p.layout.tagIndex)

def fieldPlacements (p : Packer) (row : List CellValue) : List Placement :=
  List.zipWith
    (fun (column, number) value =>
      { column, number, value, bit := number, slotWidth := column.slotWidth, primary := false })
    p.layout.fields.zipIdx row

/-- The primary tag bytes of a row, up to the first value that cannot be
stored. -/
def primaryBytes (p : Packer) (row : List CellValue) (index : Nat) (done : Bytes) :
    List Nat → Bytes × Except WireError Unit
  | [] => (done, .ok ())
  | number :: rest =>
    let column := p.layout.column number
    let value := row.getD number .null
    if value.isNull then
      (done, .error (.cell index number (.malformed (.row .nullPrimary))))
    else
      let slot : Except WireError Bytes := do
        let stored ← value.store column.type column.width 0 true
        stored.checkSlot column.type.oid column.width
        return stored.slot.fit column.width
      match slot with
      | .error e => (done, .error (.cell index number e))
      | .ok slot => p.primaryBytes row index (done ++ slot) rest

/-- A header block.  `rowType` and `tagLen` are written last, so a header that
ends early has zeros there. -/
def headerBytes (p : Packer) (rowType : UInt8) (primary : Bytes) (tagLen : Nat)
    (tags : Section) : Bytes :=
  p.header.bytes ++ Bytes.zeros 4 ++ [rowType] ++
    Bytes.ofNatLE Payload.primaryLenWidth p.layout.primaryLen ++
    primary.fit p.layout.primaryLen ++ Bytes.ofNatLE Payload.tagLenWidth tagLen ++
    tags.bytes (Bytes.totalLen (p.layout.tags.map (·.width)))

def rowType (tags : List Placement) : RowType :=
  if tags.all (·.value.isNull) then .dataOnly else .tagsAndData

/-- The header for `row`, the row numbered `index`, in a buffer of `capacity`
bytes. -/
def headerBlock (p : Packer) (row : List CellValue) (index capacity : Nat) :
    Bytes × Except WireError Unit :=
  let (primary, primaryOutcome) := p.primaryBytes row index [] p.layout.primaryTags
  let start := Section.empty p.layout.tags.length (capacity - p.layout.varStart)
  match primaryOutcome with
  | .error e => (p.headerBytes 0 primary 0 start, .error e)
  | .ok () =>
    let placements := p.tagPlacements row
    let (tags, outcome) := start.lay index placements
    match outcome with
    | .error e => (p.headerBytes 0 primary 0 tags, .error e)
    | .ok () =>
      (p.headerBytes (rowType placements).byte primary p.layout.tagSectionLen tags, .ok ())

/-- Room for the header of `row`, without the data length behind it. -/
def headerLen (p : Packer) (row : List CellValue) : Nat :=
  let entries := (p.tagPlacements row).map fun t =>
    if t.primary then 0 else entryLen t.column.type t.value
  p.layout.varStart + Bytes.totalLen entries

/-- A row block, `capacity` bytes from the end of its buffer: the length of the
rest, which is written last, and the fields. -/
def rowBlock (p : Packer) (row : List CellValue) (index capacity : Nat) :
    Bytes × Except WireError Unit :=
  let fixedLen := Payload.rowLenWidth + p.layout.rowFixedLen
  let start := Section.empty p.layout.fields.length (capacity - fixedLen)
  let (fields, outcome) := start.lay index (p.fieldPlacements row)
  let body := fields.bytes p.layout.rowSize
  let unfinished := Bytes.zeros Payload.rowLenWidth ++ body
  match outcome with
  | .error e => (unfinished, .error e)
  | .ok () =>
    if Bytes.space Payload.rowLenWidth ≤ body.length then
      (unfinished, .error (.range "row" (.rowLength body.length)))
    else
      (Bytes.ofNatLE Payload.rowLenWidth body.length ++ body, .ok ())

/-- Room for `row` behind the length of its block. -/
def rowLen (p : Packer) (row : List CellValue) : Nat :=
  let entries := (p.fieldPlacements row).map fun f => entryLen f.column.type f.value
  p.layout.rowFixedLen + Bytes.totalLen entries

/-- Write the header for `row` into a buffer that has none. -/
def writeHeader (p : Packer) (b : PayloadBuffer) (row : List CellValue) :
    PayloadBuffer × Except WireError Unit :=
  let b := b.ensure (p.headerLen row + Payload.dataLenWidth) p.extendStep
  let (block, outcome) := p.headerBlock row b.rowNum b.capacity
  let b := b.write 0 block
  match outcome with
  | .error e => (b, .error e)
  | .ok () =>
    ({ b with headTail := block.length, tail := block.length + Payload.dataLenWidth }, .ok ())

/-- Write `row` behind the rows of a buffer that has a header. -/
def writeRow (p : Packer) (b : PayloadBuffer) (row : List CellValue) :
    PayloadBuffer × Except WireError Unit :=
  let b := b.ensure (b.tail + Payload.rowLenWidth + p.rowLen row) p.extendStep
  let (block, outcome) := p.rowBlock row b.rowNum (b.capacity - b.tail)
  let b := b.write b.tail block
  match outcome with
  | .error e => (b, .error e)
  | .ok () => ({ b with tail := b.tail + block.length, rowNum := b.rowNum + 1 }, .ok ())

/-- Append one row, behind a new header if the buffer has none.  After a failure
the cursors are where they were. -/
def fillRow (p : Packer) (b : PayloadBuffer) (row : List CellValue) :
    PayloadBuffer × Except WireError Unit :=
  if row.length ≠ p.layout.columns.length then
    (b, .error (.malformed (.row (.arity row.length p.layout.columns.length))))
  else
    let (headed, outcome) := if b.hasHeader then (b, .ok ()) else p.writeHeader b row
    match outcome with
    | .error e => (headed, .error e)
    | .ok () =>
      match p.writeRow headed row with
      | (filled, .ok ()) => (filled, .ok ())
      | (filled, .error e) => ({ filled with tail := b.tail, headTail := b.headTail }, .error e)

end Packer
end SeriesWire
