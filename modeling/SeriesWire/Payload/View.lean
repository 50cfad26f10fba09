/-
Reading payloads.  `PayloadView.parse` walks over a payload once, front to back,
against the layout it was packed with, and accepts it only if the parts leave
nothing over.
-/
import SeriesWire.Payload.Header

namespace SeriesWire

/-- A place in a payload: how long the payload is, how far it was read, and what
is left. -/
structure PayloadCursor where
  total : Nat
  position : Nat
  rest : Bytes

/-- The next `len` bytes; `what` names them in a fault. -/
def PayloadCursor.take (c : PayloadCursor) (what : String) (len : Nat) :
    Except WireError (Bytes × PayloadCursor) :=
  let taken := c.rest.take len
  if taken.length < len then .error (.bounds (.read what c.position len c.total))
  else .ok (taken, { c with position := c.position + len, rest := c.rest.drop len })

/-- `len` bytes of a region from `start` on. -/
def takeAt (region : Bytes) (what : String) (start len : Nat) : Except WireError Bytes :=
  if region.length < start + len then .error (.bounds (.read what start len region.length))
  else .ok (region.slice start len)

/-- The text of the variable entry at `offset`, without its terminator, and the
end of the entry. -/
def readEntry (region : Bytes) (offset : Nat) : Except WireError (Bytes × Nat) := do
  let length ← takeAt region "variable length prefix" offset 2
  let declared := length.toNatLE
  if declared = 0 then throw (.malformed (.payload .unterminated))
  let entry ← takeAt region "variable entry" (offset + 2) declared
  return (entry.take (declared - 1), offset + 2 + declared)

structure RowView where
  bitmap : Bytes
  slots : Bytes
  entries : Bytes
  deriving DecidableEq, Repr

structure PayloadView where
  layout : Layout
  header : PayloadHeader
  rowNum : Nat
  rowType : RowType
  primaryTag : Bytes
  /-- The tags, laid out like a row but with slots as wide as declared. -/
  tags : RowView
  rows : List RowView

namespace PayloadView

def hasEntry (s : Shape) (i : Nat) : Bool := (s.column i).type.isVariable && !s.isPrimary i

def slotAfter (widths : List Nat) (slots : Bytes) (width : Nat) : Bytes :=
  slots.slice (Bytes.totalLen widths) width

def tagSlot (s : Shape) (slots : Bytes) (i : Nat) : Bytes :=
  slotAfter ((s.tags.take (i - s.tagIndex)).map (·.width)) slots (s.column i).width

def offset (slot : Bytes) : Nat := (slot.slice 0 ColumnType.offsetWidth).toNatLE

/-- End of the furthest entry of the tags.  Their variable region has no length
of its own. -/
def entriesEnd (s : Shape) (bitmap slots region : Bytes) : Except WireError Nat :=
  s.numberedTags.foldlM (fun furthest (_, i) =>
    if hasEntry s i && !Bitmap.marked bitmap (i - s.tagIndex) then do
      let (_, stop) ← readEntry region (offset (tagSlot s slots i))
      return max furthest stop
    else
      return furthest) 0

/-- Read `count` rows from number `row` on, behind those in `done`. -/
def readRows (s : Shape) (row : Nat) (done : List RowView) :
    Nat → PayloadCursor → Except WireError (List RowView × PayloadCursor)
  | 0, c => .ok (done.reverse, c)
  | count + 1, c => do
    let (length, c) ← c.take "row length" Payload.rowLenWidth
    let len := length.toNatLE
    let (body, c) ← WireError.inCell row 0 (c.take "row body" len)
    if len < s.rowFixedLen then
      throw (.malformed (.payload (.shortRow row len s.rowFixedLen)))
    let bitmapLen := Bitmap.size s.fields.length
    let view :=
      { bitmap := body.take bitmapLen
        slots := body.slice bitmapLen s.rowSize
        entries := body.drop s.rowFixedLen }
    readRows s (row + 1) (view :: done) count c

def parse (layout : Layout) (payload : Bytes) : Except WireError PayloadView := do
  let header ← PayloadHeader.read payload
  let rowNum := PayloadHeader.number payload PayloadHeader.identityLen 4
  let rowType ← RowType.ofByte (payload.getD (Payload.headLen - 1) 0)
  let start : PayloadCursor := ⟨payload.length, Payload.headLen, payload.drop Payload.headLen⟩
  let (length, c) ← start.take "primary tag length" Payload.primaryLenWidth
  let primaryLen := length.toNatLE
  if primaryLen ≠ layout.primaryLen then
    throw (.malformed (.payload (.primaryLength primaryLen layout.primaryLen)))
  let (primaryTag, c) ← c.take "primary tag" primaryLen
  let (length, c) ← c.take "tag length" Payload.tagLenWidth
  let tagLen := length.toNatLE
  if tagLen ≠ layout.tagSectionLen then
    throw (.malformed (.payload (.tagLength tagLen layout.tagSectionLen)))
  let bitmapLen := Bitmap.size layout.tags.length
  let (bitmap, c) ← c.take "tag bitmap" bitmapLen
  let (slots, c) ← c.take "tag slots" (tagLen - bitmapLen)
  let entriesLen ← entriesEnd layout.toShape bitmap slots c.rest
  let (entries, c) ← c.take "tag entries" entriesLen
  let (length, c) ← c.take "data length" Payload.dataLenWidth
  let dataLen := length.toNatLE
  if dataLen ≠ c.rest.length then
    throw (.malformed (.payload (.dataLength dataLen c.rest.length)))
  let (rows, c) ← readRows layout.toShape 0 [] rowNum c
  if c.rest ≠ [] then throw (.malformed (.payload (.trailing c.rest.length)))
  return { layout, header, rowNum, rowType, primaryTag, tags := ⟨bitmap, slots, entries⟩, rows }

/-- The value of tag column `i`, `none` for NULL. -/
def tag (v : PayloadView) (i : Nat) : Except WireError (Option Bytes) :=
  let s := v.layout.toShape
  if !s.isTag i || s.columns.length ≤ i then .error (.malformed (.payload (.notTag i)))
  else if Bitmap.marked v.tags.bitmap (i - s.tagIndex) then .ok none
  else
    let slot := tagSlot s v.tags.slots i
    if hasEntry s i then (readEntry v.tags.entries (offset slot)).map fun entry => some entry.1
    else
      match (s.column i).type.fixedWidth? with
      | some width => .ok (some (slot.take width))
      | none => .ok (some (Bytes.beforeNul slot))

/-- The value of field column `c` in row `r`, `none` for NULL. -/
def field (v : PayloadView) (r c : Nat) : Except WireError (Option Bytes) :=
  let s := v.layout.toShape
  match v.rows[r]? with
  | none => .error (.malformed (.payload (.noRow r)))
  | some row =>
    if s.isTag c then .error (.malformed (.payload (.notField c)))
    else if Bitmap.marked row.bitmap c then .ok none
    else
      let column := s.column c
      let slot := slotAfter ((s.fields.take c).map (·.slotWidth)) row.slots column.slotWidth
      if column.type.isVariable then
        (WireError.inCell r c (readEntry row.entries (offset slot))).map fun entry => some entry.1
      else .ok (some slot)

end PayloadView
end SeriesWire
