/-
Payloads read with every access spelt out.  The reader is made of operations that
answer whatever they are asked: a slice beyond the end is short, a bit outside a
bitmap is not set, a column that does not exist is a default one.  Here the same
steps give up (`none`) as soon as one of them reaches outside of what there is.
-/
import SeriesWire.Payload.View

namespace SeriesWire

open Bytes

/-- Steps that come to a value or to an error, or to nothing at all if they reach
outside. -/
abbrev Guarded (α : Type) : Type := ExceptT WireError Option α

namespace Guarded

variable {α β : Type}

/-- What lies somewhere, if it is there. -/
def reach (found : Option α) : Guarded α := ExceptT.lift found

/-- A step that looks before it reads. -/
def report (outcome : Except WireError α) : Guarded α := ExceptT.mk (some outcome)

def inCell (row column : Nat) (g : Guarded α) : Guarded α :=
  ExceptT.mk (g.run.map (WireError.inCell row column))

/-! ## Accesses -/

/-- The bytes from `start` up to `stop`. -/
def cut? (bs : Bytes) (start stop : Nat) : Option Bytes :=
  if start ≤ stop ∧ stop ≤ bs.length then some (bs.slice start (stop - start)) else none

/-- The difference of two positions. -/
def minus? (a b : Nat) : Option Nat := if b ≤ a then some (a - b) else none

def number (bs : Bytes) (start len : Nat) : Guarded Nat := do
  let part ← reach (cut? bs start (start + len))
  return part.toNatLE

def column (s : Shape) (i : Nat) : Guarded Column := reach s.columns[i]?

/-- The widths of the columns from `first` up to `stop`. -/
def widths (s : Shape) (width : Column → Nat) (first stop : Nat) : Guarded (List Nat) :=
  (List.range' first (stop - first)).mapM fun i => do
    let c ← column s i
    return width c

/-- The slot of column `i` in a row of slots that starts with column `first`. -/
def slot (s : Shape) (width : Column → Nat) (first i : Nat) (slots : Bytes) : Guarded Bytes := do
  let before ← widths s width first i
  let c ← column s i
  reach (cut? slots (totalLen before) (totalLen before + width c))

/-! ## The reader -/

def header (payload : Bytes) : Guarded PayloadHeader :=
  if payload.length < Payload.headLen then
    throw (.malformed (.payload (.shortHead payload.length Payload.headLen)))
  else do
    let osnId ← number payload 0 8
    let rangeGroupId ← number payload 16 2
    let payloadVersion ← number payload 18 4
    let dbId ← number payload 22 4
    let tableId ← number payload 26 8
    let tsVersion ← number payload 34 4
    return {
      osnId := UInt64.ofNat osnId
      rangeGroupId := UInt16.ofNat rangeGroupId
      payloadVersion := UInt32.ofNat payloadVersion
      dbId := UInt32.ofNat dbId
      tableId := UInt64.ofNat tableId
      tsVersion := UInt32.ofNat tsVersion }

def entry (region : Bytes) (offset : Nat) : Guarded (Bytes × Nat) := do
  let length ← report (takeAt region "variable length prefix" offset 2)
  let declared ← number length 0 2
  if declared = 0 then throw (.malformed (.payload .unterminated))
  let entry ← report (takeAt region "variable entry" (offset + 2) declared)
  let kept ← reach (minus? declared 1)
  let text ← reach (cut? entry 0 kept)
  return (text, offset + 2 + declared)

/-- Whether column `i` has an entry among those of the tags. -/
def hasEntry (s : Shape) (i : Nat) : Guarded Bool := do
  let c ← column s i
  return c.type.isVariable && !s.isPrimary i

def marked (s : Shape) (bitmap : Bytes) (i : Nat) : Guarded Bool := do
  let bit ← reach (minus? i s.tagIndex)
  reach (Bitmap.marked? bitmap bit)

/-- Only a tag that can have an entry is looked up in the bitmap. -/
def expectsEntry (s : Shape) (bitmap : Bytes) (i : Nat) : Guarded Bool := do
  let isEntry ← hasEntry s i
  if isEntry then do
    let missing ← marked s bitmap i
    return !missing
  else
    return false

def entriesEnd (s : Shape) (bitmap slots region : Bytes) : Guarded Nat :=
  (List.range' s.tagIndex (s.columns.length - s.tagIndex)).foldlM (fun furthest i => do
    let expected ← expectsEntry s bitmap i
    if expected then do
      let slot ← slot s (·.width) s.tagIndex i slots
      let offset ← number slot 0 ColumnType.offsetWidth
      let (_, stop) ← entry region offset
      return max furthest stop
    else
      return furthest) 0

def readRows (s : Shape) (payload : Bytes) (row : Nat) (done : List RowView) :
    Nat → Nat → Guarded (List RowView × Nat)
  | 0, position => return (done.reverse, position)
  | count + 1, position => do
    let length ← report (takeAt payload "row length" position Payload.rowLenWidth)
    let len ← number length 0 Payload.rowLenWidth
    let body ← report (WireError.inCell row 0
      (takeAt payload "row body" (position + Payload.rowLenWidth) len))
    if len < s.rowFixedLen then
      throw (.malformed (.payload (.shortRow row len s.rowFixedLen)))
    let bitmapLen := Bitmap.size s.fields.length
    let bitmap ← reach (cut? body 0 bitmapLen)
    let slots ← reach (cut? body bitmapLen s.rowFixedLen)
    let entries ← reach (cut? body s.rowFixedLen body.length)
    readRows s payload (row + 1) ({ bitmap, slots, entries } :: done) count
      (position + Payload.rowLenWidth + len)

def parse (layout : Layout) (payload : Bytes) : Guarded PayloadView := do
  let header ← header payload
  let rowNum ← number payload PayloadHeader.identityLen 4
  let typeByte ← reach payload[Payload.headLen - 1]?
  let rowType ← report (RowType.ofByte typeByte)
  let length ← report (takeAt payload "primary tag length" Payload.headLen Payload.primaryLenWidth)
  let primaryLen ← number length 0 Payload.primaryLenWidth
  if primaryLen ≠ layout.primaryLen then
    throw (.malformed (.payload (.primaryLength primaryLen layout.primaryLen)))
  let primaryTag ← report (takeAt payload "primary tag"
    (Payload.headLen + Payload.primaryLenWidth) primaryLen)
  let tagLenStart ← reach (minus? layout.tagStart Payload.tagLenWidth)
  let length ← report (takeAt payload "tag length" tagLenStart Payload.tagLenWidth)
  let tagLen ← number length 0 Payload.tagLenWidth
  if tagLen ≠ layout.tagSectionLen then
    throw (.malformed (.payload (.tagLength tagLen layout.tagSectionLen)))
  let bitmapLen := Bitmap.size layout.tags.length
  let bitmap ← report (takeAt payload "tag bitmap" layout.tagStart bitmapLen)
  let slotsLen ← reach (minus? tagLen bitmapLen)
  let slots ← report (takeAt payload "tag slots" (layout.tagStart + bitmapLen) slotsLen)
  let region ← reach (cut? payload layout.varStart payload.length)
  let entriesLen ← entriesEnd layout.toShape bitmap slots region
  let dataLenStart := layout.varStart + entriesLen
  let entries ← reach (cut? payload layout.varStart dataLenStart)
  let length ← report (takeAt payload "data length" dataLenStart Payload.dataLenWidth)
  let dataLen ← number length 0 Payload.dataLenWidth
  let dataStart := dataLenStart + Payload.dataLenWidth
  let left ← reach (minus? payload.length dataStart)
  if dataLen ≠ left then throw (.malformed (.payload (.dataLength dataLen left)))
  let (rows, position) ← readRows layout.toShape payload 0 [] rowNum dataStart
  let left ← reach (minus? payload.length position)
  if left ≠ 0 then throw (.malformed (.payload (.trailing left)))
  return { layout, header, rowNum, rowType, primaryTag, tags := ⟨bitmap, slots, entries⟩, rows }

def tag (v : PayloadView) (i : Nat) : Guarded (Option Bytes) :=
  let s := v.layout.toShape
  if !s.isTag i || s.columns.length ≤ i then throw (.malformed (.payload (.notTag i)))
  else do
    let missing ← marked s v.tags.bitmap i
    if missing then
      return none
    else do
      let isEntry ← hasEntry s i
      let slot ← slot s (·.width) s.tagIndex i v.tags.slots
      if isEntry then do
        let offset ← number slot 0 ColumnType.offsetWidth
        let (text, _) ← entry v.tags.entries offset
        return some text
      else do
        let c ← column s i
        match c.type.fixedWidth? with
        | some width => do
          let value ← reach (cut? slot 0 width)
          return some value
        | none => do
          let value ← reach (cut? slot 0 (slot.findIdx (· == 0)))
          return some value

def field (v : PayloadView) (r c : Nat) : Guarded (Option Bytes) :=
  let s := v.layout.toShape
  match v.rows[r]? with
  | none => throw (.malformed (.payload (.noRow r)))
  | some row =>
    if s.isTag c then throw (.malformed (.payload (.notField c)))
    else do
      let missing ← reach (Bitmap.marked? row.bitmap c)
      if missing then
        return none
      else do
        let slot ← slot s (·.slotWidth) 0 c row.slots
        let column ← column s c
        if column.type.isVariable then do
          let offset ← number slot 0 ColumnType.offsetWidth
          let (text, _) ← inCell r c (entry row.entries offset)
          return some text
        else
          return some slot

end Guarded
end SeriesWire
