/-
Table layouts.  A table has fields, written once per row, and tags, written once
per payload; its primary tags are some of the tags and identify the payload a
row belongs to.  Columns are numbered through, fields first.  A `Layout` is a
`Shape` in which `fault?` finds nothing wrong.
-/
import SeriesWire.Bitmap
import SeriesWire.Column
import SeriesWire.Error

namespace SeriesWire

/-- The columns of a table, as declared. -/
structure Shape where
  fields : List Column
  tags : List Column
  /-- Column numbers, in the order in which the tags identify a payload. -/
  primaryTags : List Nat
  deriving DecidableEq, Repr, Inhabited

namespace Shape

def columns (s : Shape) : List Column := s.fields ++ s.tags

/-- The number of the first tag. -/
def tagIndex (s : Shape) : Nat := s.fields.length

def column (s : Shape) (i : Nat) : Column := s.columns.getD i default

def isTag (s : Shape) (i : Nat) : Bool := s.tagIndex ≤ i

def isPrimary (s : Shape) (i : Nat) : Bool := s.primaryTags.contains i

/-- The tags with their column numbers. -/
def numberedTags (s : Shape) : List (Column × Nat) := s.tags.zipIdx s.tagIndex

/-- Width of the primary tag bytes in the header of a payload. -/
def primaryLen (s : Shape) : Nat :=
  Bytes.totalLen (s.primaryTags.map fun p => (s.column p).width)

/-- The first primary tag that is no tag or was listed before. -/
def primaryFault? (s : Shape) (seen : List Nat) : List Nat → Option LayoutFault
  | [] => none
  | p :: rest =>
    if p < s.tagIndex ∨ s.columns.length ≤ p then some (.notTag p s.tagIndex s.columns.length)
    else if p ∈ seen then some (.repeatedTag p)
    else s.primaryFault? (p :: seen) rest

/-- The least declared width of a tag: room for a number, for the offset of a
variable text, or for one byte of an inline one. -/
def leastWidth (t : ColumnType) (primary : Bool) : Nat :=
  match t.fixedWidth? with
  | some w => w
  | none => if t.isVariable && !primary then ColumnType.offsetWidth else 1

def narrowFault? (s : Shape) : Option LayoutFault :=
  s.numberedTags.findSome? fun (c, i) =>
    let least := leastWidth c.type (s.isPrimary i)
    if c.width < least then some (.narrowTag i c.type least c.width) else none

/-- The header counts the primary tag bytes in two bytes. -/
def primaryWidthFault? (s : Shape) : Option LayoutFault :=
  if s.primaryLen < Bytes.space 2 then none else some (.primaryWidth s.primaryLen)

def fault? (s : Shape) : Option LayoutFault :=
  s.primaryFault? [] s.primaryTags <|> s.narrowFault? <|> s.primaryWidthFault?

end Shape

/-- A shape that payloads can be packed in. -/
structure Layout extends Shape where
  faultless : toShape.fault? = none

namespace Layout

def ofShape (s : Shape) : Except WireError Layout :=
  match h : s.fault? with
  | some fault => .error (.malformed (.layout fault))
  | none => .ok ⟨s, h⟩

def packableTypes (oids : List UInt32) : Except WireError (List ColumnType) :=
  oids.mapM fun oid =>
    match ColumnType.packable? oid with
    | some t => .ok t
    | none => .error (.unsupportedType oid)

def ofColumns (oids storageLens : List UInt32) (tagIndex : Nat) (primaryTags : List Nat) :
    Except WireError Layout := do
  if oids.length ≠ storageLens.length then
    throw (.malformed (.layout (.lengths oids.length storageLens.length)))
  if oids.length < tagIndex then
    throw (.malformed (.layout (.tagIndex tagIndex oids.length)))
  let types ← packableTypes oids
  let columns := List.zipWith Column.mk types storageLens
  ofShape { fields := columns.take tagIndex, tags := columns.drop tagIndex, primaryTags }

end Layout

/-! ## Positions

A payload starts with a fixed head, the length of the primary tag bytes and
these bytes, the length of the tag section and that section: a null bitmap and
one slot per tag, as wide as declared.  The variable region of the tags
follows, then the length of the data, then the rows. -/

namespace Payload

def headLen : Nat := 43

def primaryLenWidth : Nat := 2

def tagLenWidth : Nat := 4

def dataLenWidth : Nat := 4

def rowLenWidth : Nat := 4

def tagStart (primaryLen start : Nat) : Nat :=
  start + headLen + primaryLenWidth + primaryLen + tagLenWidth

/-- Length of a tag section whose slots have the given widths. -/
def tagSectionLen (widths : List Nat) : Nat :=
  Bitmap.size widths.length + Bytes.totalLen widths

end Payload

namespace Shape

/-- Bitmap and slots of the tags. -/
def tagSectionLen (s : Shape) : Nat := Payload.tagSectionLen (s.tags.map (·.width))

def tagStart (s : Shape) : Nat := Payload.tagStart s.primaryLen 0

def varStart (s : Shape) : Nat := s.tagStart + s.tagSectionLen

def rowSize (s : Shape) : Nat := Bytes.totalLen (s.fields.map (·.slotWidth))

def rowFixedLen (s : Shape) : Nat := Bitmap.size s.fields.length + s.rowSize

end Shape

/-- Width of the slots of a row over any known column types. -/
def rowSizeOf (oids storageLens : List UInt32) : Except WireError Nat := do
  if oids.length ≠ storageLens.length then
    throw (.malformed (.layout (.lengths oids.length storageLens.length)))
  let widths ← (oids.zip storageLens).mapM fun (oid, len) =>
    match ColumnType.ofOid? oid with
    | some t => .ok (t.slotWidth len.toNat)
    | none => .error (.unsupportedType oid)
  return Bytes.totalLen widths

end SeriesWire
