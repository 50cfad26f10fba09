/-
Cells of result batches, read.  A number is its leading bytes, a text ends at
its declared length or at the first NUL, and a cell of a type unknown here is
shown in hexadecimal.
-/
import SeriesWire.Cell
import SeriesWire.Text.Hex

namespace SeriesWire

/-- Where the bytes of a decoded cell stand: in a stretch of the raw cell, or in
a text made for it. -/
inductive CellSpan
  | range (start stop : Nat)
  | made (bytes : Bytes)
  deriving DecidableEq, Repr

namespace CellSpan

def resolve (raw : Bytes) : CellSpan → Bytes
  | range start stop => raw.slice start (stop - start)
  | made bytes => bytes

/-- The text in a raw character cell, behind its length.  A length of zero
declares nothing. -/
def ofText (raw : Bytes) : CellSpan :=
  if raw.length < textHeaderLen then range 0 0
  else
    let declared := (raw.slice 0 textHeaderLen).toNatLE
    let body := raw.drop textHeaderLen
    let bound := if 0 < declared then min body.length declared else body.length
    let len := (Bytes.beforeNul (body.take bound)).length
    range textHeaderLen (textHeaderLen + len)

def decode (oid : UInt32) (raw : Bytes) : Except WireError CellSpan :=
  match ColumnType.ofOid? oid with
  | none => .ok (made ((Hex.ofBytes raw).map fun c => UInt8.ofNat c.toNat))
  | some t =>
    match t.fixedWidth? with
    | some width =>
      if raw.length < width then
        .error (.malformed (.batch (.shortCell t raw.length width)))
      else
        .ok (range 0 width)
    | none => .ok (ofText raw)

end CellSpan

def decodeCell (oid : UInt32) (raw : Bytes) : Except WireError Bytes :=
  (CellSpan.decode oid raw).map (·.resolve raw)

end SeriesWire
