/-
Cells of result batches, written.  Every cell is as wide as its column is
declared; a missing value is all zeros.
-/
import SeriesWire.Cell
import SeriesWire.Epoch

namespace SeriesWire
namespace CellValue

def within (width : Nat) (target : String) (content : Bytes) : Except WireError Bytes :=
  if width < content.length then .error (.range target (.cell content.length width))
  else .ok content

def resultInt (t : ColumnType) (size width : Nat) (v : Int64) : Except WireError Bytes :=
  if Bytes.FitsInt size v.toInt then within width t.name (Bytes.ofIntLE size v.toInt)
  else .error (.range t.name (.integer v.toInt))

def resultText (t : ColumnType) (width : Nat) (text : Bytes) : Except WireError Bytes :=
  let needed := textHeaderLen + text.length + 1
  if width < needed then .error (.range t.name (.textCell text.length needed width))
  else if fitsTextHeader text then .ok (textEntry text)
  else .error (.range t.name (.bytes text.length))

/-- What `v` leaves at the front of a cell `width` bytes wide, in a column of
type `oid`.  A type unknown here takes raw bytes. -/
def result (v : CellValue) (oid : UInt32) (width : Nat) : Except WireError Bytes :=
  match v, ColumnType.ofOid? oid with
  | .null, _ => .ok []
  | .bytes raw, none => within width "raw" raw
  | _, none => .error (.unsupportedType oid)
  | .int n, some .int2 => resultInt .int2 2 width n
  | .int n, some .int4 => resultInt .int4 4 width n
  | .int n, some .int8 => resultInt .int8 8 width n
  | .int n, some .date => resultInt .date 8 width n
  | .float x, some .float4 => within width "float4" (Bytes.ofNatLE 4 x.narrow.bits.toNat)
  | .float x, some .float8 => within width "float8" (Bytes.ofNatLE 8 x.bits.toNat)
  | .timestamp micros, some .timestamp =>
    within width "timestamp" (Bytes.ofIntLE 8 (Epoch.toUnixMillis micros).toInt)
  | .timestamp micros, some .timestamptz =>
    within width "timestamptz" (Bytes.ofIntLE 8 (Epoch.toUnixMillis micros).toInt)
  | .bytes text, some .bpchar => resultText .bpchar width text
  | .bytes text, some .varchar => resultText .varchar width text
  | .bytes text, some .text => resultText .text width text
  | v, some t => .error (v.mismatch t.oid)

/-- Write the cell over all of `out`.  After a failure `out` is all zeros. -/
def writeResult (v : CellValue) (oid : UInt32) (out : Bytes) : Bytes × Except WireError Unit :=
  match v.result oid out.length with
  | .ok content => (content.fit out.length, .ok ())
  | .error e => (Bytes.zeros out.length, .error e)

end CellValue
end SeriesWire
