/-
Cells as parameters of a statement: numbers and instants in eight bytes, most
significant first, character data as it is.  A parameter that is missing stands
for NULL.
-/
import SeriesWire.Cell

namespace SeriesWire
namespace CellValue

def ofParam (oid : UInt32) (param : Option Bytes) : Except WireError CellValue :=
  match ColumnType.packable? oid, param with
  | none, _ => .error (.unsupportedType oid)
  | some _, none => .ok .null
  | some t, some raw =>
    if t.isCharacter then .ok (.bytes raw)
    else if raw.length ≠ 8 then .error (.malformed (.bind (.argument t raw.length)))
    else
      match t with
      | .float4 | .float8 => .ok (.float ⟨UInt64.ofNat raw.toNatBE⟩)
      | .timestamp | .timestamptz => .ok (.timestamp (Int64.ofInt raw.toIntBE))
      | _ => .ok (.int (Int64.ofInt raw.toIntBE))

def param (v : CellValue) (t : ColumnType) : Except WireError (Option Bytes) :=
  match v, t with
  | .null, _ => .ok none
  | .bytes raw, .bpchar | .bytes raw, .varchar | .bytes raw, .text => .ok (some raw)
  | .int n, .int2 | .int n, .int4 | .int n, .int8 => .ok (some (Bytes.ofIntBE 8 n.toInt))
  | .int n, .float4 | .int n, .float8 =>
    .ok (some (Bytes.ofNatBE 8 (Binary64.ofInt n.toInt).bits.toNat))
  | .float x, .float4 | .float x, .float8 => .ok (some (Bytes.ofNatBE 8 x.bits.toNat))
  | .timestamp micros, .timestamp | .timestamp micros, .timestamptz =>
    .ok (some (Bytes.ofIntBE 8 micros.toInt))
  | v, t => .error (v.mismatch t.oid)

def toParam (v : CellValue) (oid : UInt32) : Except WireError (Option Bytes) :=
  match ColumnType.packable? oid with
  | none => .error (.unsupportedType oid)
  | some t => v.param t

end CellValue
end SeriesWire
