/-
Display text of decoded cells.  A cell too short for its type is shown in
hexadecimal, and an instant outside the calendar as its number.
-/
import SeriesWire.Column
import SeriesWire.Decimal.Positional
import SeriesWire.Epoch
import SeriesWire.Text.Hex
import SeriesWire.Text.Utf8

namespace SeriesWire

def renderFixed (t : ColumnType) (cell : Bytes) : String :=
  match t with
  | .float4 => (Binary32.mk (UInt32.ofNat cell.toNatLE)).text
  | .float8 => (Binary64.mk (UInt64.ofNat cell.toNatLE)).text
  | .timestamp | .timestamptz =>
    match Epoch.ofMillis? (Int64.ofInt cell.toIntLE) with
    | some instant => instant.text 3
    | none => toString cell.toIntLE
  | .date =>
    match Epoch.ofMillis? (Int64.ofInt cell.toIntLE) with
    | some instant => instant.date.text
    | none => toString cell.toIntLE
  | _ => toString cell.toIntLE

def renderCell (oid : UInt32) (cell : Bytes) : String :=
  match (ColumnType.ofOid? oid).bind fun t => t.fixedWidth?.map fun width => (t, width) with
  | none => Utf8.decodeLossy cell
  | some (t, width) =>
    if cell.length < width then String.ofList (Hex.ofBytes cell)
    else renderFixed t (cell.take width)

end SeriesWire
