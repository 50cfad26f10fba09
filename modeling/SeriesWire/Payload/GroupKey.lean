/-
Group keys.  Rows with the same primary tag share a payload; the key names that
group.  A text is escaped so that the only bare comma in a key stands between
two values, and a number is keyed by what its slot stores.
-/
import SeriesWire.Payload.Packer
import SeriesWire.Text.Hex
import SeriesWire.Text.Quoted
import SeriesWire.Text.Utf8

namespace SeriesWire
namespace GroupKey

def hexEscape (bs : Bytes) : List Char := bs.flatMap fun b => '\\' :: 'x' :: Hex.ofByte b

def escapeChunk : Utf8.Chunk → List Char
  | .char '\\' _ => ['\\', '\\']
  | .char ',' _ => ['\\', ',']
  | .char c spelling => if Quoted.isControl c then hexEscape spelling else [c]
  | .bad bytes _ => hexEscape bytes

/-- A text value.  Control characters and bytes that are no UTF-8 are spelt in
hexadecimal. -/
def ofText (text : Bytes) : List Char := (Utf8.chunks text).flatMap escapeChunk

/-- NaNs with different bits are different values. -/
def ofSingle (x : Binary32) : List Char :=
  if x.isNaN then "NaN:".toList ++ Hex.ofBytes (Bytes.ofNatBE 4 x.bits.toNat)
  else x.text.toList

def ofDouble (x : Binary64) : List Char :=
  if x.isNaN then "NaN:".toList ++ Hex.ofBytes (Bytes.ofNatBE 8 x.bits.toNat)
  else x.text.toList

def ofValue? (t : ColumnType) (v : CellValue) : Option (List Char) :=
  match v, t with
  | .null, _ => none
  | .int n, .float4 => some (ofSingle (Binary64.ofInt n.toInt).narrow)
  | .int n, .float8 => some (ofDouble (Binary64.ofInt n.toInt))
  | .int n, _ => some (toString n.toInt).toList
  | .timestamp micros, _ => some (toString micros.toInt).toList
  | .float x, .float4 => some (ofSingle x.narrow)
  | .float x, _ => some (ofDouble x)
  | .bytes text, _ => some (ofText text)

def part (s : Shape) (row : List CellValue) (column : Nat) : Except WireError (List Char) :=
  match row[column]? with
  | none => .error (.malformed (.row (.missingKey column)))
  | some v =>
    match ofValue? (s.column column).type v with
    | none => .error (.malformed (.row (.nullKey column)))
    | some key => .ok key

/-- The group of a row: the keys of its primary tag values with commas
between. -/
def ofRow (s : Shape) (row : List CellValue) : Except WireError String := do
  let parts ← s.primaryTags.mapM (part s row)
  return String.ofList ([','].intercalate parts)

end GroupKey
end SeriesWire
