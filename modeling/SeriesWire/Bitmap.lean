/-
Null bitmaps: one bit per column, the lowest bit of the first byte being column
0.  A set bit marks a missing value.
-/
import SeriesWire.Bytes

namespace SeriesWire
namespace Bitmap

/-- Bytes that hold one bit for each of `columns` columns. -/
def size (columns : Nat) : Nat := (columns + 7) / 8

def mask (column : Nat) : UInt8 := 1 <<< UInt8.ofNat (column % 8)

/-- Mark `column` as missing.  A column beyond the bitmap changes nothing;
`mark?` tells that case apart. -/
def mark (bitmap : Bytes) (column : Nat) : Bytes :=
  bitmap.modify (column / 8) (· ||| mask column)

@[simp] theorem length_mark (bitmap : Bytes) (column : Nat) :
    (mark bitmap column).length = bitmap.length := by
  simp [mark]

def mark? (bitmap : Bytes) (column : Nat) : Option Bytes :=
  if column / 8 < bitmap.length then some (mark bitmap column) else none

/-- Whether `column` is marked, `none` when its bit lies outside the bitmap. -/
def marked? (bitmap : Bytes) (column : Nat) : Option Bool :=
  bitmap[column / 8]?.map fun byte => byte &&& mask column != 0

def marked (bitmap : Bytes) (column : Nat) : Bool := (marked? bitmap column).getD false

end Bitmap
end SeriesWire
