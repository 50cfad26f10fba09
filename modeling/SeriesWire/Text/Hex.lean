/-
Lower case hexadecimal text.
-/
import SeriesWire.Bytes

namespace SeriesWire
namespace Hex

def digit (n : Nat) : Char :=
  if n < 10 then Char.ofNat (n + 48) else Char.ofNat (n + 87)

def ofByte (b : UInt8) : List Char := [digit (b.toNat / 16), digit (b.toNat % 16)]

def ofBytes (bs : Bytes) : List Char := bs.flatMap ofByte

end Hex
end SeriesWire
