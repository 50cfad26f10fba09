/-
The lz4 raw block.  A block is a run of sequences: a token, literals, and a back
reference.  It ends behind the literals of a sequence and nowhere else.
-/
import SeriesWire.Block.Copy

namespace SeriesWire
namespace Lz4

/-- A length continued in further bytes, up to the first that is not 255. -/
def extend? (length : Nat) : Bytes → Option (Nat × Bytes)
  | [] => none
  | b :: rest => if b = 255 then extend? (length + 255) rest else some (length + b.toNat, rest)

/-- A length that begins in half a token.  Only the value 15 is continued. -/
def length? (nibble : Nat) (src : Bytes) : Option (Nat × Bytes) :=
  if nibble = 15 then extend? 15 src else some (nibble, src)

def minMatch : Nat := 4

/-- Read at most `fuel` sequences. -/
def sequences? (limit : Nat) : Nat → Bytes → Array UInt8 → Option (Array UInt8)
  | 0, _, _ => none
  | _ + 1, [], _ => none
  | fuel + 1, token :: src, out => do
    let (count, src) ← length? (token.toNat / 16) src
    let (src, out) ← Block.literal? limit count src out
    match src with
    | [] => some out
    | [_] => none
    | low :: high :: src =>
      let (extra, src) ← length? (token.toNat % 16) src
      let out ← Block.reference? limit (low.toNat + 256 * high.toNat) (minMatch + extra) out
      sequences? limit fuel src out

/-- The content of a block, if it has at most `limit` bytes.  Each sequence
takes at least its token off the input. -/
def decompress? (limit : Nat) (src : Bytes) : Option Bytes :=
  (sequences? limit src.length src #[]).map (·.toList)

def continuation (n : Nat) : Bytes :=
  List.replicate (n / 255) 255 ++ [UInt8.ofNat (n % 255)]

/-- A block of one sequence that holds all of `src` as literals. -/
def store (src : Bytes) : Bytes :=
  let n := src.length
  let head :=
    if n < 15 then [UInt8.ofNat (n * 16)] else UInt8.ofNat (15 * 16) :: continuation (n - 15)
  head ++ src

end Lz4
end SeriesWire
