/-
The snappy raw block.  A block announces the length of its content and goes on
with elements, literals and back references, until the input ends.
-/
import SeriesWire.Block.Copy

namespace SeriesWire
namespace Snappy

/-- A number in groups of seven bits, the lowest first; the top bit of a byte
says that another follows.  There are at most `most` groups. -/
def varint? : Nat → Bytes → Option (Nat × Bytes)
  | 0, _ => none
  | _ + 1, [] => none
  | most + 1, b :: rest =>
    if b < 128 then some (b.toNat, rest)
    else (varint? most rest).map fun (n, rest) => (b.toNat % 128 + 128 * n, rest)

/-- The announced length of the content and the elements behind it.  The length
is kept in 64 bits, for which there are up to ten groups, and then has to fit
32. -/
def header? (src : Bytes) : Option (Nat × Bytes) :=
  ((varint? 10 src).map fun (n, src) => (n % Bytes.space 8, src)).filter
    fun (n, _) => n < Bytes.space 4

def number? (width : Nat) (src : Bytes) : Option (Nat × Bytes) :=
  let taken : Bytes := src.take width
  if taken.length < width then none else some (taken.toNatLE, src.drop width)

/-- The length of a literal whose tag holds `n`: up to 60 it stands in the tag,
larger ones follow in one to four bytes.  A short length can be spelt the long
way, too. -/
def literalLength? (n : Nat) (src : Bytes) : Option (Nat × Bytes) :=
  if n < 60 then some (n + 1, src)
  else (number? (n - 59) src).map fun (m, src) => (m + 1, src)

def element? (limit tag : Nat) (src : Bytes) (out : Array UInt8) :
    Option (Bytes × Array UInt8) := do
  match tag % 4 with
  | 0 =>
    let (count, src) ← literalLength? (tag / 4) src
    Block.literal? limit count src out
  | 1 =>
    let (low, src) ← number? 1 src
    let out ← Block.reference? limit (tag / 32 * 256 + low) (tag / 4 % 8 + 4) out
    return (src, out)
  | kind =>
    let (offset, src) ← number? (if kind = 2 then 2 else 4) src
    let out ← Block.reference? limit offset (tag / 4 + 1) out
    return (src, out)

def elements? (limit : Nat) : Nat → Bytes → Array UInt8 → Option (Array UInt8)
  | _, [], out => some out
  | 0, _ :: _, _ => none
  | fuel + 1, tag :: src, out => do
    let (src, out) ← element? limit tag.toNat src out
    elements? limit fuel src out

/-- The content of a block, if it has as many bytes as announced and these are
at most `limit`. -/
def decompress? (limit : Nat) (src : Bytes) : Option Bytes := do
  let (announced, elements) ← header? src
  guard (announced ≤ limit)
  let out ← elements? announced elements.length elements #[]
  guard (out.size = announced)
  return out.toList

/-- `n` in groups of seven bits, at most `most` of them. -/
def varint : Nat → Nat → Bytes
  | 0, _ => []
  | most + 1, n =>
    if n < 128 then [UInt8.ofNat n] else UInt8.ofNat (n % 128 + 128) :: varint most (n / 128)

/-- A block of one element that holds all of `src` as a literal. -/
def store (src : Bytes) : Bytes :=
  let n := src.length
  let literal :=
    if n = 0 then []
    else if n ≤ 60 then [UInt8.ofNat ((n - 1) * 4)]
    else UInt8.ofNat (63 * 4) :: Bytes.ofNatLE 4 (n - 1)
  varint 5 n ++ literal ++ src

end Snappy
end SeriesWire
