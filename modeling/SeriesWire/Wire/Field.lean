/-
Writing message bodies.  A body is a list of fields; a field that cannot be
written fails the whole body.
-/
import SeriesWire.Bytes
import SeriesWire.Error

namespace SeriesWire

inductive Field
  | u8 (n : UInt8)
  | u16 (n : UInt16)
  | i16 (n : Int16)
  | u32 (n : UInt32)
  | i32 (n : Int32)
  | bytes (bs : Bytes)
  /-- A text and the NUL that ends it. -/
  | text (s : String)
  /-- No bytes, but a check that `n` is at most `limit`. -/
  | atMost (limit n : Nat) (otherwise : WireError)

namespace Field

def encode : Field → Except WireError Bytes
  | u8 n => .ok (Bytes.ofNatBE 1 n.toNat)
  | u16 n => .ok (Bytes.ofNatBE 2 n.toNat)
  | i16 n => .ok (Bytes.ofIntBE 2 n.toInt)
  | u32 n => .ok (Bytes.ofNatBE 4 n.toNat)
  | i32 n => .ok (Bytes.ofIntBE 4 n.toInt)
  | bytes bs => .ok bs
  | text s =>
    let spelling := Utf8.encode s
    if 0 ∈ spelling then .error (.malformed (.nulInText s)) else .ok (spelling ++ [0])
  | atMost limit n otherwise => if n ≤ limit then .ok [] else .error otherwise

/-- A count of two bytes; `what` names what is counted. -/
def count (what : String) (n : Nat) : List Field :=
  [atMost 65535 n (.range what (.entries n)), u16 (UInt16.ofNat n)]

def counted (what : String) (items : List α) (item : α → Field) : List Field :=
  count what items.length ++ items.map item

/-- The largest length that a field of four bytes holds. -/
def lengthLimit : Nat := 2147483647

def encodeAll (fields : List Field) : Except WireError Bytes :=
  (fields.mapM encode).map List.flatten

end Field
end SeriesWire
