/-
Cells in rows and payload headers.  `CellValue.store` computes what a value
leaves in its slot and what it appends to the variable region; it depends on
the value and the column alone.  `CellValue.place` writes that into two buffers
and checks that it fits them.
-/
import SeriesWire.Cell
import SeriesWire.Epoch

namespace SeriesWire

/-- What a stored value occupies: a slot `width` bytes wide that begins with
`content`, and an entry in the variable region. -/
structure Stored where
  width : Nat
  content : Bytes
  entry : Bytes := []
  deriving DecidableEq, Repr

namespace Stored

def slot (s : Stored) : Bytes := s.content.fit s.width

@[simp] theorem length_slot (s : Stored) : s.slot.length = s.width := Bytes.length_fit _ _

/-- Whether the entry, if there is one, fits a region of `regionLen` bytes at
`offset`. -/
def checkEntry (s : Stored) (regionLen offset : Nat) : Except WireError Unit :=
  if s.entry ≠ [] ∧ regionLen < offset + s.entry.length then
    .error (.bounds (.entry s.entry.length offset regionLen))
  else .ok ()

def checkSlot (s : Stored) (oid : UInt32) (room : Nat) : Except WireError Unit :=
  if room < s.width then .error (.bounds (.slot oid s.width room)) else .ok ()

end Stored

namespace CellValue

def storeInt (t : ColumnType) (width : Nat) (v : Int64) : Except WireError Stored :=
  if Bytes.FitsInt width v.toInt then
    .ok { width, content := Bytes.ofIntLE width v.toInt }
  else
    .error (.range t.name (.outside v.toInt (8 * width)))

/-- A float at the precision of its column.  A finite number must stay
finite. -/
def storeFloat (t : ColumnType) (x : Binary64) : Except WireError Stored :=
  if t = .float8 then
    .ok { width := 8, content := Bytes.ofNatLE 8 x.bits.toNat }
  else if x.isFinite && !x.narrow.isFinite then
    .error (.range t.name (.single x))
  else
    .ok { width := 4, content := Bytes.ofNatLE 4 x.narrow.bits.toNat }

/-- A text in the slot of a primary tag, where one byte stays free for the
terminator. -/
def storePrimary (t : ColumnType) (text : Bytes) (storageLen : Nat) : Except WireError Stored :=
  if storageLen - 1 < text.length then
    .error (.range t.name (.primarySlot text.length storageLen))
  else
    .ok { width := storageLen, content := text }

/-- A text in the variable region, its offset there in the slot. -/
def storeVariable (t : ColumnType) (text : Bytes) (offset : Nat) : Except WireError Stored :=
  if fitsTextHeader text then
    .ok
      { width := ColumnType.offsetWidth
        content := Bytes.ofNatLE ColumnType.offsetWidth offset
        entry := textEntry text }
  else
    .error (.range t.name (.variableLength text.length))

/-- What `v` leaves in a column of type `t` whose declared width is
`storageLen`, the variable region being filled up to `offset`.  Primary tags
are always inline. -/
def store (v : CellValue) (t : ColumnType) (storageLen offset : Nat) (primary : Bool) :
    Except WireError Stored :=
  match t, v with
  | .date, _ => .error (.unsupportedType t.oid)
  | t, .null =>
    let width := if t.isVariable && primary then storageLen else t.slotWidth storageLen
    .ok { width, content := [] }
  | .int2, .int n => storeInt t 2 n
  | .int4, .int n => storeInt t 4 n
  | .int8, .int n => storeInt t 8 n
  | .float4, .float x | .float8, .float x => storeFloat t x
  | .float4, .int n | .float8, .int n => storeFloat t (Binary64.ofInt n.toInt)
  | .timestamp, .timestamp micros | .timestamptz, .timestamp micros =>
    .ok { width := 8, content := Bytes.ofIntLE 8 (Epoch.toUnixMillis micros).toInt }
  | .bpchar, .bytes text => .ok { width := storageLen, content := text }
  | .varchar, .bytes text | .text, .bytes text =>
    if primary then storePrimary t text storageLen else storeVariable t text offset
  | t, v => .error (v.mismatch t.oid)

/-- Two buffers after an attempt to write a cell into them, and its outcome:
the bytes taken in the slot and in the variable region. -/
structure Placed where
  dest : Bytes
  region : Bytes
  outcome : Except WireError (Nat × Nat)

/-- Write a stored cell.  The entry is written first, so it stays in the region
when the slot turns out too short. -/
def Placed.write (oid : UInt32) (s : Stored) (dest region : Bytes) (offset : Nat) : Placed :=
  match s.checkEntry region.length offset with
  | .error e => ⟨dest, region, .error e⟩
  | .ok () =>
    let region' := if s.entry = [] then region else region.overwrite offset s.entry
    match s.checkSlot oid dest.length with
    | .error e => ⟨dest, region', .error e⟩
    | .ok () => ⟨dest.overwrite 0 s.slot, region', .ok (s.width, s.entry.length)⟩

/-- Store `v` at the start of `dest`, and at `offset` of `region` where the
column is a variable one. -/
def place (v : CellValue) (oid : UInt32) (dest : Bytes) (storageLen : Nat) (region : Bytes)
    (offset : Nat) (primary : Bool) : Placed :=
  match ColumnType.packable? oid with
  | none => ⟨dest, region, .error (.unsupportedType oid)⟩
  | some t =>
    match v.store t storageLen offset primary with
    | .error e => ⟨dest, region, .error e⟩
    | .ok stored => Placed.write oid stored dest region offset

end CellValue
end SeriesWire
