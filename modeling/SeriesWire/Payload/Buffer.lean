/-
Payload buffers.  A buffer holds one group of rows: a header and row blocks up
to `tail`.  Resetting only rewinds the cursors, so the bytes behind `tail` can be
left over from earlier use; whatever is laid out overwrites them.
-/
import SeriesWire.Payload.Header

namespace SeriesWire

structure PayloadBuffer where
  data : Bytes
  tail : Nat := 0
  /-- End of the header, where the length of the data stands; zero before a
  header is written. -/
  headTail : Nat := 0
  /-- The rows since the last reset. -/
  rowNum : Nat := 0
  deriving DecidableEq, Repr

namespace PayloadBuffer

def withCapacity (capacity : Nat) : PayloadBuffer := { data := Bytes.zeros capacity }

def capacity (b : PayloadBuffer) : Nat := b.data.length

def hasHeader (b : PayloadBuffer) : Bool := b.headTail != 0

def isEmpty (b : PayloadBuffer) : Bool := b.rowNum == 0

/-- The number of rows as it is counted and stamped, in 32 bits. -/
def rowCount (b : PayloadBuffer) : UInt32 := UInt32.ofNat b.rowNum

def bytes (b : PayloadBuffer) : Bytes := b.data.take b.tail

def extend (b : PayloadBuffer) (size : Nat) : PayloadBuffer :=
  { b with data := b.data ++ Bytes.zeros size }

/-- Make room for `needed` bytes, growing by at least `step` if at all. -/
def ensure (b : PayloadBuffer) (needed step : Nat) : PayloadBuffer :=
  if b.capacity < needed then b.extend (max (needed - b.capacity) step) else b

theorem le_capacity_ensure (b : PayloadBuffer) (needed step : Nat) :
    needed ≤ (b.ensure needed step).capacity := by
  unfold ensure
  split
  · simp only [extend, capacity, List.length_append, Bytes.length_zeros] at *
    omega
  · omega

def reset (b : PayloadBuffer) : PayloadBuffer := { b with tail := 0, headTail := 0, rowNum := 0 }

/-- Lay out `block` from `start` on. -/
def write (b : PayloadBuffer) (start : Nat) (block : Bytes) : PayloadBuffer :=
  { b with data := b.data.overwrite start block }

def dataLen (b : PayloadBuffer) : Nat := b.tail - b.headTail - Payload.dataLenWidth

/-- Stamp the row count into the head and the length of the data behind the
header. -/
def stamp (b : PayloadBuffer) : Except WireError PayloadBuffer :=
  if !b.hasHeader then .error (.malformed (.payload .noHeader))
  else if Bytes.space Payload.dataLenWidth ≤ b.dataLen then
    .error (.range "payload" (.dataLength b.dataLen))
  else
    .ok <| (b.write PayloadHeader.identityLen (Bytes.ofNatLE 4 b.rowCount.toNat)).write b.headTail
      (Bytes.ofNatLE Payload.dataLenWidth b.dataLen)

end PayloadBuffer
end SeriesWire
