/-
The fixed head of a payload: who it is for, how many rows it has, and what it
carries.
-/
import SeriesWire.Bytes
import SeriesWire.Error
import SeriesWire.Layout

namespace SeriesWire

inductive RowType
  | tagsAndData | dataOnly | tagsOnly
  deriving DecidableEq, Repr, Inhabited

namespace RowType

def byte : RowType → UInt8
  | tagsAndData => 0
  | dataOnly => 1
  | tagsOnly => 2

def all : List RowType := [tagsAndData, dataOnly, tagsOnly]

def ofByte (b : UInt8) : Except WireError RowType :=
  match all.find? (·.byte == b) with
  | some t => .ok t
  | none => .error (.malformed (.payload (.rowType b.toNat)))

end RowType

structure PayloadHeader where
  osnId : UInt64 := 0
  rangeGroupId : UInt16 := 0
  payloadVersion : UInt32 := 0
  dbId : UInt32 := 0
  tableId : UInt64 := 0
  tsVersion : UInt32 := 0
  deriving DecidableEq, Repr, Inhabited

namespace PayloadHeader

/-- Length of the identity fields.  Row count and row type follow them. -/
def identityLen : Nat := 38

/-- The identity fields in order.  The first has sixteen bytes, of which eight
are used. -/
def bytes (h : PayloadHeader) : Bytes :=
  Bytes.ofNatLE 16 h.osnId.toNat ++ Bytes.ofNatLE 2 h.rangeGroupId.toNat ++
    Bytes.ofNatLE 4 h.payloadVersion.toNat ++ Bytes.ofNatLE 4 h.dbId.toNat ++
    Bytes.ofNatLE 8 h.tableId.toNat ++ Bytes.ofNatLE 4 h.tsVersion.toNat

theorem length_bytes (h : PayloadHeader) : h.bytes.length = identityLen := by
  simp [bytes, identityLen]

/-- Stamp the identity fields over the start of `head`, if they fit. -/
def stamp? (h : PayloadHeader) (head : Bytes) : Option Bytes :=
  if head.length < identityLen then none else some (head.overwrite 0 h.bytes)

def number (payload : Bytes) (start len : Nat) : Nat := (payload.slice start len).toNatLE

def read (payload : Bytes) : Except WireError PayloadHeader :=
  if payload.length < Payload.headLen then
    .error (.malformed (.payload (.shortHead payload.length Payload.headLen)))
  else
    .ok
      { osnId := UInt64.ofNat (number payload 0 8)
        rangeGroupId := UInt16.ofNat (number payload 16 2)
        payloadVersion := UInt32.ofNat (number payload 18 4)
        dbId := UInt32.ofNat (number payload 22 4)
        tableId := UInt64.ofNat (number payload 26 8)
        tsVersion := UInt32.ofNat (number payload 34 4) }

end PayloadHeader
end SeriesWire
