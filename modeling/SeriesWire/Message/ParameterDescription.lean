/-
Descriptions of the parameters of a prepared statement.  The description of an
insert also says how rows are laid out in payloads.
-/
import SeriesWire.Layout
import SeriesWire.Wire.Frame
import SeriesWire.Wire.Reader

namespace SeriesWire

structure ParameterDescription where
  oids : List UInt32
  deriving DecidableEq, Repr

namespace ParameterDescription

def tag : UInt8 := 116

def fields (d : ParameterDescription) : List Field :=
  Field.counted "parameter oids" d.oids .u32

def encode (d : ParameterDescription) : SendM Unit := send tag d.fields

/-- Servers let the count wrap, so the size of the body decides. -/
def read : ReadM ParameterDescription := do
  let _ ← Read.u16
  let r ← get
  if r.remaining % 4 ≠ 0 then Read.reject (.oidBytes r.remaining)
  else return { oids := ← Read.many (r.remaining / 4) Read.u32 }

def decode (body : Bytes) : Except WireError ParameterDescription :=
  Read.run "ParameterDescription" body read

end ParameterDescription

/-- What a client needs to pack rows for an insert. -/
structure InsertDescription where
  oids : List UInt32
  /-- The first tag column. -/
  tagIndex : Int16
  primaryTags : List UInt16
  storageLens : List UInt32
  deriving DecidableEq, Repr

namespace InsertDescription

def tag : UInt8 := 88

def fields (d : InsertDescription) : List Field :=
  Field.counted "parameter oids" d.oids .u32 ++ [.i16 d.tagIndex] ++
    Field.counted "primary tag ids" d.primaryTags .u16 ++
    Field.counted "storage lengths" d.storageLens .u32

def encode (d : InsertDescription) : SendM Unit := send tag d.fields

def read : ReadM InsertDescription := do
  let oids ← Read.counted Read.u32
  let tagIndex ← Read.i16
  let primaryTags ← Read.counted Read.u16
  let storageLens ← Read.counted Read.u32
  Read.finish
  return { oids, tagIndex, primaryTags, storageLens }

def decode (body : Bytes) : Except WireError InsertDescription :=
  Read.run "ParameterDescriptionEx" body read

def layout (d : InsertDescription) : Except WireError Layout :=
  if d.tagIndex.toInt < 0 then .error (.malformed (.negativeTagIndex d.tagIndex.toInt))
  else
    Layout.ofColumns d.oids d.storageLens d.tagIndex.toInt.toNat (d.primaryTags.map (·.toNat))

end InsertDescription
end SeriesWire
