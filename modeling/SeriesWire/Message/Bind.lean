/-
The Bind message: one row of parameters for a prepared statement.
-/
import SeriesWire.Cell.Param
import SeriesWire.Wire.Frame
import SeriesWire.Wire.Reader

namespace SeriesWire

structure Bind where
  portal : String
  statement : String
  paramFormats : List Int16
  params : List (Option Bytes)
  resultFormats : List Int16
  deriving DecidableEq, Repr

namespace Bind

def tag : UInt8 := 66

/-- The format code of binary parameters and results. -/
def binary : Int16 := 1

/-- A parameter behind its length.  A missing one has length -1. -/
def paramFields : Option Bytes → List Field
  | none => [.i32 (-1)]
  | some bs =>
    [.atMost Field.lengthLimit bs.length (.range "parameter" (.bytes bs.length)),
      .i32 (Int32.ofNat bs.length), .bytes bs]

def fields (b : Bind) : List Field :=
  [.text b.portal, .text b.statement] ++
    Field.counted "parameter formats" b.paramFormats .i16 ++
    Field.count "parameters" b.params.length ++ b.params.flatMap paramFields ++
    Field.counted "result formats" b.resultFormats .i16

def encode (b : Bind) : SendM Unit := send tag b.fields

/-- Format codes behind their count.  Whether they are all there is checked
before the first is read. -/
def readFormats : ReadM (List Int16) := do
  let count := (← Read.u16).toNat
  let r ← get
  if r.has (count * 2) then Read.many count Read.i16
  else Read.reject (.bind (.formatCodes count (count * 2) r.remaining))

def readParam : ReadM (Option Bytes) := do
  let len := (← Read.i32).toInt
  if len = -1 then return none
  else if len < 0 then Read.reject (.bind (.paramLength len))
  else return some (← Read.bytes len.toNat)

def read : ReadM Bind := do
  let portal ← Read.text
  let statement ← Read.text
  let paramFormats ← readFormats
  let params ← Read.counted readParam
  let resultFormats ← readFormats
  Read.finish
  return { portal, statement, paramFormats, params, resultFormats }

def decode (body : Bytes) : Except WireError Bind := Read.run "Bind" body read

def ofCells (portal statement : String) (oids : List UInt32) (row : List CellValue) :
    Except WireError Bind := do
  if oids.length ≠ row.length then
    throw (.malformed (.bind (.valueCount row.length oids.length)))
  let params ← (oids.zip row).zipIdx.mapM fun ((oid, v), c) =>
    WireError.inCell 0 c (v.toParam oid)
  return { portal, statement, paramFormats := [binary], params, resultFormats := [binary] }

def cells (b : Bind) (oids : List UInt32) : Except WireError (List CellValue) := do
  if oids.length ≠ b.params.length then
    throw (.malformed (.bind (.paramCount b.params.length oids.length)))
  (oids.zip b.params).mapM fun (oid, param) => CellValue.ofParam oid param

end Bind
end SeriesWire
