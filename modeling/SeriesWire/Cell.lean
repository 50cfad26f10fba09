/-
Cell values: what a row holds in memory before it is packed.
-/
import SeriesWire.Binary
import SeriesWire.Bytes
import SeriesWire.Column
import SeriesWire.Error

namespace SeriesWire

inductive CellValue
  | null
  | int (value : Int64)
  | float (value : Binary64)
  /-- Microseconds since 2000-01-01 UTC. -/
  | timestamp (micros : Int64)
  | bytes (value : Bytes)
  deriving DecidableEq, Repr, Inhabited

namespace CellValue

def isNull : CellValue → Bool
  | null => true
  | _ => false

def kind : CellValue → String
  | null => "null"
  | int _ => "integer"
  | float _ => "float"
  | timestamp _ => "timestamp"
  | bytes _ => "bytes"

def mismatch (v : CellValue) (oid : UInt32) : WireError := .typeMismatch oid v.kind

end CellValue

def textHeaderLen : Nat := 2

/-- A text as result cells and variable entries hold it: its length plus one,
the text, and a NUL. -/
def textEntry (text : Bytes) : Bytes :=
  Bytes.ofNatLE textHeaderLen (text.length + 1) ++ text ++ [0]

/-- Whether the length in front of a text can count it and its terminator. -/
def fitsTextHeader (text : Bytes) : Bool := text.length + 1 < Bytes.space textHeaderLen

end SeriesWire
