/-
Errors.  An error carries its cause; an error met inside a row or a batch also
carries the cell, and `root` looks through any number of these.
-/
import SeriesWire.Error.Fault

namespace SeriesWire

inductive WireError
  | malformed (cause : Malformation)
  | range (target : String) (cause : RangeFault)
  | unsupportedType (oid : UInt32)
  | typeMismatch (oid : UInt32) (kind : String)
  | decompression (codec : String) (cause : BlockFault)
  | bounds (cause : BoundsFault)
  | cell (row column : Nat) (source : WireError)
  deriving DecidableEq, Repr

namespace WireError

def message : WireError → String
  | malformed cause => s!"{cause.subject}: malformed message: {cause.message}"
  | range target cause => s!"value out of range for {target}: {cause.message}"
  | unsupportedType oid => s!"unsupported column type oid {oid}"
  | typeMismatch oid kind => s!"{kind} value cannot be stored in a column of oid {oid}"
  | decompression codec cause => s!"{codec} decompression failed: {cause.message}"
  | bounds cause => s!"bounds violation: {cause.message}"
  | cell row column source => s!"row {row} column {column}: {source.message}"

/-- The error without the cells it was met in. -/
def root : WireError → WireError
  | cell _ _ source => source.root
  | e => e

/-- A bounds violation means that the two sides disagree about the protocol;
nothing from such a message may be used. -/
def isRecoverable (e : WireError) : Bool :=
  match e.root with
  | bounds _ => false
  | _ => true

/-- Name the cell in which a step failed. -/
def inCell (row column : Nat) (r : Except WireError α) : Except WireError α :=
  r.mapError (cell row column)

end WireError
end SeriesWire
