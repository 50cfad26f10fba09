/-
The grid of a decoded batch.  Cells are kept column by column, the way a batch
carries them.
-/
import SeriesWire.Bytes

namespace SeriesWire

structure RowGrid where
  rows : Nat
  cols : Nat
  /-- The cells of the first column, then those of the second, and so on. -/
  cells : Array Bytes
  deriving DecidableEq, Repr

namespace RowGrid

def get? (g : RowGrid) (row col : Nat) : Option Bytes :=
  if row < g.rows ∧ col < g.cols then g.cells[col * g.rows + row]? else none

def row? (g : RowGrid) (row : Nat) : Option (List Bytes) :=
  if row < g.rows then (List.range g.cols).mapM (g.get? row) else none

def toRows (g : RowGrid) : List (List Bytes) := (List.range g.rows).filterMap g.row?

end RowGrid
end SeriesWire
