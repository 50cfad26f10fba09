/-
Decimal text of binary numbers: the shortest digits that read back, written
without an exponent however many zeros that takes.
-/
import SeriesWire.Decimal.Shortest

namespace SeriesWire
namespace Decimal

def positional (digits : Nat) (exponent : Int) : String :=
  let written := (Nat.repr digits).toList
  let places := (-exponent).toNat
  if places = 0 then
    String.ofList (written ++ List.replicate exponent.toNat '0')
  else
    let padded := List.replicate (places + 1 - written.length) '0' ++ written
    let whole := padded.length - places
    String.ofList (padded.take whole ++ '.' :: padded.drop whole)

def text (f : Format) : Datum → String
  | .nan .. => "NaN"
  | .infinite negative => if negative then "-inf" else "inf"
  | .finite negative m unit =>
    let sign := if negative then "-" else ""
    if m = 0 then sign ++ "0"
    else
      let (digits, exponent) := shortest f m unit
      sign ++ positional digits exponent

end Decimal

def Binary64.text (x : Binary64) : String := Decimal.text .double x.datum

def Binary32.text (x : Binary32) : String := Decimal.text .single x.datum

end SeriesWire
