/-
Numbers as people write them into settings.
-/

namespace SeriesWire
namespace Numeral

def ofDigits (digits : List Char) : Nat :=
  digits.foldl (fun n c => n * 10 + (c.toNat - 48)) 0

/-- The number that `s` spells in decimal digits, with or without a plus sign,
if it is at most `limit`. -/
def ofText? (limit : Nat) (s : String) : Option Nat :=
  let digits := match s.toList with
    | '+' :: rest => rest
    | cs => cs
  if digits.isEmpty || !digits.all Char.isDigit then none
  else if ofDigits digits ≤ limit then some (ofDigits digits)
  else none

end Numeral
end SeriesWire
