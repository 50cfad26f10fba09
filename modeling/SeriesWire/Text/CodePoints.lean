/-
Sets of characters, given by closed ranges of code points.
-/

namespace SeriesWire

abbrev CodePoints := List (Nat × Nat)

namespace CodePoints

def contains (s : CodePoints) (c : Char) : Bool := s.any fun r => r.1 ≤ c.toNat && c.toNat ≤ r.2

end CodePoints
end SeriesWire
