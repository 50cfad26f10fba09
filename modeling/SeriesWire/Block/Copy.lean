/-
Back references, the part that block formats share: an element repeats bytes
that were produced `offset` bytes before, and may run into its own output.
-/
import SeriesWire.Bytes

namespace SeriesWire
namespace Block

/-- Repeat `count` bytes from `offset` bytes before the end. -/
def copyBack (offset : Nat) : Nat → Array UInt8 → Array UInt8
  | 0, out => out
  | count + 1, out => copyBack offset count (out.push (out.getD (out.size - offset) 0))

@[simp] theorem size_copyBack (offset count : Nat) (out : Array UInt8) :
    (copyBack offset count out).size = out.size + count := by
  induction count generalizing out with
  | zero => rfl
  | succ n ih => simp [copyBack, ih]; omega

/-- Append `count` bytes of `src`, giving back what follows them.  Fails when
`src` is shorter or the output would exceed `limit`. -/
def literal? (limit count : Nat) (src : Bytes) (out : Array UInt8) :
    Option (Bytes × Array UInt8) :=
  let taken := src.take count
  if taken.length < count ∨ limit < out.size + count then none
  else some (src.drop count, out ++ taken.toArray)

/-- Append a back reference.  Fails when it reaches before the start of the
output or the output would exceed `limit`. -/
def reference? (limit offset count : Nat) (out : Array UInt8) : Option (Array UInt8) :=
  if offset = 0 ∨ out.size < offset ∨ limit < out.size + count then none
  else some (copyBack offset count out)

end Block
end SeriesWire
