/-
Messages with repetitions.  An outline keeps every part of a byte string once,
with the number of its copies, so that a message of gigabytes made of a few
fields can be written and measured.  `Outline.send` writes what `send` writes.
-/
import SeriesWire.Wire.Frame

namespace SeriesWire

/-- Parts behind each other, each with the number of its copies. -/
structure Outline where
  parts : List (Nat × Bytes)
  deriving DecidableEq, Repr

namespace Outline

/-- `n` copies of `part` in a row. -/
def copies (n : Nat) (part : List α) : List α := (List.replicate n part).flatten

def bytes (o : Outline) : Bytes := o.parts.flatMap fun (n, part) => copies n part

def ofBytes (bs : Bytes) : Outline := ⟨[(1, bs)]⟩

def length (o : Outline) : Nat := Bytes.totalLen (o.parts.map fun (n, part) => n * part.length)

/-- Fold over `n` copies of `part`. -/
@[specialize] def foldCopies (f : σ → UInt8 → σ) (part : Bytes) : Nat → σ → σ
  | 0, s => s
  | n + 1, s => foldCopies f part n (part.foldl f s)

@[specialize] def foldl (f : σ → UInt8 → σ) (init : σ) (o : Outline) : σ :=
  o.parts.foldl (fun s (n, part) => foldCopies f part n s) init

/-- The first `n` bytes. -/
def take (n : Nat) (o : Outline) : Bytes := go n o.parts
where
  go (n : Nat) : List (Nat × Bytes) → Bytes
    | [] => []
    | (count, part) :: rest =>
      let front := (copies (min count n) part).take n
      front ++ go (n - front.length) rest

/-- Fields with the number of their copies. -/
structure Run where
  count : Nat
  fields : List Field

/-- The fields of `runs`, written out. -/
def fields (runs : List Run) : List Field := runs.flatMap fun run => copies run.count run.fields

/-- What one copy comes to.  Fields without a copy are not looked at. -/
def Run.encode (run : Run) : Except WireError (Nat × Bytes) :=
  if run.count = 0 then .ok (0, []) else (Field.encodeAll run.fields).map (run.count, ·)

/-- Append the message of the given fields. -/
def send (tag : UInt8) (runs : List Run) (dst : Outline) : Except WireError Outline := do
  let body : Outline := ⟨← runs.mapM Run.encode⟩
  let head := tag :: Bytes.ofNatBE Frame.lengthWidth (Frame.lengthWidth + body.length)
  return ⟨dst.parts ++ (1, head) :: body.parts⟩

end Outline
end SeriesWire
