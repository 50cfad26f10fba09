/-
Reading message bodies.  A reader moves over a body front to back and knows what
it reads, so that faults can name it.  Every read either takes its bytes or
leaves the reader where it was.
-/
import SeriesWire.Bytes
import SeriesWire.Error

namespace SeriesWire

structure Reader where
  subject : String
  position : Nat
  rest : Bytes
  deriving DecidableEq, Repr

/-- A step that reads from a body. -/
abbrev ReadM := EStateM WireError Reader

namespace Reader

def ofBody (subject : String) (body : Bytes) : Reader := ⟨subject, 0, body⟩

def remaining (r : Reader) : Nat := r.rest.length

def has (r : Reader) (n : Nat) : Bool := n ≤ r.remaining

def advance (r : Reader) (n : Nat) : Reader :=
  { r with position := r.position + n, rest := r.rest.drop n }

def fault (r : Reader) (f : ReadFault) : WireError := .malformed (.reading r.subject f)

end Reader

namespace Read

def run (subject : String) (body : Bytes) (m : ReadM α) : Except WireError α :=
  match m (.ofBody subject body) with
  | .ok a _ => .ok a
  | .error e _ => .error e

def bytes (n : Nat) : ReadM Bytes := fun r =>
  let taken := r.rest.take n
  if taken.length < n then .error (r.fault (.short n r.position r.remaining)) r
  else .ok taken (r.advance n)

def u8 : ReadM UInt8 := return UInt8.ofNat (← bytes 1).toNatBE

def u16 : ReadM UInt16 := return UInt16.ofNat (← bytes 2).toNatBE

def i16 : ReadM Int16 := return Int16.ofInt (← bytes 2).toIntBE

def u32 : ReadM UInt32 := return UInt32.ofNat (← bytes 4).toNatBE

def i32 : ReadM Int32 := return Int32.ofInt (← bytes 4).toIntBE

/-- A text up to a NUL, which is taken too. -/
def text : ReadM String := fun r =>
  let spelling := Bytes.beforeNul r.rest
  match r.rest.drop spelling.length with
  | [] => .error (r.fault (.unterminated r.position)) r
  | _ :: _ =>
    match Utf8.decode spelling with
    | .error f => .error (r.fault (.notUtf8 f)) r
    | .ok s => .ok s (r.advance (spelling.length + 1))

/-- Everything not read yet, without taking it. -/
def rest : ReadM Bytes := return (← get).rest

/-- Fail if anything is left. -/
def finish : ReadM Unit := fun r =>
  if r.rest = [] then .ok () r else .error (r.fault (.trailing r.remaining)) r

def reject (cause : Malformation) : ReadM α := throw (.malformed cause)

/-- Read `count` more items behind those in `done`. -/
def gather (item : ReadM α) (done : List α) : Nat → ReadM (List α)
  | 0 => fun r => .ok done.reverse r
  | count + 1 => fun r =>
    match item r with
    | .ok a r => gather item (a :: done) count r
    | .error e r => .error e r

def many (count : Nat) (item : ReadM α) : ReadM (List α) := gather item [] count

theorem gather_eq (item : ReadM α) (done : List α) (count : Nat) (r : Reader) :
    gather item done count r =
      match gather item [] count r with
      | .ok l r => .ok (done.reverse ++ l) r
      | .error e r => .error e r := by
  induction count generalizing done r with
  | zero => simp [gather]
  | succ count ih =>
    simp only [gather]
    cases item r with
    | error e r => rfl
    | ok a r =>
      simp only [ih (a :: done), ih [a]]
      cases gather item [] count r <;> simp

@[simp] theorem many_zero (item : ReadM α) (r : Reader) : many 0 item r = .ok [] r := rfl

theorem many_succ (item : ReadM α) (count : Nat) (r : Reader) :
    many (count + 1) item r =
      match item r with
      | .error e r => .error e r
      | .ok a r =>
        match many count item r with
        | .error e r => .error e r
        | .ok l r => .ok (a :: l) r := by
  simp only [many, gather]
  cases item r with
  | error e r => rfl
  | ok a r =>
    simp only [gather_eq item [a]]
    cases gather item [] count r <;> simp

def counted (item : ReadM α) : ReadM (List α) := do many (← u16).toNat item

end Read
end SeriesWire
