/-
Framing.  A message on the wire is a type byte, a length of four bytes that
counts itself and the body, and the body.  A message is written in place, behind
the bytes to be sent: its length is left open until the last field stands, and a
field that cannot be written takes the whole message back.  `receive` takes the
messages that have arrived off the front of a buffer.
-/
import SeriesWire.Wire.Field

namespace SeriesWire

structure Frame where
  tag : UInt8
  body : Bytes
  deriving DecidableEq, Repr

/-- A step that appends to the bytes to be sent. -/
abbrev SendM := EStateM WireError Bytes

namespace Frame

def lengthWidth : Nat := 4

/-- Length of what stands in front of the body. -/
def headLen : Nat := 1 + lengthWidth

/-- The longest body whose message the length can tell. -/
def bodyLimit : Nat := 2147483647 - lengthWidth

def wireLen (f : Frame) : Nat := headLen + f.body.length

def bytes (f : Frame) : Bytes :=
  f.tag :: Bytes.ofNatBE lengthWidth (lengthWidth + f.body.length) ++ f.body

theorem length_bytes (f : Frame) : f.bytes.length = f.wireLen := by
  simp [bytes, wireLen, headLen, lengthWidth]
  omega

/-- The message at the front of `buf`, `none` as long as some of it is
missing. -/
def split (buf : Bytes) : Except WireError (Option Frame) :=
  match buf with
  | [] => .ok none
  | tag :: rest =>
    let length : Bytes := rest.take lengthWidth
    if length.length < lengthWidth then .ok none
    else
      let declared := length.toIntBE
      if declared < lengthWidth then .error (.malformed (.frame (.length declared)))
      else
        let bodyLen := declared.toNat - lengthWidth
        let body := Bytes.slice rest lengthWidth bodyLen
        if body.length < bodyLen then .ok none else .ok (some ⟨tag, body⟩)

theorem split_short {buf : Bytes} (h : buf.length < headLen) : split buf = .ok none := by
  cases buf with
  | nil => rfl
  | cons tag rest =>
    have hrest : (rest.take lengthWidth).length < lengthWidth := by
      rw [List.length_cons, headLen, Nat.add_comm] at h
      rw [List.length_take]
      omega
    simp only [split, hrest, if_true]

theorem exists_head {buf : Bytes} (h : headLen ≤ buf.length) :
    ∃ (tag : UInt8) (length rest : Bytes),
      length.length = lengthWidth ∧ buf = tag :: (length ++ rest) := by
  cases buf with
  | nil => cases h
  | cons tag rest =>
    rw [List.length_cons, headLen, Nat.add_comm] at h
    refine ⟨tag, rest.take lengthWidth, rest.drop lengthWidth, ?_, ?_⟩
    · rw [List.length_take]
      omega
    · rw [List.take_append_drop]

/-- All that `split` does once the head has arrived. -/
theorem split_head {length : Bytes} (hlength : length.length = lengthWidth) (tag : UInt8)
    (rest : Bytes) :
    split (tag :: (length ++ rest)) =
      if length.toIntBE < lengthWidth then .error (.malformed (.frame (.length length.toIntBE)))
      else if rest.length < length.toIntBE.toNat - lengthWidth then .ok none
      else .ok (some ⟨tag, rest.take (length.toIntBE.toNat - lengthWidth)⟩) := by
  have htake : (length ++ rest).take lengthWidth = length := List.take_left' hlength
  have hslice (n : Nat) : Bytes.slice (length ++ rest) lengthWidth n = rest.take n := by
    rw [Bytes.slice, List.drop_left' hlength]
  have hwhole : (rest.take (length.toIntBE.toNat - lengthWidth)).length <
      length.toIntBE.toNat - lengthWidth ↔ rest.length < length.toIntBE.toNat - lengthWidth := by
    rw [List.length_take]
    omega
  simp only [split, htake, hslice, hlength, Nat.lt_irrefl, if_false, hwhole]

/-- What stands in a buffer from which a message was split. -/
theorem eq_of_split {buf : Bytes} {f : Frame} (h : split buf = .ok (some f)) :
    ∃ length rest : Bytes, length.length = lengthWidth ∧ length.toIntBE = (f.wireLen : Int) - 1 ∧
      buf = f.tag :: (length ++ (f.body ++ rest)) := by
  rcases Nat.lt_or_ge buf.length headLen with hshort | hlong
  · rw [split_short hshort] at h
    cases h
  obtain ⟨tag, length, rest, hlength, rfl⟩ := exists_head hlong
  rw [split_head hlength] at h
  split at h
  · cases h
  next hsmall =>
    split at h
    · cases h
    next hrest =>
      cases h
      refine ⟨length, rest.drop (length.toIntBE.toNat - lengthWidth), hlength, ?_, ?_⟩
      · simp only [wireLen, headLen, List.length_take]
        omega
      · rw [List.take_append_drop]

theorem wireLen_of_split {buf : Bytes} {f : Frame} (h : split buf = .ok (some f)) :
    headLen ≤ f.wireLen ∧ f.wireLen ≤ buf.length := by
  obtain ⟨length, rest, hlength, -, rfl⟩ := eq_of_split h
  refine ⟨Nat.le_add_right _ _, ?_⟩
  simp only [wireLen, headLen, List.length_cons, List.length_append, hlength]
  omega

def expect (tag : UInt8) (f : Frame) : Except WireError Bytes :=
  if f.tag = tag then .ok f.body else .error (.malformed (.frame (.tag tag f.tag)))

/-! ## Receiving -/

/-- What a receiver gets out of a buffer. -/
structure Received where
  frames : List Frame
  /-- The bytes behind the messages, which begin no whole one, or why none can
  follow. -/
  left : Except WireError Bytes

/-- Take message after message off the front of `buf`, behind those in `done`. -/
def receiveOnto (done : List Frame) (buf : Bytes) : Received :=
  match _h : split buf with
  | .error e => ⟨done.reverse, .error e⟩
  | .ok none => ⟨done.reverse, .ok buf⟩
  | .ok (some f) => receiveOnto (f :: done) (buf.drop f.wireLen)
termination_by buf.length
decreasing_by
  obtain ⟨hlow, hhigh⟩ := wireLen_of_split _h
  simp only [headLen] at hlow
  simp only [List.length_drop]
  omega

def receive (buf : Bytes) : Received := receiveOnto [] buf

end Frame

/-! ## Writing in place -/

namespace Write

/-- What stands in the length as long as it is open. -/
def openLength : Bytes := Bytes.ofIntBE Frame.lengthWidth (-1)

/-- Append fields up to the first that cannot be written. -/
def fields : List Field → EStateM WireError (Array UInt8) Unit
  | [], buf => .ok () buf
  | f :: rest, buf =>
    match f.encode with
    | .ok bs => fields rest (buf ++ bs)
    | .error e => .error e buf

end Write

/-- Append a message.  Its length is what has been written from the length on,
as a number of four bytes.  If a field fails, everything from the type byte on is
cut off again. -/
def send (tag : UInt8) (fields : List Field) : SendM Unit := fun dst =>
  match Write.fields fields (dst.toArray ++ (tag :: Write.openLength)) with
  | .ok () buf =>
    let lengthAt := dst.length + 1
    let length := Bytes.ofNatBE Frame.lengthWidth (buf.size - lengthAt)
    .ok () (Bytes.overwrite buf.toList lengthAt length)
  | .error e buf => .error e (buf.toList.take dst.length)

end SeriesWire
