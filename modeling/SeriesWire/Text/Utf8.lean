/-
UTF-8.  A byte string falls apart into chunks: characters, and stretches that no
valid sequence continues.  A stretch is the longest one that still begins some
valid sequence, and at least one byte, so that reading can go on behind it.
Strict reading, reading with replacement characters and the escaping of group
keys are all views of `chunks`.
-/
import SeriesWire.Bytes

namespace SeriesWire
namespace Utf8

inductive Chunk
  /-- A character and the bytes that spell it. -/
  | char (c : Char) (spelling : Bytes)
  /-- Bytes that begin no character here.  `cut` says that the text ends inside
  a sequence that is valid so far. -/
  | bad (bytes : Bytes) (cut : Bool)
  deriving DecidableEq, Repr

def Chunk.bytes : Chunk → Bytes
  | .char _ spelling => spelling
  | .bad bytes _ => bytes

/-- What a leading byte asks for: how many bytes follow, the range of the first
of them, and the bits that the leading byte itself contributes.  The narrow
ranges behind `e0`, `ed`, `f0` and `f4` keep out overlong forms, surrogates and
numbers beyond the last code point. -/
structure Lead where
  following : Nat
  low : Nat
  high : Nat
  bits : Nat

def lead? (b : Nat) : Option Lead :=
  if b < 0x80 then some ⟨0, 0, 0, b⟩
  else if 0xc2 ≤ b ∧ b < 0xe0 then some ⟨1, 0x80, 0xbf, b - 0xc0⟩
  else if b = 0xe0 then some ⟨2, 0xa0, 0xbf, 0⟩
  else if b = 0xed then some ⟨2, 0x80, 0x9f, 0xd⟩
  else if 0xe1 ≤ b ∧ b < 0xf0 then some ⟨2, 0x80, 0xbf, b - 0xe0⟩
  else if b = 0xf0 then some ⟨3, 0x90, 0xbf, 0⟩
  else if 0xf1 ≤ b ∧ b < 0xf4 then some ⟨3, 0x80, 0xbf, b - 0xf0⟩
  else if b = 0xf4 then some ⟨3, 0x80, 0x8f, 4⟩
  else none

/-- Read `following` more bytes of a sequence, the first between `low` and
`high`, the others between `80` and `bf`. -/
def follow (taken : Bytes) (value low high : Nat) : Nat → Bytes → Chunk
  | 0, _ => .char (Char.ofNat value) taken.reverse
  | _ + 1, [] => .bad taken.reverse true
  | following + 1, b :: rest =>
    if low ≤ b.toNat ∧ b.toNat ≤ high then
      follow (b :: taken) (value * 64 + b.toNat % 64) 0x80 0xbf following rest
    else
      .bad taken.reverse false

def front (b : UInt8) (rest : Bytes) : Chunk :=
  match lead? b.toNat with
  | none => .bad [b] false
  | some l => follow [b] l.bits l.low l.high l.following rest

/-- Gather chunks behind those in `done`; the first `skip` bytes belong to the
chunk gathered last. -/
def gather : Bytes → Nat → List Chunk → List Chunk
  | [], _, done => done.reverse
  | _ :: rest, skip + 1, done => gather rest skip done
  | b :: rest, 0, done =>
    let chunk := front b rest
    gather rest (chunk.bytes.length - 1) (chunk :: done)

def chunks (bs : Bytes) : List Chunk := gather bs 0 []

theorem gather_eq (bs : Bytes) (skip : Nat) (done : List Chunk) :
    gather bs skip done = done.reverse ++ gather (bs.drop skip) 0 [] := by
  induction bs generalizing skip done with
  | nil => simp [gather]
  | cons b rest ih =>
    cases skip with
    | succ skip => rw [gather, ih, List.drop_succ_cons]
    | zero =>
      rw [List.drop_zero, gather, gather, ih, ih _ [front b rest]]
      simp

theorem chunks_cons (b : UInt8) (rest : Bytes) :
    chunks (b :: rest) =
      front b rest :: chunks (rest.drop ((front b rest).bytes.length - 1)) := by
  rw [chunks, gather, gather_eq]
  rfl

/-- Following a sequence takes bytes off the text and drops none. -/
theorem bytes_follow (taken : Bytes) (value low high following : Nat) (rest : Bytes) :
    ∃ count, (follow taken value low high following rest).bytes =
      taken.reverse ++ rest.take count := by
  induction rest generalizing taken value low high following with
  | nil => cases following <;> exact ⟨0, by simp [follow, Chunk.bytes]⟩
  | cons b rest ih =>
    cases following with
    | zero => exact ⟨0, by simp [follow, Chunk.bytes]⟩
    | succ following =>
      rw [follow]
      split
      · obtain ⟨count, h⟩ := ih (b :: taken) (value * 64 + b.toNat % 64) 0x80 0xbf following
        exact ⟨count + 1, by simp [h]⟩
      · exact ⟨0, by simp [Chunk.bytes]⟩

theorem bytes_front (b : UInt8) (rest : Bytes) :
    ∃ count, (front b rest).bytes = b :: rest.take count := by
  rw [front]
  split
  · exact ⟨0, by simp [Chunk.bytes]⟩
  · obtain ⟨count, h⟩ := bytes_follow [b] _ _ _ _ rest
    exact ⟨count, by simpa using h⟩

theorem flatMap_bytes_chunks (bs : Bytes) : (chunks bs).flatMap Chunk.bytes = bs := by
  induction h : bs.length using Nat.strongRecOn generalizing bs with
  | _ n ih =>
    cases bs with
    | nil => rfl
    | cons b rest =>
      obtain ⟨count, hfront⟩ := bytes_front b rest
      have hlen : (rest.drop ((front b rest).bytes.length - 1)).length < n := by
        simp at h ⊢
        omega
      rw [chunks_cons, List.flatMap_cons, ih _ hlen _ rfl, hfront, List.cons_append]
      congr 1
      rw [List.length_cons, Nat.add_sub_cancel, List.length_take, List.drop_eq_drop_iff.2]
      · exact List.take_append_drop count rest
      · omega

def encode (s : String) : Bytes := s.toList.flatMap String.utf8EncodeChar

/-- Why a byte string is no UTF-8: where the first bad stretch starts, and how
long it is, `none` when the text ends inside a sequence. -/
structure Fault where
  index : Nat
  length : Option Nat
  deriving DecidableEq, Repr

def Fault.message (f : Fault) : String :=
  match f.length with
  | some n => s!"invalid utf-8 sequence of {n} bytes from index {f.index}"
  | none => s!"incomplete utf-8 byte sequence from index {f.index}"

/-- The characters of `cs`, `index` bytes into the text, behind those in
`done`. -/
def characters (index : Nat) (done : List Char) : List Chunk → Except Fault (List Char)
  | [] => .ok done.reverse
  | .char c spelling :: rest => characters (index + spelling.length) (c :: done) rest
  | .bad bytes cut :: _ => .error ⟨index, if cut then none else some bytes.length⟩

def decode (bs : Bytes) : Except Fault String :=
  (characters 0 [] (chunks bs)).map String.ofList

/-- Read with U+FFFD in place of each bad stretch. -/
def decodeLossy (bs : Bytes) : String :=
  String.ofList <| (chunks bs).map fun
    | .char c _ => c
    | .bad _ _ => '\ufffd'

end Utf8
end SeriesWire
