/-
The inflation guard.  The head of a compressed payload claims a size, and a claim
that the block could not live up to is refused before any room is made for it.  No
block holds more than 255 times its own length (`Codec.length_decompress?`), so the
guard turns nothing away that the codec would have taken (`inflate_of_inflate`).
-/
import SeriesWire.Batch.Decoder
import SeriesWire.Proofs.Block.Expansion
import SeriesWire.Proofs.Outcomes

namespace SeriesWire

open Bytes

variable {codec : Codec} {size : Nat} {block content payload : Bytes}

namespace Codec

theorem inflate_eq_ok (h : codec.inflate size block = .ok content) :
    codec.decompress? size block = some content ∧ content.length = size := by
  rw [inflate] at h
  split at h
  · cases h
  next found hfound =>
    split at h
    next hsize =>
      cases h
      exact ⟨hfound, hsize⟩
    · cases h

theorem inflate_eq_error {e : WireError} (h : codec.inflate size block = .error e) :
    ∃ fault, e = .decompression codec.name fault := by
  rw [inflate] at h
  split at h
  · cases h
    exact ⟨_, rfl⟩
  · split at h
    · cases h
    · cases h
      exact ⟨_, rfl⟩

theorem size_le_of_inflate (h : codec.inflate size block = .ok content) :
    size ≤ 255 * block.length := by
  obtain ⟨hfound, hsize⟩ := inflate_eq_ok h
  have hle := length_decompress? hfound
  omega

/-- A block is never inflated to a size that is out of proportion. -/
theorem inflate_of_lt (h : 255 * block.length < size) :
    ∃ fault, codec.inflate size block = .error (.decompression codec.name fault) := by
  cases hinflate : codec.inflate size block with
  | ok content =>
    have hle := size_le_of_inflate hinflate
    omega
  | error e =>
    obtain ⟨fault, rfl⟩ := inflate_eq_error hinflate
    exact ⟨fault, rfl⟩

end Codec

namespace RowBatch

/-- The size that the head of a compressed payload claims. -/
def claimedSize (payload : Bytes) : Nat := toNatBE (payload.slice 0 4)

/-- There is a head, and it counts the block behind it. -/
def Counted (payload : Bytes) : Prop :=
  blockHeadLen ≤ payload.length ∧
    (payload.drop blockHeadLen).length = toNatBE (payload.slice 4 4)

instance (payload : Bytes) : Decidable (Counted payload) :=
  inferInstanceAs (Decidable (_ ∧ _))

theorem inflate_of_counted (h : Counted payload) :
    inflate (.block codec) payload =
      if inflationLimit (payload.drop blockHeadLen).length < claimedSize payload then
        .error (.malformed (.batch
          (.inflation (payload.drop blockHeadLen).length (claimedSize payload))))
      else codec.inflate (claimedSize payload) (payload.drop blockHeadLen) := by
  obtain ⟨hhead, hcount⟩ := h
  rw [inflate, if_neg (by omega)]
  simp only [← hcount, claimedSize, not_true_eq_false, ne_eq, if_false]
  rfl

/-- The guard speaks of the block that the payload holds, and of the size that it
claims. -/
theorem inflation_of_inflate {compressed claimed : Nat}
    (h : inflate (.block codec) payload =
      .error (.malformed (.batch (.inflation compressed claimed)))) :
    compressed = (payload.drop blockHeadLen).length ∧ claimed = claimedSize payload ∧
      inflationLimit compressed < claimed := by
  by_cases hcounted : Counted payload
  · rw [inflate_of_counted hcounted] at h
    split at h
    next hlarge =>
      cases h
      exact ⟨rfl, rfl, hlarge⟩
    next =>
      obtain ⟨fault, hfault⟩ := Codec.inflate_eq_error h
      cases hfault
  · simp only [inflate] at h
    split at h
    next => cases h
    next hhead =>
      rw [if_pos fun hcount => hcounted ⟨Nat.le_of_not_lt hhead, hcount⟩] at h
      cases h

/-- What the codec can inflate to the claimed size passes the guard. -/
theorem inflate_of_inflate (h : Counted payload)
    (hinflate : codec.inflate (claimedSize payload) (payload.drop blockHeadLen) = .ok content) :
    inflate (.block codec) payload = .ok content := by
  have hle := Codec.size_le_of_inflate hinflate
  rw [inflate_of_counted h, if_neg (by rw [inflationLimit]; omega), hinflate]

/-- No block of either codec outgrows the limit of the guard.  So whatever the guard
refuses, the codec named by the batch fails to inflate to the size claimed for it, and
whatever the codec does inflate to that size is given back. -/
theorem inflation_guard (codec : Codec) :
    (∀ limit block content, codec.decompress? limit block = some content →
      content.length ≤ 255 * block.length + 64) ∧
    (∀ payload compressed claimed,
      inflate (.block codec) payload =
        .error (.malformed (.batch (.inflation compressed claimed))) →
      ∃ fault, codec.inflate claimed (payload.drop blockHeadLen) =
        .error (.decompression codec.name fault)) ∧
    ∀ payload content, Counted payload →
      codec.inflate (claimedSize payload) (payload.drop blockHeadLen) = .ok content →
      inflate (.block codec) payload = .ok content := by
  refine ⟨fun limit block content h => ?_, fun payload compressed claimed h => ?_,
    fun payload content => inflate_of_inflate⟩
  · have hle := Codec.length_decompress? h
    omega
  · obtain ⟨rfl, -, hlarge⟩ := inflation_of_inflate h
    rw [inflationLimit] at hlarge
    exact Codec.inflate_of_lt (by omega)

/-- A block of seven bytes that repeats one letter 275 times, and a block of one
byte that claims a byte more than the limit. -/
theorem inflation_guard_letters :
    let letters : Bytes := [31, 97, 1, 0, 255, 0, 0]
    let greedy : Bytes := [0, 0, 1, 64, 0, 0, 0, 1, 0]
    (∃ content, Codec.lz4.decompress? 275 letters = some content ∧ content.length = 275 ∧
      275 ≤ 255 * letters.length + 64 ∧
      inflate .lz4 ([0, 0, 1, 19, 0, 0, 0, 7] ++ letters) = .ok content) ∧
    inflate .lz4 greedy = .error (.malformed (.batch (.inflation 1 320))) ∧
      ∃ fault, Codec.lz4.inflate 320 [0] = .error (.decompression "lz4" fault) := by
  intro letters greedy
  obtain ⟨hsize, hrefused, hgiven⟩ := inflation_guard .lz4
  obtain ⟨content, hinflate⟩ : ∃ content, Codec.lz4.inflate 275 letters = .ok content :=
    Outcome.exists_of_isOk (by decide +kernel)
  obtain ⟨hfound, hlen⟩ := Codec.inflate_eq_ok hinflate
  have hle := hsize 275 letters content hfound
  rw [hlen] at hle
  have hguard : inflate .lz4 greedy = .error (.malformed (.batch (.inflation 1 320))) := rfl
  exact ⟨⟨content, hfound, hlen, hle, hgiven _ _ (by decide) hinflate⟩, hguard,
    hrefused _ _ _ hguard⟩

end RowBatch
end SeriesWire
