/-
What sending leaves.  A message is written field by field behind the bytes that
were there before, and afterwards stands there as a whole (`send_of_ok`) or not
at all (`send_of_error`).
-/
import SeriesWire.Proofs.Wire.Reads
import SeriesWire.Wire.Frame

namespace SeriesWire

open Bytes

variable {tag : UInt8} {fields : List Field} {body dst dst' : Bytes} {e : WireError}

theorem Frame.drop_bytes (f : Frame) : f.bytes.drop headLen = f.body := by
  rw [bytes]
  apply List.drop_left'
  rw [List.length_cons, Bytes.length_ofNatBE, headLen, Nat.add_comm]

/-! ## Fields in place -/

namespace Write

theorem fields_of_ok (h : Field.encodeAll fields = .ok body) (buf : Array UInt8) :
    ∃ buf', Write.fields fields buf = .ok () buf' ∧ buf'.toList = buf.toList ++ body := by
  induction fields generalizing body buf with
  | nil =>
    rw [Field.encodeAll_nil_ok.1 h, List.append_nil]
    exact ⟨buf, rfl, rfl⟩
  | cons f rest ih =>
    obtain ⟨first, others, hfirst, hothers, rfl⟩ := Field.encodeAll_cons_ok.1 h
    obtain ⟨buf', hwritten, hbuf'⟩ := ih hothers (buf ++ first)
    rw [Array.toList_appendList, List.append_assoc] at hbuf'
    refine ⟨buf', ?_, hbuf'⟩
    simp only [Write.fields, hfirst, hwritten]

/-- Fields in front of the one that fails have been written by then. -/
theorem fields_of_error (h : Field.encodeAll fields = .error e) (buf : Array UInt8) :
    ∃ buf' written, Write.fields fields buf = .error e buf' ∧
      buf'.toList = buf.toList ++ written := by
  induction fields generalizing buf with
  | nil => cases h
  | cons f rest ih =>
    rcases Field.encodeAll_cons_error.1 h with hfirst | ⟨first, hfirst, hrest⟩
    · refine ⟨buf, [], ?_, (List.append_nil _).symm⟩
      simp only [Write.fields, hfirst]
    · obtain ⟨buf', written, hwritten, hbuf'⟩ := ih hrest (buf ++ first)
      rw [Array.toList_appendList, List.append_assoc] at hbuf'
      refine ⟨buf', first ++ written, ?_, hbuf'⟩
      simp only [Write.fields, hfirst, hwritten]

end Write

/-! ## Messages in place -/

theorem send_of_ok (h : Field.encodeAll fields = .ok body) (dst : Bytes) :
    send tag fields dst = .ok () (dst ++ Frame.bytes ⟨tag, body⟩) := by
  obtain ⟨buf, hwritten, hbuf⟩ :=
    Write.fields_of_ok h (dst.toArray ++ (tag :: Write.openLength))
  rw [Array.toList_appendList, List.append_assoc, List.cons_append, List.append_cons] at hbuf
  have hsize : buf.size - (dst.length + 1) = Frame.lengthWidth + body.length := by
    rw [← Array.length_toList, hbuf]
    simp only [List.length_append, List.length_singleton, Write.openLength, length_ofIntBE]
    omega
  have hwidth : (ofNatBE Frame.lengthWidth (Frame.lengthWidth + body.length)).length =
      Write.openLength.length := by
    rw [length_ofNatBE, Write.openLength, length_ofIntBE]
  have hpatched := overwrite_append hwidth (dst ++ [tag]) body
  rw [List.length_append, List.length_singleton] at hpatched
  simp only [send, hwritten, hsize, hbuf]
  rw [hpatched]
  simp [Frame.bytes]

theorem send_of_error (h : Field.encodeAll fields = .error e) (dst : Bytes) :
    send tag fields dst = .error e dst := by
  obtain ⟨buf, written, hwritten, hbuf⟩ :=
    Write.fields_of_error h (dst.toArray ++ (tag :: Write.openLength))
  rw [Array.toList_appendList, List.append_assoc] at hbuf
  simp only [send, hwritten, hbuf]
  rw [List.take_left]

theorem send_ok (h : send tag fields dst = .ok () dst') :
    ∃ body, Field.encodeAll fields = .ok body ∧ dst' = dst ++ Frame.bytes ⟨tag, body⟩ := by
  cases hbody : Field.encodeAll fields with
  | error e =>
    rw [send_of_error hbody] at h
    cases h
  | ok body =>
    rw [send_of_ok hbody] at h
    cases h
    exact ⟨body, rfl, rfl⟩

theorem send_ok_parts (h : send tag fields dst = .ok () dst') :
    dst'.take dst.length = dst ∧
      Field.encodeAll fields = .ok (dst'.drop (dst.length + Frame.headLen)) := by
  obtain ⟨body, hbody, rfl⟩ := send_ok h
  rw [List.take_left, List.drop_length_add_append, Frame.drop_bytes]
  exact ⟨rfl, hbody⟩

end SeriesWire
