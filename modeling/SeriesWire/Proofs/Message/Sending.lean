/-
Sending a message.  Every message goes out through `send` or is refused before
anything of it is written, so that what was there before is kept
(`Sending.allOrNothing`).  The length of a message wraps where four bytes cannot
hold it: a message tells its true length exactly if it is at most 2 ^ 31 bytes
long.
-/
import SeriesWire.Batch.Builder
import SeriesWire.Message.BatchBind
import SeriesWire.Message.Bind
import SeriesWire.Message.ParameterDescription
import SeriesWire.Proofs.Wire.Framing
import SeriesWire.Proofs.Wire.Outline

namespace SeriesWire

open Bytes

/-- The steps that send one message. -/
inductive Sending : SendM Unit → Prop
  | fields (tag : UInt8) (fields : List Field) : Sending (send tag fields)
  | bind (b : Bind) : Sending b.encode
  | batchBind (b : BatchBind) : Sending b.encode
  | batchBindFrame (f : BatchBindFrame) : Sending f.encode
  | parameters (d : ParameterDescription) : Sending d.encode
  | insert (d : InsertDescription) : Sending d.encode
  | rowBatch (b : RowBatch) : Sending b.encode
  | rows (b : BatchBuilder) (rows : List (List CellValue)) : Sending (b.encode rows)

/-! ## All or nothing -/

/-- The step `m` appends a message or leaves everything as it was. -/
structure AllOrNothing (m : SendM Unit) : Prop where
  kept : ∀ dst dst', m dst = .ok () dst' → dst <+: dst'
  untouched : ∀ dst e dst', m dst = .error e dst' → dst' = dst
  /-- What was there before decides neither on the message nor on the error. -/
  alike : (∃ f : Frame, ∀ dst, m dst = .ok () (dst ++ f.bytes)) ∨ ∃ e, ∀ dst, m dst = .error e dst

variable {m : SendM Unit} {dst dst' : Bytes}

theorem AllOrNothing.of_appends {f : Frame} (h : ∀ dst, m dst = .ok () (dst ++ f.bytes)) :
    AllOrNothing m where
  kept := by
    intro dst dst' hm
    rw [h dst] at hm
    cases hm
    exact List.prefix_append dst f.bytes
  untouched := by
    intro dst e dst' hm
    rw [h dst] at hm
    cases hm
  alike := .inl ⟨f, h⟩

theorem AllOrNothing.of_fails {e : WireError} (h : ∀ dst, m dst = .error e dst) :
    AllOrNothing m where
  kept := by
    intro dst dst' hm
    rw [h dst] at hm
    cases hm
  untouched := by
    intro dst e' dst' hm
    rw [h dst] at hm
    cases hm
    rfl
  alike := .inr ⟨e, h⟩

theorem AllOrNothing.throw (e : WireError) : AllOrNothing (throw e) := .of_fails fun _ => rfl

theorem AllOrNothing.send (tag : UInt8) (fields : List Field) :
    AllOrNothing (send tag fields) := by
  cases hbody : Field.encodeAll fields with
  | ok body => exact .of_appends (f := ⟨tag, body⟩) (send_of_ok hbody)
  | error e => exact .of_fails (send_of_error hbody)

theorem RowBatch.allOrNothing (b : RowBatch) : AllOrNothing b.encode := by
  rw [RowBatch.encode]
  split
  · exact .throw _
  · exact .send RowBatch.tag b.fields

theorem Sending.allOrNothing (h : Sending m) : AllOrNothing m := by
  cases h with
  | fields tag fields => exact .send tag fields
  | bind b => exact .send Bind.tag b.fields
  | batchBind b =>
    rw [BatchBind.encode]
    split
    · exact .send BatchBindFrame.tag b.frame.fields
    · exact .throw _
  | batchBindFrame f => exact .send BatchBindFrame.tag f.fields
  | parameters d => exact .send ParameterDescription.tag d.fields
  | insert d => exact .send InsertDescription.tag d.fields
  | rowBatch b => exact b.allOrNothing
  | rows b rows =>
    rw [BatchBuilder.encode]
    split
    · exact RowBatch.allOrNothing _
    · exact .throw _

/-- A successful step has appended the bytes of some message. -/
theorem Sending.frame_of_ok (hm : Sending m) (h : m dst = .ok () dst') :
    ∃ f : Frame, dst' = dst ++ f.bytes := by
  obtain ⟨f, hf⟩ | ⟨e, he⟩ := hm.allOrNothing.alike
  · rw [hf dst] at h
    cases h
    exact ⟨f, rfl⟩
  · rw [he dst] at h
    cases h

/-- No message is written in part, whichever it is, whatever stands in front of
it and wherever it fails. -/
theorem allOrNothing_messages :
    (∀ b : Bind, AllOrNothing b.encode) ∧
    (∀ b : BatchBind, AllOrNothing b.encode) ∧
    (∀ f : BatchBindFrame, AllOrNothing f.encode) ∧
    (∀ d : ParameterDescription, AllOrNothing d.encode) ∧
    (∀ d : InsertDescription, AllOrNothing d.encode) ∧
    (∀ b : RowBatch, AllOrNothing b.encode) ∧
    ∀ (b : BatchBuilder) (rows : List (List CellValue)), AllOrNothing (b.encode rows) :=
  ⟨fun b => (Sending.bind b).allOrNothing, fun b => (Sending.batchBind b).allOrNothing,
    fun f => (Sending.batchBindFrame f).allOrNothing,
    fun d => (Sending.parameters d).allOrNothing, fun d => (Sending.insert d).allOrNothing,
    fun b => (Sending.rowBatch b).allOrNothing, fun b rows => (Sending.rows b rows).allOrNothing⟩

/-! ## Lengths -/

namespace Frame

/-- The length that a message tells. -/
def declared (message : Bytes) : Int := (message.slice 1 lengthWidth).toIntBE

theorem declared_head {length : Bytes} (hlength : length.length = lengthWidth) (tag : UInt8)
    (rest : Bytes) : declared (tag :: (length ++ rest)) = length.toIntBE := by
  rw [declared, slice, List.drop_succ_cons, List.drop_zero, List.take_left' hlength]

theorem declared_bytes (f : Frame) :
    declared f.bytes = Int.bmod (f.wireLen - 1) (space lengthWidth) := by
  have hcounted : ((lengthWidth + f.body.length : Nat) : Int) = f.wireLen - 1 := by
    simp only [wireLen, headLen]
    omega
  rw [bytes, List.cons_append, declared_head (length_ofNatBE _ _), toIntBE_ofNatBE, hcounted]

theorem declared_append (f : Frame) (more : Bytes) :
    declared (f.bytes ++ more) = declared f.bytes := by
  have hhead : 1 + lengthWidth ≤ f.bytes.length := by
    rw [length_bytes]
    exact Nat.le_add_right _ _
  rw [declared, slice_append_of_le hhead, declared]

theorem declared_of_split {buf : Bytes} {f : Frame} (h : split buf = .ok (some f)) :
    declared buf = f.wireLen - 1 := by
  obtain ⟨length, rest, hlength, hdeclared, rfl⟩ := eq_of_split h
  rw [declared_head hlength, hdeclared]

/-- A length that came out too small is refused. -/
theorem split_of_declared_lt {f : Frame} (h : declared f.bytes < lengthWidth) :
    split f.bytes = .error (.malformed (.frame (.length (declared f.bytes)))) := by
  rw [bytes, List.cons_append, declared_head (length_ofNatBE _ _)] at h ⊢
  rw [split_head (length_ofNatBE _ _), if_pos h]

/-- The limit is where the sign bit is set. -/
theorem declared_eq_iff (f : Frame) :
    0 < declared f.bytes ∧ declared f.bytes = f.wireLen - 1 ↔
      f.wireLen ≤ headLen + bodyLimit := by
  have hlow : (headLen : Int) ≤ f.wireLen := Int.ofNat_le.2 (Nat.le_add_right _ _)
  rw [declared_bytes]
  simp only [headLen, lengthWidth, bodyLimit, space_four] at hlow ⊢
  rw [Int.bmod_def]
  omega

theorem split_whole_iff (f : Frame) (more : Bytes) :
    (∃ g, split (f.bytes ++ more) = .ok (some g) ∧ g.bytes = f.bytes) ↔
      f.wireLen ≤ headLen + bodyLimit := by
  constructor
  · rintro ⟨g, hg, hsame⟩
    have hlen : g.wireLen = f.wireLen := by
      rw [← length_bytes, hsame, length_bytes]
    have hlow := (wireLen_of_split hg).1
    have hdeclared := declared_of_split hg
    rw [declared_append, hlen] at hdeclared
    rw [hlen] at hlow
    refine (declared_eq_iff f).1 ⟨?_, hdeclared⟩
    simp only [headLen, lengthWidth] at hlow
    omega
  · intro hfits
    exact ⟨f, split_bytes_append (Nat.le_of_add_le_add_left hfits) more, rfl⟩

end Frame

/-- A message that has been sent tells its length modulo the space of the field.
It tells the length of what has been appended, and comes out of a stream as it
was sent, exactly up to 2 ^ 31 bytes. -/
theorem Sending.declared_iff (hm : Sending m) (h : m dst = .ok () dst') :
    ∃ message, dst' = dst ++ message ∧ Frame.headLen ≤ message.length ∧
      Frame.declared message =
        Int.bmod (message.length - 1) (space Frame.lengthWidth) ∧
      (0 < Frame.declared message ∧ Frame.declared message = message.length - 1 ↔
        message.length ≤ 2147483648) ∧
      ∀ more, (∃ f, Frame.split (message ++ more) = .ok (some f) ∧ f.bytes = message) ↔
        message.length ≤ 2147483648 := by
  obtain ⟨f, rfl⟩ := hm.frame_of_ok h
  refine ⟨f.bytes, rfl, ?_⟩
  rw [Frame.length_bytes]
  exact ⟨Nat.le_add_right _ _, Frame.declared_bytes f, Frame.declared_eq_iff f,
    Frame.split_whole_iff f⟩

/-- A short message behind a byte that was there before. -/
theorem declared_short :
    Bind.encode ⟨"p", "s", [], [], []⟩ [170] =
      .ok () [170, 66, 0, 0, 0, 14, 112, 0, 115, 0, 0, 0, 0, 0, 0, 0] ∧
    Frame.declared [66, 0, 0, 0, 14, 112, 0, 115, 0, 0, 0, 0, 0, 0, 0] = 14 := by
  have hbody : Field.encodeAll (Bind.fields ⟨"p", "s", [], [], []⟩) =
      .ok [112, 0, 115, 0, 0, 0, 0, 0, 0, 0] := by cbv
  have hsent : Bind.encode ⟨"p", "s", [], [], []⟩ [170] =
      .ok () [170, 66, 0, 0, 0, 14, 112, 0, 115, 0, 0, 0, 0, 0, 0, 0] := send_of_ok hbody [170]
  obtain ⟨message, hmessage, -, -, hdeclared, -⟩ := Sending.declared_iff (.bind _) hsent
  cases hmessage
  exact ⟨hsent, (hdeclared.2 (by decide)).2⟩

/-- Five bytes more than a length can tell, in equal parts: the length comes out
negative, and no receiver takes the message. -/
theorem length_wraps :
    ∃ message,
      send 86 (Outline.copies 2097152 [.text (String.ofList (List.replicate 1023 'a'))]) [] =
        .ok () message ∧
      message.length = 2147483653 ∧ Frame.declared message = -2147483644 ∧
      Frame.split message = .error (.malformed (.frame (.length (-2147483644)))) := by
  have hspelling : Utf8.encode (String.ofList (List.replicate 1023 'a')) =
      List.replicate 1023 97 := by
    rw [Utf8.encode, String.toList_ofList, List.flatMap_replicate]
    exact List.flatten_replicate_singleton
  have hpart : Field.encodeAll [.text (String.ofList (List.replicate 1023 'a'))] =
      .ok (List.replicate 1023 97 ++ [0]) := by
    refine Field.encodeAll_cons_ok.2 ⟨_, [], Field.encode_text_ok.2 ⟨?_, rfl⟩, rfl, ?_⟩
    · rw [hspelling, List.mem_replicate]
      decide
    · rw [hspelling, List.append_nil]
  obtain ⟨f, hsent, hlen⟩ := Outline.send_copies hpart 86 2097152 []
  simp only [List.length_append, List.length_replicate, List.length_singleton, Frame.headLen,
    Frame.lengthWidth, Nat.reduceAdd, Nat.reduceMul] at hlen
  have hwrapped : Frame.declared f.bytes = -2147483644 := by
    rw [Frame.declared_bytes, hlen]
    decide
  have hrefused := Frame.split_of_declared_lt (f := f) (by rw [hwrapped]; decide)
  rw [hwrapped] at hrefused
  exact ⟨f.bytes, hsent, (Frame.length_bytes f).trans hlen, hwrapped, hrefused⟩

end SeriesWire
