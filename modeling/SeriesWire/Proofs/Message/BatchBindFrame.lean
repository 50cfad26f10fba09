/-
The wire format of a batch.  A batch can be written if its texts are free of NULs
and nothing in it is too long, and its reader gives the batch back and accepts
nothing else.
-/
import SeriesWire.Message.BatchBind
import SeriesWire.Proofs.Wire.Inverse

namespace SeriesWire

open Bytes Read

namespace BatchBindFrame

theorem exact_readPayload : Exact (fun _ => True) readPayload payloadFields := by
  have hfields : payloadFields = fun p =>
      .atMost Field.lengthLimit p.2.length (.range "payload" (.group p.2.length p.1)) ::
        ([Field.text p.1] ++ ([Field.i32 (Int32.ofNat p.2.length)] ++
          ([Field.bytes p.2] ++ []))) := rfl
  rw [hfields]
  refine Exact.limited ?_
  refine exact_text.bind Prod.fst (fun _ _ => trivial) fun key _ => ?_
  refine exact_i32.bind (fun p : String × Bytes => Int32.ofNat p.2.length) (fun _ _ => trivial)
    fun len _ => ?_
  refine Exact.checked ?_ fun hpos => ?_
  · rintro p ⟨⟨⟨-, hle⟩, -⟩, hlen⟩
    rw [Field.ofNat_eq_i32_iff hle] at hlen
    omega
  refine (exact_bytes _).bind Prod.snd ?_ fun raw hraw => exact_pure fun p => ?_
  · rintro p ⟨⟨⟨-, hle⟩, -⟩, hlen⟩
    rw [Field.ofNat_eq_i32_iff hle] at hlen
    omega
  constructor
  · rintro ⟨⟨⟨-, rfl⟩, -⟩, rfl⟩
    rfl
  · rintro rfl
    have hlt := len.toInt_lt
    have hle : raw.length ≤ Field.lengthLimit := by
      rw [Field.lengthLimit]
      omega
    exact ⟨⟨⟨⟨trivial, hle⟩, rfl⟩, (Field.ofNat_eq_i32_iff hle).2 (by omega)⟩, rfl⟩

theorem whole_read : Whole (fun _ => True) read fields := by
  have hfields : fields = fun f =>
      .atMost payloadLimit f.payloads.length (.range "payload count" (.groups f.payloads.length)) ::
        ([Field.text f.portal] ++ ([Field.text f.statement] ++
          ([Field.i16 (Int16.ofNat f.payloads.length)] ++
            (f.payloads.flatMap payloadFields ++ [])))) := by
    funext f
    rw [fields, List.append_nil]
    rfl
  rw [hfields]
  refine Whole.limited ?_
  refine exact_text.bind_whole portal (fun _ _ => trivial) fun portal _ => ?_
  refine exact_text.bind_whole statement (fun _ _ => trivial) fun statement _ => ?_
  refine exact_i16.bind_whole (fun f : BatchBindFrame => Int16.ofNat f.payloads.length)
    (fun _ _ => trivial) fun count _ => ?_
  refine Whole.checked ?_ fun hpos => ?_
  · rintro f ⟨⟨⟨⟨-, hle⟩, -⟩, -⟩, hcount⟩
    rw [Field.ofNat_eq_i16_iff hle] at hcount
    omega
  refine (exact_many exact_readPayload _).bind_whole payloads ?_ fun payloads hpayloads => ?_
  · rintro f ⟨⟨⟨⟨-, hle⟩, -⟩, -⟩, hcount⟩
    rw [Field.ofNat_eq_i16_iff hle] at hcount
    omega
  refine whole_finish fun f => ?_
  constructor
  · rintro ⟨⟨⟨⟨-, rfl⟩, rfl⟩, -⟩, rfl⟩
    rfl
  · rintro rfl
    have hlt := count.toInt_lt
    have hle : payloads.length ≤ payloadLimit := by
      rw [payloadLimit]
      omega
    exact ⟨⟨⟨⟨⟨trivial, hle⟩, rfl⟩, rfl⟩, (Field.ofNat_eq_i16_iff hle).2 (by omega)⟩, rfl⟩

theorem decode_of_encodeAll {f : BatchBindFrame} {body : Bytes}
    (h : Field.encodeAll f.fields = .ok body) : decode body = .ok f :=
  whole_read.run_eq_ok_iff.2 ⟨trivial, h⟩

/-! ## What can be written -/

/-- The texts are free of NULs, and nothing is too long for its count. -/
structure Fits (f : BatchBindFrame) : Prop where
  portal : Utf8.NulFree f.portal
  statement : Utf8.NulFree f.statement
  count : f.payloads.length ≤ 32767
  payloads : ∀ kp ∈ f.payloads, Utf8.NulFree kp.1 ∧ kp.2.length ≤ 2147483647

theorem fits_payloadFields {p : String × Bytes} :
    (∀ f ∈ payloadFields p, f.Fits) ↔ Utf8.NulFree p.1 ∧ p.2.length ≤ 2147483647 := by
  simp only [payloadFields, List.forall_mem_cons, Field.Fits, Field.lengthLimit, List.not_mem_nil,
    false_implies, implies_true, and_true]
  exact and_comm

theorem fits_fields {f : BatchBindFrame} : (∀ field ∈ f.fields, field.Fits) ↔ f.Fits := by
  rw [fields, List.forall_mem_append, List.forall_mem_flatMap]
  simp only [fits_payloadFields, List.forall_mem_cons]
  simp only [Field.Fits, payloadLimit, List.not_mem_nil, false_implies, implies_true, and_true]
  constructor
  · rintro ⟨⟨hcount, hportal, hstatement⟩, hpayloads⟩
    exact ⟨hportal, hstatement, hcount, hpayloads⟩
  · intro h
    exact ⟨⟨h.count, h.portal, h.statement⟩, h.payloads⟩

theorem exists_encode_iff {f : BatchBindFrame} {dst : Bytes} :
    (∃ dst', f.encode dst = .ok () dst') ↔ f.Fits := exists_send_iff.trans fits_fields

theorem inverse_frame : Inverse Fits tag encode decode :=
  .of_whole whole_read (fun _ => fits_fields.symm.trans (and_iff_right trivial).symm)
    (fun _ _ => rfl) _

theorem exists_encodeAll {f : BatchBindFrame} (hportal : 0 ∉ Utf8.encode f.portal)
    (hstatement : 0 ∉ Utf8.encode f.statement) (hcount : f.payloads.length ≤ payloadLimit)
    (hpayloads : ∀ kp ∈ f.payloads, 0 ∉ Utf8.encode kp.1 ∧ kp.2.length ≤ Field.lengthLimit) :
    ∃ body, Field.encodeAll f.fields = .ok body := by
  simp only [← Utf8.nulFree_iff] at hportal hstatement hpayloads
  exact Field.exists_encodeAll_iff.2 (fits_fields.2 ⟨hportal, hstatement, hcount, hpayloads⟩)

end BatchBindFrame
end SeriesWire
