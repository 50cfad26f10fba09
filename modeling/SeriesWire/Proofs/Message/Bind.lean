/-
The Bind message is written and read alike.  A missing parameter and an empty one
differ in their lengths, -1 and 0, and no other negative length is accepted, so
nothing that was accepted can be written in another way.
-/
import SeriesWire.Message.Bind
import SeriesWire.Proofs.Wire.Inverse

namespace SeriesWire
namespace Bind

open Bytes Read

/-! ## Parts -/

theorem exact_readFormats (what : String) :
    Exact (fun _ => True) readFormats fun formats => Field.counted what formats .i16 := by
  have hcodes (count : Nat) : Exact (fun l => l.length = count)
      (get >>= fun r : Reader => if r.has (count * 2) then many count i16
        else reject (.bind (.formatCodes count (count * 2) r.remaining)))
      fun l => l.flatMap fun format => [.i16 format] := by
    refine (exact_many exact_i16 count).ahead ?_
    rintro formats bs rfl h
    refine Nat.le_of_eq (Field.length_of_encodeAll_flatMap ?_ h).symm
    intro format written hformat
    rw [Field.encodeAll_singleton_ok, Field.encode_i16_ok] at hformat
    rw [hformat, length_ofIntBE]
  simp only [Field.counted_eq]
  exact exact_count what hcodes

theorem gives_readParam {param : Option Bytes} {bs : Bytes}
    (h : Field.encodeAll (paramFields param) = .ok bs) (rest : Bytes) :
    Gives readParam bs rest param := by
  cases param with
  | none =>
    rw [paramFields, Field.encodeAll_singleton_ok, Field.encode_i32_ok] at h
    rw [h]
    exact fun subject position => bind_ok (gives_i32 (-1) rest subject position)
  | some raw =>
    rw [paramFields, Field.encodeAll_atMost_ok, Field.encodeAll_cons_ok] at h
    obtain ⟨hle, length, _, hlength, hraw, rfl⟩ := h
    rw [Field.encode_i32_ok] at hlength
    rw [Field.encodeAll_singleton_ok, Field.encode_bytes_ok] at hraw
    rw [hlength, hraw]
    refine (gives_i32 _ _).bind ?_
    simp only [(Field.ofNat_eq_i32_iff hle).1 rfl]
    rw [if_neg (by omega), if_neg (by omega), Int.toNat_natCast]
    exact (gives_bytes rfl rest).map

/-- A length tells whether there is a parameter, and how long it is. -/
theorem exact_readParam : Exact (fun _ => True) readParam paramFields where
  gives := fun _ h rest => gives_readParam h rest
  spells := by
    intro r r' param h
    obtain ⟨len, r₁, hlen, h⟩ := bind_eq_ok.1 h
    obtain ⟨-, length, hlength, hrest⟩ := exact_i32.spells hlen
    split at h
    next hmissing =>
      cases h
      cases Int32.toInt_inj.1 (show len.toInt = (-1 : Int32).toInt from hmissing)
      exact ⟨trivial, length, hlength, hrest⟩
    split at h
    · cases h
    next hpos =>
      obtain ⟨raw, r₂, hraw, hpure⟩ := bind_eq_ok.1 h
      cases hpure
      obtain ⟨hcount, bs, hbs, hrest'⟩ := (exact_bytes _).spells hraw
      have hlt := len.toInt_lt
      have hle : raw.length ≤ Field.lengthLimit := by
        rw [Field.lengthLimit]
        omega
      have hsame : Int32.ofNat raw.length = len := (Field.ofNat_eq_i32_iff hle).2 (by omega)
      rw [hrest', ← List.append_assoc] at hrest
      refine ⟨trivial, length ++ bs, ?_, hrest⟩
      rw [paramFields, Field.encodeAll_atMost_ok, hsame]
      exact ⟨hle, Field.encodeAll_append_ok.2 ⟨length, bs, hlength, hbs, rfl⟩⟩

/-! ## Messages -/

theorem whole_read : Whole (fun _ => True) read fields := by
  have hfields : fields = fun b => [Field.text b.portal] ++ ([Field.text b.statement] ++
      (Field.counted "parameter formats" b.paramFormats .i16 ++
        ((Field.count "parameters" b.params.length ++ b.params.flatMap paramFields) ++
          (Field.counted "result formats" b.resultFormats .i16 ++ [])))) := by
    funext b
    simp only [fields, List.append_assoc, List.append_nil, List.cons_append, List.nil_append]
  rw [hfields]
  refine exact_text.bind_whole portal (fun _ _ => trivial) fun portal _ => ?_
  refine exact_text.bind_whole statement (fun _ _ => trivial) fun statement _ => ?_
  refine (exact_readFormats _).bind_whole paramFormats (fun _ _ => trivial) fun paramFormats _ => ?_
  refine (exact_counted _ exact_readParam).bind_whole params (fun _ _ => trivial) fun params _ => ?_
  refine (exact_readFormats _).bind_whole resultFormats (fun _ _ => trivial)
    fun resultFormats _ => ?_
  refine whole_finish fun b => ?_
  constructor
  · rintro ⟨⟨⟨⟨⟨-, rfl⟩, rfl⟩, rfl⟩, rfl⟩, rfl⟩
    rfl
  · rintro rfl
    exact ⟨⟨⟨⟨⟨trivial, rfl⟩, rfl⟩, rfl⟩, rfl⟩, rfl⟩

/-- The texts have no NUL in them, and no list and no parameter is too long for its
count. -/
structure Fits (b : Bind) : Prop where
  portal : Utf8.NulFree b.portal
  statement : Utf8.NulFree b.statement
  paramFormats : b.paramFormats.length ≤ 65535
  params : b.params.length ≤ 65535
  param : ∀ bs, some bs ∈ b.params → bs.length ≤ 2147483647
  resultFormats : b.resultFormats.length ≤ 65535

theorem fits_paramFields {param : Option Bytes} :
    (∀ f ∈ paramFields param, f.Fits) ↔ ∀ bs, param = some bs → bs.length ≤ 2147483647 := by
  cases param with
  | none => simp [paramFields, Field.Fits]
  | some bs => simp [paramFields, Field.Fits, Field.lengthLimit]

theorem fits_fields {b : Bind} : (∀ f ∈ b.fields, f.Fits) ↔ b.Fits := by
  have hformat : ∀ format, (Field.i16 format).Fits := fun _ => trivial
  simp only [fields, List.forall_mem_append, List.forall_mem_cons, Field.fits_count,
    Field.fits_counted hformat, List.forall_mem_flatMap, fits_paramFields]
  constructor
  · rintro ⟨⟨⟨⟨⟨hportal, hstatement, -⟩, hformats⟩, hparams⟩, hparam⟩, hresults⟩
    exact ⟨hportal, hstatement, hformats, hparams, fun bs hbs => hparam _ hbs bs rfl, hresults⟩
  · intro h
    exact ⟨⟨⟨⟨⟨h.portal, h.statement, fun _ hf => absurd hf List.not_mem_nil⟩, h.paramFormats⟩,
      h.params⟩, fun _ hmem bs hbs => h.param bs (hbs ▸ hmem)⟩, h.resultFormats⟩

/-- A Bind that fits its fields can be sent, and no other; and sending and reading
undo each other. -/
theorem inverse_bind :
    (∀ (b : Bind) (dst : Bytes), (∃ dst', b.encode dst = .ok () dst') ↔ b.Fits) ∧
      Inverse Fits tag encode decode :=
  ⟨fun _ _ => exists_send_iff.trans fits_fields,
    .of_whole whole_read (fun _ => fits_fields.symm.trans (and_iff_right trivial).symm)
      (fun _ _ => rfl) _⟩

/-- A missing parameter beside an empty one. -/
theorem sent_missing_and_empty :
    decode [0, 115, 0, 0, 1, 0, 1, 0, 2, 255, 255, 255, 255, 0, 0, 0, 0, 0, 0] =
      .ok ⟨"", "s", [1], [none, some []], []⟩ ∧
    encode ⟨"", "s", [1], [none, some []], []⟩ [7] =
      .ok () [7, 66, 0, 0, 0, 23, 0, 115, 0, 0, 1, 0, 1, 0, 2, 255, 255, 255, 255, 0, 0, 0, 0, 0,
        0] := by
  have hread : decode [0, 115, 0, 0, 1, 0, 1, 0, 2, 255, 255, 255, 255, 0, 0, 0, 0, 0, 0] =
      .ok ⟨"", "s", [1], [none, some []], []⟩ := rfl
  exact ⟨hread, (inverse_bind.2.encode_decode hread).2 [7]⟩

end Bind
end SeriesWire
