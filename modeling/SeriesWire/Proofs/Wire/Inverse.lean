/-
Messages as they were written and as they were read.  `Inverse` says that writing
and reading undo each other.  It follows from an exact reader, once it is known
which values can be written: those whose fields fit (`exists_send_iff`).
-/
import SeriesWire.Proofs.Wire.Exact
import SeriesWire.Proofs.Wire.Frame

namespace SeriesWire

open Bytes

/-! ## What can be written -/

namespace Field

/-- A text has no NUL in it, and a checked number keeps its limit. -/
def Fits : Field → Prop
  | text s => Utf8.NulFree s
  | atMost limit n _ => n ≤ limit
  | u8 _ | u16 _ | i16 _ | u32 _ | i32 _ | bytes _ => True

theorem exists_encode_iff {f : Field} : (∃ bs, f.encode = .ok bs) ↔ f.Fits := by
  cases f with
  | text s =>
    rw [Fits, Utf8.nulFree_iff]
    simp only [encode_text_ok, exists_and_left, exists_eq, and_true]
  | atMost limit n otherwise =>
    simp only [Fits, encode_atMost_ok, exists_and_left, exists_eq, and_true]
  | _ => exact ⟨fun _ => trivial, fun _ => ⟨_, rfl⟩⟩

theorem exists_encodeAll_iff {fs : List Field} :
    (∃ bs, encodeAll fs = .ok bs) ↔ ∀ f ∈ fs, f.Fits := by
  induction fs with
  | nil => exact ⟨fun _ _ hf => absurd hf List.not_mem_nil, fun _ => ⟨[], rfl⟩⟩
  | cons f fs ih =>
    rw [List.forall_mem_cons, ← ih, ← exists_encode_iff]
    simp only [encodeAll_cons_ok]
    constructor
    · rintro ⟨_, first, rest, hfirst, hrest, -⟩
      exact ⟨⟨first, hfirst⟩, rest, hrest⟩
    · rintro ⟨⟨first, hfirst⟩, rest, hrest⟩
      exact ⟨_, first, rest, hfirst, hrest, rfl⟩

theorem fits_count {what : String} {n : Nat} : (∀ f ∈ count what n, f.Fits) ↔ n ≤ 65535 := by
  simp only [count, List.forall_mem_cons, Fits, List.not_mem_nil, false_implies, implies_true,
    and_true]

theorem fits_counted {α : Type} {what : String} {items : List α} {item : α → Field}
    (hitem : ∀ a, (item a).Fits) :
    (∀ f ∈ counted what items item, f.Fits) ↔ items.length ≤ 65535 := by
  rw [counted, List.forall_mem_append, fits_count, List.forall_mem_map]
  exact and_iff_left fun a _ => hitem a

end Field

theorem exists_send_iff {tag : UInt8} {fields : List Field} {dst : Bytes} :
    (∃ dst', send tag fields dst = .ok () dst') ↔ ∀ f ∈ fields, f.Fits := by
  rw [← Field.exists_encodeAll_iff]
  constructor
  · rintro ⟨dst', h⟩
    obtain ⟨body, hbody, -⟩ := send_ok h
    exact ⟨body, hbody⟩
  · rintro ⟨body, hbody⟩
    exact ⟨_, send_of_ok hbody dst⟩

/-! ## Writing and reading -/

/-- What is valid can be written, behind anything, and is read from the body as it
was; what is read from a body is valid, and is written as this body. -/
structure Inverse {α : Type} (Valid : α → Prop) (tag : UInt8) (encode : α → SendM Unit)
    (decode : Bytes → Except WireError α) : Prop where
  decode_encode : ∀ {a}, Valid a →
    ∃ body, (∀ dst, encode a dst = .ok () (dst ++ Frame.bytes ⟨tag, body⟩)) ∧ decode body = .ok a
  encode_decode : ∀ {body a}, decode body = .ok a →
    Valid a ∧ ∀ dst, encode a dst = .ok () (dst ++ Frame.bytes ⟨tag, body⟩)

/-- A message that is read exactly.  Those of its values can be sent whose fields
fit. -/
theorem Inverse.of_whole {α : Type} {P Valid : α → Prop} {tag : UInt8} {encode : α → SendM Unit}
    {m : ReadM α} {fields : α → List Field} (hm : Read.Whole P m fields)
    (hvalid : ∀ a, Valid a ↔ P a ∧ ∀ f ∈ fields a, f.Fits)
    (hencode : ∀ a, Valid a → encode a = send tag (fields a)) (subject : String) :
    Inverse Valid tag encode fun body => Read.run subject body m where
  decode_encode := by
    intro a ha
    obtain ⟨hp, hfits⟩ := (hvalid a).1 ha
    obtain ⟨body, hbody⟩ := Field.exists_encodeAll_iff.2 hfits
    refine ⟨body, fun dst => ?_, hm.run_eq_ok_iff.2 ⟨hp, hbody⟩⟩
    rw [hencode a ha, send_of_ok hbody]
  encode_decode := by
    intro body a h
    obtain ⟨hp, hbody⟩ := hm.run_eq_ok_iff.1 h
    have ha := (hvalid a).2 ⟨hp, Field.exists_encodeAll_iff.1 ⟨body, hbody⟩⟩
    refine ⟨ha, fun dst => ?_⟩
    rw [hencode a ha, send_of_ok hbody]

end SeriesWire
