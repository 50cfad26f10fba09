/-
Messages end where they say (`selfDelimiting_messages`).  The bodies of three
messages are read by steady steps and a closing one.  A payload consists of parts
that its layout and the numbers in it measure, up to the entries of the tags;
these end with the furthest of them, which more bytes behind the payload do not
move.
-/
import SeriesWire.Message.BatchBind
import SeriesWire.Message.Bind
import SeriesWire.Message.ParameterDescription
import SeriesWire.Proofs.Payload.Tiling
import SeriesWire.Proofs.Wire.Extent

namespace SeriesWire

open Bytes Read

/-! ## Bodies -/

namespace Bind

theorem steady_readFormats : Steady readFormats :=
  steady_u16.bind fun _ => steady_has (steady_many steady_i16 _)

theorem steady_readParam : Steady readParam := by
  refine steady_i32.bind fun len => ?_
  refine (steady_pure _).ite ((steady_reject _).ite ?_)
  exact (steady_bytes _).bind fun _ => steady_pure _

theorem closing_read : Closing read := by
  refine steady_text.closing_bind fun portal => ?_
  refine steady_text.closing_bind fun statement => ?_
  refine steady_readFormats.closing_bind fun paramFormats => ?_
  refine (steady_counted steady_readParam).closing_bind fun params => ?_
  refine steady_readFormats.closing_bind fun resultFormats => ?_
  exact closing_finish _

end Bind

namespace BatchBindFrame

theorem steady_readPayload : Steady readPayload := by
  refine steady_text.bind fun key => ?_
  refine steady_i32.bind fun len => ?_
  refine (steady_reject _).ite ?_
  exact (steady_bytes _).bind fun _ => steady_pure _

theorem closing_read : Closing read := by
  refine steady_text.closing_bind fun portal => ?_
  refine steady_text.closing_bind fun statement => ?_
  refine steady_i16.closing_bind fun count => ?_
  refine (closing_reject _).ite ?_
  refine (steady_many steady_readPayload _).closing_bind fun payloads => ?_
  exact closing_finish _

end BatchBindFrame

theorem InsertDescription.closing_read : Closing read := by
  refine (steady_counted steady_u32).closing_bind fun oids => ?_
  refine steady_i16.closing_bind fun tagIndex => ?_
  refine (steady_counted steady_u16).closing_bind fun primaryTags => ?_
  refine (steady_counted steady_u32).closing_bind fun storageLens => ?_
  exact closing_finish _

/-! ## Payloads -/

namespace PayloadView

variable {layout : Layout} {payload extra : Bytes} {v w : PayloadView}

/-- The parts of a payload, with those of the tags and of the rows put together. -/
theorem Tiles.eq_append (h : v.Tiles layout payload) :
    payload = payload.take Payload.headLen ++
      (ofNatLE Payload.primaryLenWidth v.primaryTag.length ++ (v.primaryTag ++
        (ofNatLE Payload.tagLenWidth (v.tags.bitmap ++ v.tags.slots).length ++
          (v.tags.bitmap ++ (v.tags.slots ++ (v.tags.entries ++
            (ofNatLE Payload.dataLenWidth v.data.length ++ v.data))))))) := by
  refine h.joined.trans ?_
  simp only [parts, preamble, data, List.cons_append, List.nil_append, List.flatten_cons,
    ← List.flatMap_def, List.append_assoc]

/-- A payload with bytes behind it is none. -/
theorem Tiles.extra_eq_nil (h : v.Tiles layout payload) (h' : w.Tiles layout (payload ++ extra)) :
    extra = [] := by
  have hboth := (congrArg (· ++ extra) h.eq_append).symm.trans h'.eq_append
  simp only [List.append_assoc] at hboth
  obtain ⟨-, hboth⟩ := List.append_inj hboth (h.length_head.trans h'.length_head.symm)
  obtain ⟨-, hboth⟩ := List.append_inj hboth (by rw [length_ofNatLE, length_ofNatLE])
  obtain ⟨-, hboth⟩ :=
    List.append_inj hboth (h.length_primaryTag.trans h'.length_primaryTag.symm)
  obtain ⟨-, hboth⟩ := List.append_inj hboth (by rw [length_ofNatLE, length_ofNatLE])
  obtain ⟨hbitmap, hboth⟩ := List.append_inj hboth (h.length_bitmap.trans h'.length_bitmap.symm)
  obtain ⟨hslots, hboth⟩ := List.append_inj hboth (h.length_slots.trans h'.length_slots.symm)
  -- Both readers look for the end of the entries in the same bytes.
  have hend := (entriesEnd_append (Nat.le_refl _)
    (ofNatLE Payload.dataLenWidth v.data.length ++ (v.data ++ extra))).2 h.entriesEnd_eq
  have hend' := (entriesEnd_append (Nat.le_refl _)
    (ofNatLE Payload.dataLenWidth w.data.length ++ w.data)).2 h'.entriesEnd_eq
  rw [hbitmap, hslots, hboth, hend', Except.ok.injEq] at hend
  obtain ⟨-, hboth⟩ := List.append_inj hboth hend.symm
  obtain ⟨hlen, hdata⟩ := List.append_inj hboth (by rw [length_ofNatLE, length_ofNatLE])
  have hlen := ofNatLE_injective h.length_data_lt h'.length_data_lt hlen
  have htotal := congrArg List.length hdata
  rw [List.length_append] at htotal
  exact List.eq_nil_of_length_eq_zero (by omega)

theorem selfDelimiting_parse (layout : Layout) : SelfDelimiting (PayloadView.parse layout) := by
  apply SelfDelimiting.of_longer
  intro payload v hv extra hextra
  cases hw : PayloadView.parse layout (payload ++ extra) with
  | error e => exact ⟨e, rfl⟩
  | ok w => exact absurd ((tiles_of_parse hv).extra_eq_nil (tiles_of_parse hw)) hextra

end PayloadView

/-- What is accepted stops being accepted with any bytes behind it, and with any
of its last bytes gone. -/
theorem selfDelimiting_messages :
    (∀ layout, SelfDelimiting (PayloadView.parse layout)) ∧ SelfDelimiting Bind.decode ∧
      SelfDelimiting BatchBindFrame.decode ∧ SelfDelimiting InsertDescription.decode :=
  ⟨PayloadView.selfDelimiting_parse, Bind.closing_read.selfDelimiting _,
    BatchBindFrame.closing_read.selfDelimiting _, InsertDescription.closing_read.selfDelimiting _⟩

end SeriesWire
