/-
Descriptions of parameters on the wire.  The description of an insert is written
and read alike.  The plain one is read by the size of its body, so that each of
its values has many bodies, one for each count in front of the oids.
-/
import SeriesWire.Message.ParameterDescription
import SeriesWire.Proofs.Wire.Inverse

namespace SeriesWire

open Bytes Read

namespace InsertDescription

theorem whole_read : Whole (fun _ => True) read fields := by
  have hfields : fields = fun d =>
      (Field.count "parameter oids" d.oids.length ++ d.oids.flatMap fun oid => [Field.u32 oid]) ++
        ([Field.i16 d.tagIndex] ++
          ((Field.count "primary tag ids" d.primaryTags.length ++
              d.primaryTags.flatMap fun column => [Field.u16 column]) ++
            ((Field.count "storage lengths" d.storageLens.length ++
              d.storageLens.flatMap fun len => [.u32 len]) ++ []))) := by
    funext d
    simp only [fields, Field.counted_eq, List.append_assoc, List.append_nil]
  rw [hfields]
  refine (exact_counted _ exact_u32).bind_whole oids (fun _ _ => trivial) fun oids _ => ?_
  refine exact_i16.bind_whole tagIndex (fun _ _ => trivial) fun tagIndex _ => ?_
  refine (exact_counted _ exact_u16).bind_whole primaryTags (fun _ _ => trivial)
    fun primaryTags _ => ?_
  refine (exact_counted _ exact_u32).bind_whole storageLens (fun _ _ => trivial)
    fun storageLens _ => ?_
  refine whole_finish fun d => ?_
  constructor
  · rintro ⟨⟨⟨⟨-, rfl⟩, rfl⟩, rfl⟩, rfl⟩
    rfl
  · rintro rfl
    exact ⟨⟨⟨⟨trivial, rfl⟩, rfl⟩, rfl⟩, rfl⟩

/-- No list is too long for its count. -/
structure Fits (d : InsertDescription) : Prop where
  oids : d.oids.length ≤ 65535
  primaryTags : d.primaryTags.length ≤ 65535
  storageLens : d.storageLens.length ≤ 65535

theorem fits_fields {d : InsertDescription} : (∀ f ∈ d.fields, f.Fits) ↔ d.Fits := by
  have hu32 : ∀ n, (Field.u32 n).Fits := fun _ => trivial
  have hu16 : ∀ n, (Field.u16 n).Fits := fun _ => trivial
  simp only [fields, List.forall_mem_append, List.forall_mem_singleton, Field.fits_counted hu32,
    Field.fits_counted hu16]
  constructor
  · rintro ⟨⟨⟨hoids, -⟩, hprimary⟩, hstorage⟩
    exact ⟨hoids, hprimary, hstorage⟩
  · intro h
    exact ⟨⟨⟨h.oids, trivial⟩, h.primaryTags⟩, h.storageLens⟩

end InsertDescription

namespace ParameterDescription

variable {count oids : Bytes} {d : ParameterDescription}

/-- What is read behind the count. -/
def readOids : ReadM ParameterDescription := do
  let r ← get
  if r.remaining % 4 ≠ 0 then reject (.oidBytes r.remaining)
  else return { oids := ← many (r.remaining / 4) u32 }

theorem readOids_eq (r : Reader) :
    readOids r = if r.remaining % 4 ≠ 0 then .error (.malformed (.oidBytes r.remaining)) r
      else (many (r.remaining / 4) u32 >>= fun oids => pure ⟨oids⟩) r := by
  rw [readOids, bind_ok (get_ok r)]
  split <;> rfl

theorem length_of_encodeAll_oids {oids : List UInt32} {bs : Bytes}
    (h : Field.encodeAll (oids.flatMap fun oid => [.u32 oid]) = .ok bs) :
    bs.length = oids.length * 4 := by
  refine Field.length_of_encodeAll_flatMap ?_ h
  intro oid written hoid
  rw [Field.encodeAll_singleton_ok, Field.encode_u32_ok] at hoid
  rw [hoid, length_ofNatBE]

theorem whole_readOids :
    Whole (fun _ => True) readOids fun d => d.oids.flatMap fun oid => [.u32 oid] where
  gives := by
    rintro d ⟨subject, position, bs⟩ - h
    have hlen : Reader.remaining ⟨subject, position, bs⟩ = d.oids.length * 4 :=
      length_of_encodeAll_oids h
    have hmany := (exact_many exact_u32 d.oids.length).gives rfl h [] subject position
    rw [List.append_nil] at hmany
    rw [readOids_eq, hlen, if_neg (by omega), Nat.mul_div_cancel _ (by decide)]
    exact ⟨_, bind_ok hmany⟩
  spells := by
    intro r r' d h
    rw [readOids_eq] at h
    split at h
    · cases h
    next hwhole =>
      obtain ⟨oids, r'', hoids, hpure⟩ := bind_eq_ok.1 h
      cases hpure
      obtain ⟨hcount, bs, hbs, hrest⟩ := (exact_many exact_u32 _).spells hoids
      have hlen := length_of_encodeAll_oids hbs
      have htotal := congrArg List.length hrest
      rw [List.length_append, hlen, hcount, Reader.remaining] at htotal
      rw [Reader.remaining] at hwhole
      have hnone : r'.rest = [] := List.eq_nil_of_length_eq_zero (by omega)
      rw [hnone, List.append_nil] at hrest
      rw [hrest]
      exact ⟨trivial, hbs⟩

/-- Whatever the count is, the oids are read alike. -/
theorem decode_append (hcount : count.length = 2) (oids : Bytes) :
    decode (count ++ oids) =
      match readOids ⟨"ParameterDescription", 2, oids⟩ with
      | .ok d _ => .ok d
      | .error e _ => .error e := by
  have hread : u16 ⟨"ParameterDescription", 0, count ++ oids⟩ =
      .ok (UInt16.ofNat count.toNatBE) ⟨"ParameterDescription", 0 + count.length, oids⟩ :=
    (gives_bytes hcount oids).map "ParameterDescription" 0
  have hbehind : read ⟨"ParameterDescription", 0, count ++ oids⟩ =
      readOids ⟨"ParameterDescription", 2, oids⟩ := by
    rw [hcount] at hread
    exact bind_ok hread
  rw [decode, run, Reader.ofBody, hbehind]
  cases readOids ⟨"ParameterDescription", 2, oids⟩ <;> rfl

theorem decode_append_eq_ok_iff (hcount : count.length = 2) :
    decode (count ++ oids) = .ok d ↔
      Field.encodeAll (d.oids.flatMap fun oid => [.u32 oid]) = .ok oids := by
  rw [decode_append hcount]
  constructor
  · intro h
    cases hread : readOids ⟨"ParameterDescription", 2, oids⟩ with
    | ok d' r =>
      rw [hread] at h
      cases h
      exact (whole_readOids.spells hread).2
    | error e r =>
      rw [hread] at h
      cases h
  · intro h
    obtain ⟨r, hread⟩ := whole_readOids.gives (r := ⟨"ParameterDescription", 2, oids⟩) trivial h
    rw [hread]

/-- Any four bytes are an oid. -/
theorem exists_oids {n : Nat} (h : oids.length = n * 4) :
    ∃ ns : List UInt32, Field.encodeAll (ns.flatMap fun oid => [.u32 oid]) = .ok oids := by
  induction n generalizing oids with
  | zero =>
    rw [Nat.zero_mul] at h
    exact ⟨[], Field.encodeAll_nil_ok.2 (List.eq_nil_of_length_eq_zero h)⟩
  | succ n ih =>
    have hfirst : (oids.take 4).length = 4 := by
      rw [List.length_take]
      omega
    have hrest : (oids.drop 4).length = n * 4 := by
      rw [List.length_drop]
      omega
    obtain ⟨ns, hns⟩ := ih hrest
    have hback := ofNatBE_toNatBE (oids.take 4)
    rw [hfirst] at hback
    have hspelt : (Field.u32 (UInt32.ofNat (toNatBE (oids.take 4)))).encode =
        .ok (oids.take 4) := by
      rw [Field.encode_u32_ok, UInt32.toNat_ofNat_of_lt' (toNatBE_lt_space hfirst), hback]
    refine ⟨UInt32.ofNat (toNatBE (oids.take 4)) :: ns, ?_⟩
    rw [List.flatMap_cons, Field.encodeAll_append_ok]
    exact ⟨oids.take 4, oids.drop 4, Field.encodeAll_singleton_ok.2 hspelt, hns,
      (List.take_append_drop 4 oids).symm⟩

theorem two_le_length_of_decode {body : Bytes} (h : decode body = .ok d) : 2 ≤ body.length := by
  rw [decode, run] at h
  split at h
  next hread =>
    obtain ⟨n, r, hcount, -⟩ := bind_eq_ok.1 hread
    obtain ⟨-, bs, hbs, hrest⟩ := exact_u16.spells hcount
    rw [Field.encodeAll_singleton_ok, Field.encode_u16_ok] at hbs
    change body = bs ++ r.rest at hrest
    rw [hrest, List.length_append, hbs, length_ofNatBE]
    exact Nat.le_add_right 2 _
  next => cases h

theorem exists_decode_iff {body : Bytes} :
    (∃ d, decode body = .ok d) ↔ 2 ≤ body.length ∧ (body.length - 2) % 4 = 0 := by
  have hcount (h : 2 ≤ body.length) : (body.take 2).length = 2 := by
    rw [List.length_take]
    omega
  have hrest : (body.drop 2).length = body.length - 2 := List.length_drop
  constructor
  · rintro ⟨d, h⟩
    have hlong := two_le_length_of_decode h
    rw [← List.take_append_drop 2 body, decode_append_eq_ok_iff (hcount hlong)] at h
    have hlen := length_of_encodeAll_oids h
    omega
  · rintro ⟨hlong, hwhole⟩
    have hlen : (body.drop 2).length = (body.length - 2) / 4 * 4 := by omega
    obtain ⟨ns, hns⟩ := exists_oids hlen
    refine ⟨⟨ns⟩, ?_⟩
    rw [← List.take_append_drop 2 body, decode_append_eq_ok_iff (hcount hlong)]
    exact hns

/-- A description that can be counted is read back. -/
theorem decode_of_encodeAll {body : Bytes} (h : Field.encodeAll d.fields = .ok body) :
    decode body = .ok d := by
  rw [fields, Field.counted_eq] at h
  obtain ⟨count, oids, hcount, hoids, rfl⟩ := Field.encodeAll_append_ok.1 h
  rw [Field.count, Field.encodeAll_atMost_ok, Field.encodeAll_singleton_ok,
    Field.encode_u16_ok] at hcount
  refine (decode_append_eq_ok_iff ?_).2 hoids
  rw [hcount.2, length_ofNatBE]

end ParameterDescription

/-- The description of an insert can be sent if its lists can be counted, and
sending and reading undo each other; the plain description is read by the size of
its body, whatever its count is. -/
theorem inverse_descriptions :
    (∀ (d : InsertDescription) (dst : Bytes), (∃ dst', d.encode dst = .ok () dst') ↔ d.Fits) ∧
    Inverse InsertDescription.Fits InsertDescription.tag InsertDescription.encode
      InsertDescription.decode ∧
    (∀ d : ParameterDescription, d.oids.length ≤ 65535 →
      ∃ body, (∀ dst, d.encode dst =
          .ok () (dst ++ Frame.bytes ⟨ParameterDescription.tag, body⟩)) ∧
        ParameterDescription.decode body = .ok d) ∧
    (∀ body, (∃ d, ParameterDescription.decode body = .ok d) ↔
      2 ≤ body.length ∧ (body.length - 2) % 4 = 0) ∧
    ∀ count count' oids : Bytes, count.length = 2 → count'.length = 2 →
      ParameterDescription.decode (count ++ oids) =
        ParameterDescription.decode (count' ++ oids) := by
  refine ⟨fun _ _ => exists_send_iff.trans InsertDescription.fits_fields,
    .of_whole InsertDescription.whole_read
      (fun _ => InsertDescription.fits_fields.symm.trans (and_iff_right trivial).symm)
      (fun _ _ => rfl) _, ?_, fun _ => ParameterDescription.exists_decode_iff, ?_⟩
  · intro d hd
    have hu32 : ∀ n, (Field.u32 n).Fits := fun _ => trivial
    have hfits : ∀ f ∈ d.fields, f.Fits := (Field.fits_counted hu32).2 hd
    obtain ⟨body, hbody⟩ := Field.exists_encodeAll_iff.2 hfits
    exact ⟨body, fun dst => send_of_ok hbody dst, ParameterDescription.decode_of_encodeAll hbody⟩
  · intro count count' oids hcount hcount'
    rw [ParameterDescription.decode_append hcount, ParameterDescription.decode_append hcount']

theorem read_despite_count :
    ParameterDescription.decode [0, 0, 0, 0, 0, 23, 0, 0, 4, 90] = .ok ⟨[23, 1114]⟩ ∧
      ParameterDescription.decode [0, 2, 0, 0, 0, 23, 0, 0, 4, 90] = .ok ⟨[23, 1114]⟩ := by
  have hread : ParameterDescription.decode [0, 2, 0, 0, 0, 23, 0, 0, 4, 90] =
      .ok ⟨[23, 1114]⟩ := rfl
  have hsame := inverse_descriptions.2.2.2.2 [0, 0] [0, 2] [0, 0, 0, 23, 0, 0, 4, 90] rfl rfl
  exact ⟨hsame.trans hread, hread⟩

end SeriesWire
