/-
Fields in a row and readers in a row.  A field is read by its kind, which tells the
reader all it has to know beforehand.  `gives_fields` says that the kinds of fields
read back the fields that were written.  A reader is `Atomic` if it takes bytes off
the front or leaves everything as it was, so that any readers tried in a row, with
what each of them left, stand inside the body (`Over.attempts`).
-/
import SeriesWire.Proofs.Wire.Inverse

namespace SeriesWire

open Bytes

/-! ## Kinds -/

/-- What is known of a field before it is read. -/
inductive FieldKind
  | u8 | u16 | i16 | u32 | i32
  | bytes (n : Nat)
  | text
  deriving DecidableEq, Repr

/-- The kind by which a field is read.  A check writes nothing, so there is nothing
to read of it. -/
def Field.kind? : Field → Option FieldKind
  | u8 _ => some .u8
  | u16 _ => some .u16
  | i16 _ => some .i16
  | u32 _ => some .u32
  | i32 _ => some .i32
  | bytes bs => some (.bytes bs.length)
  | text _ => some .text
  | atMost _ _ _ => none

/-- A field with a kind can be written, unless it is a text with a NUL in it. -/
theorem Field.fits_of_kind? {f : Field} {k : FieldKind} (hk : f.kind? = some k)
    (hfree : ∀ s, f = .text s → Utf8.NulFree s) : f.Fits := by
  cases f with
  | text s => exact hfree s rfl
  | atMost limit n otherwise => cases hk
  | _ => trivial

namespace FieldKind

def read : FieldKind → ReadM Field
  | u8 => return .u8 (← Read.u8)
  | u16 => return .u16 (← Read.u16)
  | i16 => return .i16 (← Read.i16)
  | u32 => return .u32 (← Read.u32)
  | i32 => return .i32 (← Read.i32)
  | bytes n => return .bytes (← Read.bytes n)
  | text => return .text (← Read.text)

end FieldKind

namespace Read

variable {α : Type} {P : α → Prop} {m : ReadM α} {c : α → Field} {k : FieldKind}

/-- Reading a value and making a field of it. -/
theorem Exact.field (hm : Exact P m fun a => [c a])
    (hk : ∀ f : Field, f.kind? = some k ↔ ∃ a, P a ∧ c a = f) :
    Exact (fun f : Field => f.kind? = some k) (m >>= fun a => pure (c a)) fun f => [f] where
  gives := by
    intro f bs hf hfields rest
    obtain ⟨a, ha, rfl⟩ := (hk f).1 hf
    exact (hm.gives ha hfields rest).map
  spells := by
    intro r r' f h
    obtain ⟨a, r'', hread, hpure⟩ := bind_eq_ok.1 h
    cases hpure
    obtain ⟨ha, hspelt⟩ := hm.spells hread
    exact ⟨(hk _).2 ⟨a, ha, rfl⟩, hspelt⟩

/-- A kind reads the fields of this kind and nothing else. -/
theorem exact_kind (k : FieldKind) :
    Exact (fun f : Field => f.kind? = some k) k.read fun f => [f] := by
  cases k with
  | u8 => exact exact_u8.field fun f => by cases f <;> simp [Field.kind?]
  | u16 => exact exact_u16.field fun f => by cases f <;> simp [Field.kind?]
  | i16 => exact exact_i16.field fun f => by cases f <;> simp [Field.kind?]
  | u32 => exact exact_u32.field fun f => by cases f <;> simp [Field.kind?]
  | i32 => exact exact_i32.field fun f => by cases f <;> simp [Field.kind?]
  | bytes n => exact (exact_bytes n).field fun f => by cases f <;> simp [Field.kind?]
  | text => exact exact_text.field fun f => by cases f <;> simp [Field.kind?]

theorem gives_fields {fields : List Field} {kinds : List FieldKind} {bs : Bytes}
    (hkinds : fields.map Field.kind? = kinds.map some) (h : Field.encodeAll fields = .ok bs)
    (rest : Bytes) : Gives (kinds.mapM FieldKind.read) bs rest fields := by
  induction fields generalizing kinds bs with
  | nil =>
    obtain rfl : kinds = [] := List.map_eq_nil_iff.1 hkinds.symm
    cases Field.encodeAll_nil_ok.1 h
    exact fun _ _ => rfl
  | cons f fields ih =>
    obtain ⟨k, kinds, rfl, hk, hkinds⟩ := List.map_eq_cons_iff.1 hkinds.symm
    obtain ⟨first, others, hfirst, hothers, rfl⟩ := Field.encodeAll_cons_ok.1 h
    rw [List.mapM_cons]
    exact ((exact_kind k).gives hk.symm (Field.encodeAll_singleton_ok.2 hfirst) _).bind
      (ih hkinds.symm hothers).map

/-! ## All or nothing -/

/-- `m` takes bytes off the front, or it fails and takes none. -/
structure Atomic {α : Type} (m : ReadM α) : Prop where
  advances : ∀ {r r' a}, m r = .ok a r' → ∃ n ≤ r.rest.length, r' = r.advance n
  stays : ∀ {r r' e}, m r = .error e r' → r' = r

theorem Atomic.map {β : Type} {f : α → β} (hm : Atomic m) :
    Atomic (m >>= fun a => pure (f a)) where
  advances := by
    intro r r' b h
    obtain ⟨a, r'', hread, hpure⟩ := bind_eq_ok.1 h
    cases hpure
    exact hm.advances hread
  stays := by
    intro r r' e h
    cases hread : m r with
    | ok a r'' =>
      rw [bind_ok hread] at h
      cases h
    | error e' r'' =>
      rw [bind_error hread] at h
      cases h
      exact hm.stays hread

theorem atomic_bytes (n : Nat) : Atomic (bytes n) where
  advances := by
    intro r r' bs h
    rw [bytes] at h
    split at h
    · cases h
    next hlong =>
      cases h
      rw [List.length_take] at hlong
      exact ⟨n, by omega, rfl⟩
  stays := by
    intro r r' e h
    rw [bytes] at h
    split at h
    · cases h
      rfl
    · cases h

theorem atomic_text : Atomic text where
  advances := by
    intro r r' s h
    simp only [text] at h
    split at h
    · cases h
    next b tail hdrop =>
      split at h
      · cases h
      · cases h
        have hlen := congrArg List.length hdrop
        rw [List.length_drop, List.length_cons] at hlen
        exact ⟨_, by omega, rfl⟩
  stays := by
    intro r r' e h
    simp only [text] at h
    split at h
    · cases h
      rfl
    · split at h
      · cases h
        rfl
      · cases h

theorem atomic_kind (k : FieldKind) : Atomic k.read := by
  cases k with
  | u8 => exact (atomic_bytes 1).map.map
  | u16 | i16 => exact (atomic_bytes 2).map.map
  | u32 | i32 => exact (atomic_bytes 4).map.map
  | bytes n => exact (atomic_bytes n).map
  | text => exact atomic_text.map

end Read

/-! ## Readers tried in a row -/

namespace Reader

/-- `r` stands in `body`: what is left is what lies behind its position. -/
structure Over (body : Bytes) (r : Reader) : Prop where
  position_le : r.position ≤ body.length
  rest_eq : r.rest = body.drop r.position

/-- What a try to read leaves, whether or not it succeeds. -/
def attempt (r : Reader) (k : FieldKind) : Reader :=
  match k.read r with
  | .ok _ r' => r'
  | .error _ r' => r'

def attempts (r : Reader) (kinds : List FieldKind) : Reader := kinds.foldl attempt r

variable {body : Bytes} {r r' : Reader} {k : FieldKind} {f : Field} {e : WireError}

theorem over_ofBody (subject : String) (body : Bytes) : (ofBody subject body).Over body :=
  ⟨Nat.zero_le _, rfl⟩

theorem Over.advance (h : r.Over body) {n : Nat} (hn : n ≤ r.rest.length) :
    (r.advance n).Over body := by
  rw [h.rest_eq, List.length_drop] at hn
  have hle := h.position_le
  refine ⟨?_, ?_⟩
  · show r.position + n ≤ body.length
    omega
  · show r.rest.drop n = body.drop (r.position + n)
    rw [h.rest_eq, List.drop_drop]

/-- What is read is spelt by the bytes that are passed over. -/
theorem Over.read_ok (h : r.Over body) (hread : k.read r = .ok f r') :
    r'.Over body ∧ r.position ≤ r'.position ∧ f.kind? = some k ∧
      f.encode = .ok (body.slice r.position (r'.position - r.position)) := by
  obtain ⟨hkind, bs, hfields, hrest⟩ := (Read.exact_kind k).spells hread
  rw [Field.encodeAll_singleton_ok] at hfields
  obtain ⟨n, hn, rfl⟩ := (Read.atomic_kind k).advances hread
  have htaken : bs = r.rest.take n := by
    have hsplit : r.rest.take n ++ r.rest.drop n = bs ++ r.rest.drop n :=
      (List.take_append_drop n r.rest).trans hrest
    exact (List.append_cancel_right hsplit).symm
  have hpassed : r.position + n - r.position = n := Nat.add_sub_cancel_left _ _
  refine ⟨h.advance hn, Nat.le_add_right _ _, hkind, ?_⟩
  show f.encode = .ok (body.slice r.position (r.position + n - r.position))
  rw [hfields, htaken, h.rest_eq, hpassed, slice]

theorem Over.attempt (h : r.Over body) (k : FieldKind) : (r.attempt k).Over body := by
  rw [Reader.attempt]
  split
  next f r' hread => exact (h.read_ok hread).1
  next e r' hread => rwa [(Read.atomic_kind k).stays hread]

theorem Over.attempts (h : r.Over body) (kinds : List FieldKind) :
    (r.attempts kinds).Over body := by
  induction kinds generalizing r with
  | nil => exact h
  | cons k kinds ih => exact ih (h.attempt k)

end Reader

/-- Fields that were written are read back by their kinds, up to the end; and wherever
readers of any kinds have come in any bytes, the next one gives what the bytes behind
its position spell and stops behind them, or stays there. -/
theorem read_back_or_stay :
    (∀ (fields : List Field) (kinds : List FieldKind), fields.map Field.kind? = kinds.map some →
      (∀ s, .text s ∈ fields → Utf8.NulFree s) →
        ∃ body, (∀ tag dst, send tag fields dst = .ok () (dst ++ Frame.bytes ⟨tag, body⟩)) ∧
          ∀ subject, ∃ r, kinds.mapM FieldKind.read (.ofBody subject body) = .ok fields r ∧
            Read.finish r = .ok () r) ∧
    ∀ (subject : String) (body : Bytes) (tried : List FieldKind) (k : FieldKind) (r : Reader),
      r = (Reader.ofBody subject body).attempts tried →
        r.position ≤ body.length ∧
        (∀ f r', k.read r = .ok f r' →
          r.position ≤ r'.position ∧ r'.position ≤ body.length ∧ f.kind? = some k ∧
            f.encode = .ok (body.slice r.position (r'.position - r.position))) ∧
        ∀ e r', k.read r = .error e r' → r' = r := by
  refine ⟨fun fields kinds hkinds hfree => ?_, fun subject body tried k r hr => ?_⟩
  · have hfits : ∀ f ∈ fields, f.Fits := by
      intro f hf
      have hmapped := List.mem_map_of_mem (f := Field.kind?) hf
      rw [hkinds] at hmapped
      obtain ⟨k, -, hk⟩ := List.mem_map.1 hmapped
      exact Field.fits_of_kind? hk.symm fun s hs => hfree s (hs ▸ hf)
    obtain ⟨body, hbody⟩ := Field.exists_encodeAll_iff.2 hfits
    refine ⟨body, fun tag dst => send_of_ok hbody dst, fun subject => ?_⟩
    refine ⟨⟨subject, body.length, []⟩, ?_, rfl⟩
    have hread := Read.gives_fields hkinds hbody [] subject 0
    rwa [List.append_nil, Nat.zero_add] at hread
  · have hover : r.Over body := hr ▸ (Reader.over_ofBody subject body).attempts tried
    refine ⟨hover.position_le, fun f r' hread => ?_, fun e r' => (Read.atomic_kind k).stays⟩
    obtain ⟨hover', hle, hkind, hspelt⟩ := hover.read_ok hread
    exact ⟨hle, hover'.position_le, hkind, hspelt⟩

/-- One field of each kind; and a text that is no UTF-8, tried before the two bytes
it is made of are read as a number. -/
theorem read_back_or_stay_mixed :
    (∃ body, (∀ tag dst, send tag
        [.u8 200, .i16 (-2), .text "öl", .u32 3000000000, .bytes [0, 255], .i32 (-5), .u16 65535]
        dst = .ok () (dst ++ Frame.bytes ⟨tag, body⟩)) ∧
      ∃ r, [.u8, .i16, .text, .u32, .bytes 2, .i32, .u16].mapM FieldKind.read
          (.ofBody "Bind" body) =
        .ok [.u8 200, .i16 (-2), .text "öl", .u32 3000000000, .bytes [0, 255], .i32 (-5),
          .u16 65535] r ∧ Read.finish r = .ok () r) ∧
    ∃ e r', FieldKind.text.read (.ofBody "Bind" [195, 0, 7]) =
        .error e (.ofBody "Bind" [195, 0, 7]) ∧
      FieldKind.u16.read (.ofBody "Bind" [195, 0, 7]) = .ok (.u16 49920) r' ∧
      Field.encode (.u16 49920) = .ok (Bytes.slice [195, 0, 7] 0 (r'.position - 0)) := by
  obtain ⟨hback, hstay⟩ := read_back_or_stay
  refine ⟨?_, ?_⟩
  · obtain ⟨body, hsent, hread⟩ := hback
      [.u8 200, .i16 (-2), .text "öl", .u32 3000000000, .bytes [0, 255], .i32 (-5), .u16 65535]
      [.u8, .i16, .text, .u32, .bytes 2, .i32, .u16] rfl (by
        intro s hs
        simp only [List.mem_cons, Field.text.injEq, List.not_mem_nil, reduceCtorEq, false_or,
          or_false] at hs
        subst hs
        decide)
    exact ⟨body, hsent, hread "Bind"⟩
  · have htried : Reader.ofBody "Bind" [195, 0, 7] =
        (Reader.ofBody "Bind" [195, 0, 7]).attempts [.text] := by decide
    obtain ⟨-, -, hstays⟩ := hstay "Bind" [195, 0, 7] [] .text _ rfl
    obtain ⟨-, hreads, -⟩ := hstay "Bind" [195, 0, 7] [.text] .u16 _ htried
    cases hfailed : FieldKind.text.read (.ofBody "Bind" [195, 0, 7]) with
    | ok f r' => cases hfailed
    | error e r' =>
      obtain rfl := hstays e r' hfailed
      obtain ⟨-, -, -, hspelt⟩ := hreads (.u16 49920) _ rfl
      exact ⟨e, _, rfl, rfl, hspelt⟩

end SeriesWire
