/-
Readers that take exactly what fields write.  `Exact P m fields` says that `m`
succeeds in front of the fields of a value in `P` and nowhere else, and that it
gives this value and takes these bytes; `Whole P m fields` says the same of a
reader of all that is left.  Both pass on to readers in a row, so a message is
read exactly if each of its parts is.
-/
import SeriesWire.Proofs.Wire.Reads

namespace SeriesWire

open Bytes

namespace Field

theorem encodeAll_singleton_ok {f : Field} {bs : Bytes} :
    encodeAll [f] = .ok bs ↔ f.encode = .ok bs := by
  simp only [encodeAll_cons_ok, encodeAll_nil_ok]
  constructor
  · rintro ⟨first, rest, hfirst, rfl, rfl⟩
    rw [List.append_nil]
    exact hfirst
  · intro h
    exact ⟨bs, [], h, rfl, (List.append_nil bs).symm⟩

/-- A check writes nothing. -/
theorem encodeAll_atMost_ok {limit n : Nat} {e : WireError} {fs : List Field} {bs : Bytes} :
    encodeAll (atMost limit n e :: fs) = .ok bs ↔ n ≤ limit ∧ encodeAll fs = .ok bs := by
  simp only [encodeAll_cons_ok, encode_atMost_ok]
  constructor
  · rintro ⟨_, rest, ⟨hle, rfl⟩, hrest, rfl⟩
    exact ⟨hle, hrest⟩
  · rintro ⟨hle, h⟩
    exact ⟨[], bs, ⟨hle, rfl⟩, h, rfl⟩

theorem counted_eq {α : Type} (what : String) (items : List α) (item : α → Field) :
    counted what items item = count what items.length ++ items.flatMap fun a => [item a] := by
  rw [counted, List.map_eq_flatMap]

/-- A length is written as a signed number, which tells it. -/
theorem ofNat_eq_i32_iff {n : Nat} {len : Int32} (h : n ≤ lengthLimit) :
    Int32.ofNat n = len ↔ len.toInt = n := by
  rw [lengthLimit] at h
  have htoInt : (Int32.ofNat n).toInt = n := Int32.toInt_ofNat_of_lt (by omega)
  constructor
  · rintro rfl
    exact htoInt
  · intro hlen
    rw [← Int32.toInt_inj, htoInt, hlen]

theorem ofNat_eq_i16_iff {n : Nat} {count : Int16} (h : n ≤ 32767) :
    Int16.ofNat n = count ↔ count.toInt = n := by
  have htoInt : (Int16.ofNat n).toInt = n := Int16.toInt_ofNat_of_lt (by omega)
  constructor
  · rintro rfl
    exact htoInt
  · intro hcount
    rw [← Int16.toInt_inj, htoInt, hcount]

/-- Items of one size, put together. -/
theorem length_of_encodeAll_flatMap {α : Type} {f : α → List Field} {size : Nat}
    (hf : ∀ a bs, encodeAll (f a) = .ok bs → bs.length = size) {items : List α} {bs : Bytes}
    (h : encodeAll (items.flatMap f) = .ok bs) : bs.length = items.length * size := by
  induction items generalizing bs with
  | nil =>
    rw [encodeAll_nil_ok.1 h, List.length_nil, List.length_nil, Nat.zero_mul]
  | cons a items ih =>
    rw [List.flatMap_cons] at h
    obtain ⟨first, others, hfirst, hothers, rfl⟩ := encodeAll_append_ok.1 h
    rw [List.length_append, hf a first hfirst, ih hothers, List.length_cons, Nat.succ_mul,
      Nat.add_comm]

end Field

namespace Read

/-- In front of the fields of a value in `P`, `m` gives this value and takes their
bytes; elsewhere it fails. -/
structure Exact {α : Type} (P : α → Prop) (m : ReadM α) (fields : α → List Field) : Prop where
  gives : ∀ {a bs}, P a → Field.encodeAll (fields a) = .ok bs → ∀ rest, Gives m bs rest a
  spells : ∀ {r r' a}, m r = .ok a r' →
    P a ∧ ∃ bs, Field.encodeAll (fields a) = .ok bs ∧ r.rest = bs ++ r'.rest

/-- `m` gives a value in `P` if the bytes of its fields are all that is left;
elsewhere it fails. -/
structure Whole {α : Type} (P : α → Prop) (m : ReadM α) (fields : α → List Field) : Prop where
  gives : ∀ {a r}, P a → Field.encodeAll (fields a) = .ok r.rest → ∃ r', m r = .ok a r'
  spells : ∀ {r r' a}, m r = .ok a r' → P a ∧ Field.encodeAll (fields a) = .ok r.rest

variable {α β : Type} {P : β → Prop} {Q : α → Prop} {m : ReadM α} {k : α → ReadM β}
  {f : α → List Field} {g : β → List Field}

theorem Whole.run_eq_ok_iff {n : ReadM β} (h : Whole P n g) {subject : String} {body : Bytes}
    {b : β} : run subject body n = .ok b ↔ P b ∧ Field.encodeAll (g b) = .ok body := by
  rw [run]
  constructor
  · intro hrun
    cases hread : n (.ofBody subject body) with
    | ok b' r =>
      rw [hread] at hrun
      cases hrun
      exact h.spells hread
    | error e r =>
      rw [hread] at hrun
      cases hrun
  · rintro ⟨hb, hfields⟩
    obtain ⟨r', hread⟩ := h.gives (r := .ofBody subject body) hb hfields
    rw [hread]

/-! ## Readers in a row

The part `p b` of the value `b` is read first; what is read behind it gives a
value with this part. -/

theorem Exact.bind (p : β → α) (hm : Exact Q m f) (hp : ∀ b, P b → Q (p b))
    (hk : ∀ a, Q a → Exact (fun b => P b ∧ p b = a) (k a) g) :
    Exact P (m >>= k) fun b => f (p b) ++ g b where
  gives := by
    intro b bs hb h rest
    obtain ⟨first, others, hfirst, hothers, rfl⟩ := Field.encodeAll_append_ok.1 h
    exact (hm.gives (hp b hb) hfirst _).bind ((hk _ (hp b hb)).gives ⟨hb, rfl⟩ hothers rest)
  spells := by
    intro r r' b h
    obtain ⟨a, r'', ha, hb⟩ := bind_eq_ok.1 h
    obtain ⟨hq, first, hfirst, hrest⟩ := hm.spells ha
    obtain ⟨⟨hpb, rfl⟩, others, hothers, hrest'⟩ := (hk a hq).spells hb
    rw [hrest', ← List.append_assoc] at hrest
    exact ⟨hpb, _, Field.encodeAll_append_ok.2 ⟨first, others, hfirst, hothers, rfl⟩, hrest⟩

theorem Exact.bind_whole (p : β → α) (hm : Exact Q m f) (hp : ∀ b, P b → Q (p b))
    (hk : ∀ a, Q a → Whole (fun b => P b ∧ p b = a) (k a) g) :
    Whole P (m >>= k) fun b => f (p b) ++ g b where
  gives := by
    rintro b ⟨subject, position, left⟩ hb h
    obtain ⟨first, others, hfirst, hothers, rfl⟩ := Field.encodeAll_append_ok.1 h
    rw [bind_ok (hm.gives (hp b hb) hfirst others subject position)]
    exact (hk _ (hp b hb)).gives ⟨hb, rfl⟩ hothers
  spells := by
    intro r r' b h
    obtain ⟨a, r'', ha, hb⟩ := bind_eq_ok.1 h
    obtain ⟨hq, first, hfirst, hrest⟩ := hm.spells ha
    obtain ⟨⟨hpb, rfl⟩, hothers⟩ := (hk a hq).spells hb
    exact ⟨hpb, Field.encodeAll_append_ok.2 ⟨first, r''.rest, hfirst, hothers, hrest⟩⟩

/-- The value is complete. -/
theorem exact_pure {b : β} (h : ∀ b', P b' ↔ b' = b) : Exact P (pure b) fun _ => [] where
  gives := by
    intro b' bs hb' hfields rest subject position
    cases (h b').1 hb'
    cases Field.encodeAll_nil_ok.1 hfields
    rfl
  spells := by
    intro r r' b' hpure
    cases hpure
    exact ⟨(h b).2 rfl, [], rfl, rfl⟩

/-- The value is complete, and nothing may be left. -/
theorem whole_finish {b : β} (h : ∀ b', P b' ↔ b' = b) :
    Whole P (finish >>= fun _ => pure b) fun _ => [] where
  gives := by
    intro b' r hb' hfields
    cases (h b').1 hb'
    have hnone := Field.encodeAll_nil_ok.1 hfields
    have hfinish : finish r = .ok () r := if_pos hnone
    exact ⟨r, bind_ok hfinish⟩
  spells := by
    intro r r' b' hread
    obtain ⟨⟨⟩, r'', hfinish, hpure⟩ := bind_eq_ok.1 hread
    cases hpure
    rw [finish] at hfinish
    split at hfinish
    next hnone => exact ⟨(h b).2 rfl, Field.encodeAll_nil_ok.2 hnone⟩
    next => cases hfinish

/-! ## Checks -/

theorem Exact.congr {P' : α → Prop} {f' : α → List Field} (hm : Exact Q m f)
    (h : ∀ a bs, P' a ∧ Field.encodeAll (f' a) = .ok bs ↔ Q a ∧ Field.encodeAll (f a) = .ok bs) :
    Exact P' m f' where
  gives := fun ha hfields rest =>
    hm.gives ((h _ _).1 ⟨ha, hfields⟩).1 ((h _ _).1 ⟨ha, hfields⟩).2 rest
  spells := by
    intro r r' a hread
    obtain ⟨ha, bs, hfields, hrest⟩ := hm.spells hread
    obtain ⟨ha', hfields'⟩ := (h a bs).2 ⟨ha, hfields⟩
    exact ⟨ha', bs, hfields', hrest⟩

theorem Whole.congr {P' : α → Prop} {f' : α → List Field} (hm : Whole Q m f)
    (h : ∀ a bs, P' a ∧ Field.encodeAll (f' a) = .ok bs ↔ Q a ∧ Field.encodeAll (f a) = .ok bs) :
    Whole P' m f' where
  gives := fun ha hfields =>
    hm.gives ((h _ _).1 ⟨ha, hfields⟩).1 ((h _ _).1 ⟨ha, hfields⟩).2
  spells := fun hread => (h _ _).2 (hm.spells hread)

/-- A limit that is checked in front of the fields. -/
theorem Exact.limited {size : α → Nat} {limit : Nat} {e : α → WireError}
    (hm : Exact (fun a => Q a ∧ size a ≤ limit) m f) :
    Exact Q m fun a => .atMost limit (size a) (e a) :: f a :=
  hm.congr fun a bs => by rw [Field.encodeAll_atMost_ok, and_assoc]

theorem Whole.limited {size : α → Nat} {limit : Nat} {e : α → WireError}
    (hm : Whole (fun a => Q a ∧ size a ≤ limit) m f) :
    Whole Q m fun a => .atMost limit (size a) (e a) :: f a :=
  hm.congr fun a bs => by rw [Field.encodeAll_atMost_ok, and_assoc]

/-- A check that no value in `Q` fails. -/
theorem Exact.checked {c : Prop} [Decidable c] {cause : Malformation} (hc : ∀ a, Q a → ¬c)
    (hm : ¬c → Exact Q m f) : Exact Q (if c then reject cause else m) f where
  gives := by
    intro a bs ha hfields rest
    rw [if_neg (hc a ha)]
    exact (hm (hc a ha)).gives ha hfields rest
  spells := by
    intro r r' a hread
    split at hread
    · cases hread
    next hnot => exact (hm hnot).spells hread

theorem Whole.checked {c : Prop} [Decidable c] {cause : Malformation} {k : α → ReadM β}
    {n : ReadM β} (hc : ∀ b, P b → ¬c) (hn : ¬c → Whole P n g) :
    Whole P (if c then reject cause >>= k else n) g where
  gives := by
    intro b r hb hfields
    rw [if_neg (hc b hb)]
    exact (hn (hc b hb)).gives hb hfields
  spells := by
    intro r r' b hread
    split at hread
    · obtain ⟨_, _, hreject, -⟩ := bind_eq_ok.1 hread
      cases hreject
    next hnot => exact (hn hnot).spells hread

/-- A look at what is left, which passes in front of the fields of any value in `P`. -/
theorem Whole.peek {c : Reader → Prop} [DecidablePred c] {cause : Reader → Malformation}
    {k : Reader → α → ReadM β} {n : ReadM β} (hn : Whole P n g)
    (hc : ∀ b r, P b → Field.encodeAll (g b) = .ok r.rest → ¬c r) :
    Whole P (get >>= fun r : Reader => if c r then reject (cause r) >>= k r else n) g where
  gives := by
    intro b r hb hfields
    rw [bind_ok (get_ok r), if_neg (hc b r hb hfields)]
    exact hn.gives hb hfields
  spells := by
    intro r r' b hread
    rw [bind_ok (get_ok r)] at hread
    split at hread
    · obtain ⟨_, _, hreject, -⟩ := bind_eq_ok.1 hread
      cases hreject
    · exact hn.spells hread

theorem whole_throw {e : WireError} (h : ∀ b, ¬P b) : Whole P (throw e) g where
  gives := fun hb => absurd hb (h _)
  spells := fun hread => nomatch hread

/-- The value is complete with all that is left. -/
theorem whole_rest {build : Bytes → β} {raw : β → Bytes}
    (h : ∀ b bs, P b ∧ raw b = bs ↔ b = build bs) :
    Whole P (rest >>= fun bs => pure (build bs)) fun b => [.bytes (raw b)] where
  gives := by
    intro b r hb hfields
    rw [Field.encodeAll_singleton_ok, Field.encode_bytes_ok] at hfields
    rw [(h b r.rest).1 ⟨hb, hfields.symm⟩]
    exact ⟨r, rfl⟩
  spells := by
    intro r r' b hread
    obtain ⟨bs, r'', hrest, hpure⟩ := bind_eq_ok.1 hread
    cases hrest
    cases hpure
    obtain ⟨hb, hraw⟩ := (h (build r.rest) r.rest).2 rfl
    rw [hraw]
    exact ⟨hb, Field.encodeAll_singleton_ok.2 (Field.encode_bytes_ok.2 rfl)⟩

/-! ## Single fields -/

theorem exact_bytes (n : Nat) :
    Exact (fun bs => bs.length = n) (bytes n) fun bs => [.bytes bs] where
  gives := by
    intro bs written hlen h rest
    rw [Field.encodeAll_singleton_ok, Field.encode_bytes_ok] at h
    rw [h]
    exact gives_bytes hlen rest
  spells := by
    intro r r' bs h
    rw [bytes] at h
    split at h
    · cases h
    next hlong =>
      cases h
      refine ⟨?_, r.rest.take n, ?_, (List.take_append_drop n r.rest).symm⟩
      · rw [List.length_take] at hlong ⊢
        omega
      · rw [Field.encodeAll_singleton_ok, Field.encode_bytes_ok]

/-- A number of `width` bytes. -/
theorem exact_number {width : Nat} {field : α → Field} {write : α → Bytes} {parse : Bytes → α}
    (hwrite : ∀ a, (field a).encode = .ok (write a))
    (hgives : ∀ a rest, Gives (bytes width >>= fun bs => pure (parse bs)) (write a) rest a)
    (hparse : ∀ bs, bs.length = width → (field (parse bs)).encode = .ok bs) :
    Exact (fun _ => True) (bytes width >>= fun bs => pure (parse bs)) fun a => [field a] where
  gives := by
    intro a bs _ h rest
    rw [Field.encodeAll_singleton_ok, hwrite, Field.ok_eq_ok] at h
    rw [h]
    exact hgives a rest
  spells := by
    intro r r' a h
    obtain ⟨bs, r'', hbs, hpure⟩ := bind_eq_ok.1 h
    cases hpure
    obtain ⟨hlen, _, hwritten, hrest⟩ := (exact_bytes width).spells hbs
    rw [Field.encodeAll_singleton_ok, Field.encode_bytes_ok] at hwritten
    rw [hwritten] at hrest
    exact ⟨trivial, bs, Field.encodeAll_singleton_ok.2 (hparse bs hlen), hrest⟩

/-- A number without a sign, made of its value by `make`. -/
theorem exact_natural {width : Nat} {field : α → Field} {make : Nat → α} {toNat : α → Nat}
    (hwrite : ∀ a, (field a).encode = .ok (ofNatBE width (toNat a)))
    (hback : ∀ a, make (toNat a) = a) (hlt : ∀ a, toNat a < space width)
    (hmade : ∀ n < space width, toNat (make n) = n) :
    Exact (fun _ => True) (bytes width >>= fun bs => pure (make bs.toNatBE)) fun a => [field a] :=
  exact_number hwrite (fun a rest => gives_natural (hlt a) (hback a) rest) fun bs hlen => by
    rw [hwrite, hmade _ (toNatBE_lt_space hlen), ← hlen, ofNatBE_toNatBE]

theorem exact_integer {width : Nat} {field : α → Field} {make : Int → α} {toInt : α → Int}
    (hwrite : ∀ a, (field a).encode = .ok (ofIntBE width (toInt a)))
    (hback : ∀ a, make (toInt a) = a) (hfits : ∀ a, FitsInt width (toInt a))
    (hmade : ∀ n, FitsInt width n → toInt (make n) = n) :
    Exact (fun _ => True) (bytes width >>= fun bs => pure (make bs.toIntBE)) fun a => [field a] :=
  exact_number hwrite (fun a rest => gives_integer (hfits a) (hback a) rest) fun bs hlen => by
    rw [hwrite, hmade _ (fitsInt_of_length hlen), ← hlen, ofIntBE_toIntBE]

theorem exact_u8 : Exact (fun _ => True) u8 fun n => [.u8 n] :=
  exact_natural (fun _ => rfl) (fun _ => UInt8.ofNat_toNat) UInt8.toNat_lt
    fun _ => UInt8.toNat_ofNat_of_lt'

theorem exact_u16 : Exact (fun _ => True) u16 fun n => [.u16 n] :=
  exact_natural (fun _ => rfl) (fun _ => UInt16.ofNat_toNat) UInt16.toNat_lt
    fun _ => UInt16.toNat_ofNat_of_lt'

theorem exact_u32 : Exact (fun _ => True) u32 fun n => [.u32 n] :=
  exact_natural (fun _ => rfl) (fun _ => UInt32.ofNat_toNat) UInt32.toNat_lt
    fun _ => UInt32.toNat_ofNat_of_lt'

theorem exact_i16 : Exact (fun _ => True) i16 fun n => [.i16 n] :=
  exact_integer (fun _ => rfl) Int16.ofInt_toInt fitsInt_int16 fun _ => toInt_int16

theorem exact_i32 : Exact (fun _ => True) i32 fun n => [.i32 n] :=
  exact_integer (fun _ => rfl) Int32.ofInt_toInt fitsInt_int32 fun _ => toInt_int32

theorem exact_text : Exact (fun _ => True) text fun s => [.text s] where
  gives := by
    intro s bs _ h rest
    rw [Field.encodeAll_singleton_ok, Field.encode_text_ok] at h
    rw [h.2]
    exact gives_text h.1 rest
  spells := by
    intro r r' s h
    simp only [text] at h
    split at h
    · cases h
    next b tail hdrop =>
      split at h
      · cases h
      next hs =>
        cases h
        have hspelling := Utf8.encode_of_decode hs
        have hrest := eq_append_of_drop_beforeNul hdrop
        refine ⟨trivial, Utf8.encode s ++ [0], ?_, ?_⟩
        · rw [Field.encodeAll_singleton_ok, Field.encode_text_ok, hspelling]
          exact ⟨zero_not_mem_beforeNul r.rest, rfl⟩
        · have hbehind : r.rest.drop ((beforeNul r.rest).length + 1) = tail := by
            rw [← List.drop_drop, hdrop]
            rfl
          rw [hspelling, Reader.advance, hbehind, List.append_assoc, List.singleton_append]
          exact hrest

/-! ## Repetitions -/

theorem exact_many (hm : Exact (fun _ => True) m f) (count : Nat) :
    Exact (fun l => l.length = count) (many count m) fun l => l.flatMap f where
  gives := by
    rintro l bs rfl h rest
    exact gives_many (fun a first rest hfirst => hm.gives trivial hfirst rest) h rest
  spells := by
    intro r r' l h
    induction count generalizing r l with
    | zero =>
      rw [many_zero] at h
      cases h
      exact ⟨rfl, [], rfl, rfl⟩
    | succ count ih =>
      rw [many_succ] at h
      cases hfirst : m r with
      | error e r₁ =>
        rw [hfirst] at h
        cases h
      | ok a r₁ =>
        cases hothers : many count m r₁ with
        | error e r₂ =>
          simp only [hfirst, hothers] at h
          cases h
        | ok others r₂ =>
          simp only [hfirst, hothers] at h
          cases h
          obtain ⟨-, first, hbytes, hrest⟩ := hm.spells hfirst
          obtain ⟨hlen, bs, hbs, hrest'⟩ := ih hothers
          refine ⟨congrArg (· + 1) hlen, first ++ bs, ?_, ?_⟩
          · rw [List.flatMap_cons]
            exact Field.encodeAll_append_ok.2 ⟨first, bs, hbytes, hbs, rfl⟩
          · rw [hrest, hrest', List.append_assoc]

/-- Items behind their number. -/
theorem exact_count (what : String) {k : Nat → ReadM (List α)}
    (hk : ∀ n, Exact (fun l => l.length = n) (k n) fun l => l.flatMap f) :
    Exact (fun _ => True) (u16 >>= fun n => k n.toNat) fun l =>
      Field.count what l.length ++ l.flatMap f := by
  refine Exact.limited ?_
  refine exact_u16.bind (fun l : List α => UInt16.ofNat l.length) (fun _ _ => trivial) fun n _ => ?_
  refine (hk n.toNat).congr fun l bs => and_congr_left fun _ => ?_
  constructor
  · rintro ⟨⟨-, hle⟩, rfl⟩
    exact (UInt16.toNat_ofNat_of_lt' (Nat.lt_succ_of_le hle)).symm
  · intro hlen
    have hlt := n.toNat_lt
    refine ⟨⟨trivial, by omega⟩, ?_⟩
    rw [hlen, UInt16.ofNat_toNat]

theorem exact_counted (what : String) (hm : Exact (fun _ => True) m f) :
    Exact (fun _ => True) (counted m) fun l => Field.count what l.length ++ l.flatMap f :=
  exact_count what (exact_many hm)

/-- A look at whether there is enough left, which there is in front of the fields
of any value in `Q`. -/
theorem Exact.ahead {n : Nat} {otherwise : Reader → Malformation} (hm : Exact Q m f)
    (hn : ∀ a bs, Q a → Field.encodeAll (f a) = .ok bs → n ≤ bs.length) :
    Exact Q (get >>= fun r : Reader => if r.has n then m else reject (otherwise r)) f where
  gives := by
    intro a bs ha h rest
    refine Gives.peek fun subject position => ?_
    have hroom : Reader.has ⟨subject, position, bs ++ rest⟩ n = true := by
      have hlen := hn a bs ha h
      rw [Reader.has, Reader.remaining, decide_eq_true_iff, List.length_append]
      omega
    rw [if_pos hroom]
    exact hm.gives ha h rest
  spells := by
    intro r r' a h
    change (if r.has n then m else reject (otherwise r)) r = _ at h
    split at h
    · exact hm.spells h
    · cases h

end Read
end SeriesWire
