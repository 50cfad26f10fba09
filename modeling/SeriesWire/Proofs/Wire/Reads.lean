/-
Fields and their readers.  `Read.Gives m bs rest a` says that a reader in front
of `bs ++ rest` gives `a` and stops in front of `rest`.  Every field is given
back by the reader of its kind, and readers in a row take the bytes of fields in
a row.
-/
import SeriesWire.Proofs.Outcomes
import SeriesWire.Proofs.Slices
import SeriesWire.Proofs.Text.Utf8
import SeriesWire.Wire.Field
import SeriesWire.Wire.Reader

namespace SeriesWire

open Bytes

/-! ## Fields in a row -/

namespace Field

variable {f : Field} {fs gs : List Field} {bs : Bytes}

theorem ok_eq_ok {a b : Bytes} : (Except.ok a : Except WireError Bytes) = .ok b ↔ b = a :=
  ⟨fun h => (Except.ok.inj h).symm, fun h => congrArg Except.ok h.symm⟩

theorem encodeAll_nil_ok : encodeAll [] = .ok bs ↔ bs = [] := ok_eq_ok

theorem joined_ok {x y : Except WireError Bytes} :
    (x >>= fun first => y.map (first ++ ·)) = .ok bs ↔
      ∃ first rest, x = .ok first ∧ y = .ok rest ∧ bs = first ++ rest := by
  rw [Outcome.bind_eq_ok]
  constructor
  · rintro ⟨first, hfirst, h⟩
    obtain ⟨rest, hrest, rfl⟩ := Outcome.map_eq_ok.1 h
    exact ⟨first, rest, hfirst, hrest, rfl⟩
  · rintro ⟨first, rest, hfirst, hrest, rfl⟩
    exact ⟨first, hfirst, Outcome.map_eq_ok.2 ⟨rest, hrest, rfl⟩⟩

theorem encodeAll_cons (f : Field) (fs : List Field) :
    encodeAll (f :: fs) = f.encode >>= fun first => (encodeAll fs).map (first ++ ·) := by
  simp only [encodeAll, List.mapM_cons]
  cases f.encode with
  | error e => rfl
  | ok first => cases fs.mapM encode <;> rfl

theorem encodeAll_append (fs gs : List Field) :
    encodeAll (fs ++ gs) = encodeAll fs >>= fun first => (encodeAll gs).map (first ++ ·) := by
  simp only [encodeAll, List.mapM_append]
  cases fs.mapM encode with
  | error e => rfl
  | ok first =>
    cases gs.mapM encode with
    | error e => rfl
    | ok rest => exact congrArg Except.ok List.flatten_append

theorem encodeAll_cons_ok :
    encodeAll (f :: fs) = .ok bs ↔
      ∃ first rest, f.encode = .ok first ∧ encodeAll fs = .ok rest ∧ bs = first ++ rest := by
  rw [encodeAll_cons, joined_ok]

theorem encodeAll_append_ok :
    encodeAll (fs ++ gs) = .ok bs ↔
      ∃ first rest, encodeAll fs = .ok first ∧ encodeAll gs = .ok rest ∧ bs = first ++ rest := by
  rw [encodeAll_append, joined_ok]

theorem encodeAll_cons_error {e : WireError} :
    encodeAll (f :: fs) = .error e ↔
      f.encode = .error e ∨ ∃ first, f.encode = .ok first ∧ encodeAll fs = .error e := by
  rw [encodeAll_cons]
  cases f.encode with
  | error e' => simp [bind, Except.bind]
  | ok first => cases encodeAll fs <;> simp [bind, Except.bind, Except.map]

theorem encode_i16_ok {n : Int16} : (i16 n).encode = .ok bs ↔ bs = ofIntBE 2 n.toInt := ok_eq_ok

theorem encode_u16_ok {n : UInt16} : (u16 n).encode = .ok bs ↔ bs = ofNatBE 2 n.toNat := ok_eq_ok

theorem encode_u32_ok {n : UInt32} : (u32 n).encode = .ok bs ↔ bs = ofNatBE 4 n.toNat := ok_eq_ok

theorem encode_i32_ok {n : Int32} : (i32 n).encode = .ok bs ↔ bs = ofIntBE 4 n.toInt := ok_eq_ok

theorem encode_bytes_ok {raw : Bytes} : (bytes raw).encode = .ok bs ↔ bs = raw := ok_eq_ok

theorem encode_text_ok {s : String} :
    (text s).encode = .ok bs ↔ 0 ∉ Utf8.encode s ∧ bs = Utf8.encode s ++ [0] := by
  simp only [encode]
  by_cases h : 0 ∈ Utf8.encode s
  · rw [if_pos h]
    exact ⟨nofun, fun hs => absurd h hs.1⟩
  · rw [if_neg h, ok_eq_ok, and_iff_right h]

theorem encode_atMost_ok {limit n : Nat} {e : WireError} :
    (atMost limit n e).encode = .ok bs ↔ n ≤ limit ∧ bs = [] := by
  simp only [encode]
  by_cases h : n ≤ limit
  · rw [if_pos h, ok_eq_ok, and_iff_right h]
  · rw [if_neg h]
    exact ⟨nofun, fun hs => absurd hs.1 h⟩

end Field

/-! ## Readers in a row -/

namespace Read

/-- In front of `bs ++ rest`, `m` takes `bs` and gives `a`. -/
def Gives {α : Type} (m : ReadM α) (bs rest : Bytes) (a : α) : Prop :=
  ∀ subject position,
    m ⟨subject, position, bs ++ rest⟩ = .ok a ⟨subject, position + bs.length, rest⟩

variable {α β : Type} {m : ReadM α} {bs bs' rest : Bytes} {a : α} {b : β}

theorem Gives.bind {k : α → ReadM β} (hm : Gives m bs (bs' ++ rest) a)
    (hk : Gives (k a) bs' rest b) : Gives (m >>= k) (bs ++ bs') rest b := by
  intro subject position
  have hstart := hm subject position
  have hnext := hk subject (position + bs.length)
  rw [List.append_assoc, List.length_append, ← Nat.add_assoc, ← hnext]
  show EStateM.bind m k _ = _
  rw [EStateM.bind, hstart]

theorem Gives.map {f : α → β} (hm : Gives m bs rest a) :
    Gives (m >>= fun a => pure (f a)) bs rest (f a) := by
  intro subject position
  show EStateM.bind m _ _ = _
  rw [EStateM.bind, hm subject position]
  rfl

theorem gives_bytes {bs : Bytes} {n : Nat} (h : bs.length = n) (rest : Bytes) :
    Gives (bytes n) bs rest bs := by
  subst h
  intro subject position
  simp only [bytes, Reader.advance]
  rw [List.take_left, List.drop_left, if_neg (Nat.lt_irrefl _)]

/-- A step that looks at where the reader stands. -/
theorem Gives.peek {k : Reader → ReadM β}
    (hk : ∀ subject position, Gives (k ⟨subject, position, bs ++ rest⟩) bs rest b) :
    Gives (get >>= k) bs rest b :=
  fun subject position => hk subject position subject position

theorem gives_text {s : String} (h : 0 ∉ Utf8.encode s) (rest : Bytes) :
    Gives text (Utf8.encode s ++ [0]) rest s := by
  intro subject position
  have hshape : Utf8.encode s ++ [0] ++ rest = Utf8.encode s ++ 0 :: rest := by
    rw [List.append_assoc, List.singleton_append]
  have hspelling : beforeNul (Utf8.encode s ++ 0 :: rest) = Utf8.encode s := by
    rw [beforeNul_append_zero, beforeNul_eq_self h]
  have hlen : (Utf8.encode s ++ [0]).length = (Utf8.encode s).length + 1 := by
    rw [List.length_append, List.length_singleton]
  rw [hshape, hlen]
  simp only [text, hspelling, List.drop_left, Utf8.decode_encode, Reader.advance]
  rw [List.drop_length_add_append]
  rfl

/-- A number without a sign in `width` bytes, which `make` makes of its value. -/
theorem gives_natural {width n : Nat} {make : Nat → α} (hn : n < space width) (hmake : make n = a)
    (rest : Bytes) :
    Gives (bytes width >>= fun bs => pure (make bs.toNatBE)) (ofNatBE width n) rest a := by
  have h := (gives_bytes (length_ofNatBE width n) rest).map (f := fun bs => make bs.toNatBE)
  rwa [toNatBE_ofNatBE_of_lt hn, hmake] at h

theorem gives_integer {width : Nat} {n : Int} {make : Int → α} (hn : FitsInt width n)
    (hmake : make n = a) (rest : Bytes) :
    Gives (bytes width >>= fun bs => pure (make bs.toIntBE)) (ofIntBE width n) rest a := by
  have h := (gives_bytes (length_ofIntBE width n) rest).map (f := fun bs => make bs.toIntBE)
  rwa [toIntBE_ofIntBE hn, hmake] at h

theorem gives_i32 (n : Int32) (rest : Bytes) : Gives i32 (ofIntBE 4 n.toInt) rest n :=
  gives_integer (fitsInt_int32 n) (Int32.ofInt_toInt n) rest

theorem gives_many {item : ReadM α} {fields : α → List Field}
    (hitem : ∀ a first rest, Field.encodeAll (fields a) = .ok first → Gives item first rest a)
    {items : List α} (h : Field.encodeAll (items.flatMap fields) = .ok bs) (rest : Bytes) :
    Gives (many items.length item) bs rest items := by
  induction items generalizing bs with
  | nil =>
    cases h
    exact fun _ _ => rfl
  | cons a items ih =>
    rw [List.flatMap_cons] at h
    obtain ⟨first, others, hfirst, hothers, rfl⟩ := Field.encodeAll_append_ok.1 h
    intro subject position
    have hhead := hitem a first (others ++ rest) hfirst subject position
    have htail := ih hothers subject (position + first.length)
    rw [List.length_cons, many_succ, List.append_assoc, hhead]
    simp only [htail]
    rw [List.length_append, Nat.add_assoc]

/-! ## Readers that went some way -/

theorem bind_ok {k : α → ReadM β} {r r' : Reader} (h : m r = .ok a r') :
    (m >>= k) r = k a r' := by
  show EStateM.bind m k r = _
  rw [EStateM.bind, h]

theorem get_ok (r : Reader) : (get : ReadM Reader) r = .ok r r := rfl

theorem bind_error {k : α → ReadM β} {r r' : Reader} {e : WireError} (h : m r = .error e r') :
    (m >>= k) r = .error e r' := by
  show EStateM.bind m k r = _
  rw [EStateM.bind, h]

theorem bind_eq_ok {k : α → ReadM β} {r r' : Reader} :
    (m >>= k) r = .ok b r' ↔ ∃ a r'', m r = .ok a r'' ∧ k a r'' = .ok b r' := by
  show EStateM.bind m k r = _ ↔ _
  rw [EStateM.bind]
  cases m r with
  | ok a r'' =>
    constructor
    · intro h
      exact ⟨a, r'', rfl, h⟩
    · rintro ⟨_, _, h, hk⟩
      cases h
      exact hk
  | error e r'' =>
    constructor
    · intro h
      cases h
    · rintro ⟨_, _, h, -⟩
      cases h

end Read

/-- A reader that took the first `position` bytes of `body`. -/
def Reader.past (subject : String) (body : Bytes) (position : Nat) : Reader :=
  ⟨subject, position, body.drop position⟩

namespace Read

variable {subject : String} {body : Bytes} {position : Nat}

theorem run_eq {α : Type} (subject : String) (body : Bytes) (m : ReadM α) :
    run subject body m =
      match m (.past subject body 0) with
      | .ok a _ => .ok a
      | .error e _ => .error e := rfl

theorem bytes_past {n : Nat} (h : position + n ≤ body.length) :
    bytes n (.past subject body position) =
      .ok (body.slice position n) (.past subject body (position + n)) := by
  have hlen : ¬((body.drop position).take n).length < n := by
    rw [List.length_take, List.length_drop]
    omega
  show (if ((body.drop position).take n).length < n then _ else
    EStateM.Result.ok _ (Reader.advance _ n)) = _
  rw [if_neg hlen]
  simp only [Reader.past, Reader.advance, List.drop_drop]
  rfl

theorem u16_past (h : position + 2 ≤ body.length) :
    u16 (.past subject body position) =
      .ok (UInt16.ofNat (body.slice position 2).toNatBE) (.past subject body (position + 2)) :=
  bind_ok (bytes_past h)

theorem i16_past (h : position + 2 ≤ body.length) :
    i16 (.past subject body position) =
      .ok (Int16.ofInt (body.slice position 2).toIntBE) (.past subject body (position + 2)) :=
  bind_ok (bytes_past h)

theorem u32_past (h : position + 4 ≤ body.length) :
    u32 (.past subject body position) =
      .ok (UInt32.ofNat (body.slice position 4).toNatBE) (.past subject body (position + 4)) :=
  bind_ok (bytes_past h)

end Read
end SeriesWire
