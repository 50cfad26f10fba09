/-
Primary tags.  A group has two names: a key, which is a text, and the primary tag
bytes in the header of its payload.  Rows that may open a payload under the same
key have the same primary tag bytes (`tags_of_same_key`).  The bytes keep less of
a value than the key, and `LostApart` says how much less.
-/
import SeriesWire.Proofs.GroupKey.Values
import SeriesWire.Proofs.Payload.Filling

namespace SeriesWire

open Bytes

/-! ## Values in slots -/

namespace CellValue

/-- Whether `v` can stand in column `c` as a primary tag, which a missing value
cannot. -/
def Storable (v : CellValue) (c : Column) : Prop :=
  v.isNull = false ∧ ∃ stored, v.store c.type c.width 0 true = .ok stored ∧ stored.width ≤ c.width

/-- `v` encoded on its own as a primary tag, into a slot of zeros. -/
def tagCell (v : CellValue) (c : Column) : Placed :=
  v.place c.type.oid (zeros c.width) c.width [] 0 true

variable {v w : CellValue} {c : Column}

theorem Storable.suits (h : v.Storable c) : v.Suits c.type := by
  obtain ⟨hv, stored, hstore, -⟩ := h
  exact suits_of_store hv hstore

theorem packable?_of_store {t : ColumnType} {width offset : Nat} {primary : Bool} {stored : Stored}
    (h : v.store t width offset primary = .ok stored) : ColumnType.packable? t.oid = some t := by
  cases t with
  | date => cases v <;> cases h
  | _ => decide

/-- A primary tag has no entry, so what it leaves does not depend on where entries
stand. -/
theorem entry_of_store {t : ColumnType} {width offset : Nat} {stored : Stored}
    (hv : v.isNull = false) (h : v.store t width offset true = .ok stored) :
    stored.entry = [] := by
  rcases store_ok hv h with ⟨_, -, -, rfl⟩ | ⟨-, -, _, -, rfl⟩ | ⟨hi, -⟩
  · rfl
  · rfl
  · rw [Bool.not_true, Bool.and_false] at hi
    cases hi

theorem store_offset (v : CellValue) (t : ColumnType) (width offset : Nat) :
    v.store t width offset true = v.store t width 0 true := by
  cases t <;> cases v <;> rfl

theorem tagCell_of_storable (h : v.Storable c) :
    (v.tagCell c).outcome.isOk = true ∧ (v.tagCell c).dest = (v.octets c.type).fit c.width := by
  obtain ⟨hv, stored, hstore, hwidth⟩ := h
  have hentry := entry_of_store hv hstore
  have hslot := Packer.fit_slot_of_store hv hstore
  rw [fit, List.take_of_length_le (by rw [Stored.length_slot]; exact hwidth), Stored.length_slot]
    at hslot
  rw [tagCell, place, packable?_of_store hstore]
  simp only [hstore, Placed.write, Stored.checkEntry, Stored.checkSlot, hentry, ne_eq,
    not_true_eq_false, false_and, if_false, length_zeros, Nat.not_lt_of_le hwidth, if_true]
  refine ⟨rfl, ?_⟩
  rw [overwrite, List.take_zero, List.nil_append, Nat.zero_add, Stored.length_slot, ← hslot, zeros,
    List.drop_replicate]
  rfl

theorem storable_of_tagCell (hv : v.isNull = false) (h : (v.tagCell c).outcome.isOk = true) :
    v.Storable c := by
  refine ⟨hv, ?_⟩
  rw [tagCell, place] at h
  split at h
  · cases h
  next t ht =>
    have htype : t = c.type := by
      rw [ColumnType.packable?, ColumnType.ofOid?_oid] at ht
      exact (Option.some.inj (Option.filter_eq_some_iff.1 ht).1).symm
    subst htype
    split at h
    · cases h
    next stored hstore =>
      refine ⟨stored, hstore, ?_⟩
      simp only [Placed.write, Stored.checkSlot, length_zeros] at h
      split at h
      · cases h
      · split at h
        next => cases h
        next hslot =>
          split at hslot
          · cases hslot
          next hwidth => exact Nat.le_of_not_lt hwidth

/-- `v` and `w` are different values that a slot `width` bytes wide does not tell
apart: instants within one millisecond, or texts that differ, as far as the slot
keeps them, in NULs at the end. -/
def LostApart (width : Nat) : CellValue → CellValue → Prop
  | .timestamp a, .timestamp b => a ≠ b ∧ a.toInt / 1000 = b.toInt / 1000
  | .bytes a, .bytes b =>
    a ≠ b ∧ ∃ n, b.take width = a.take width ++ zeros n ∨ a.take width = b.take width ++ zeros n
  | _, _ => False

/-! ### What the slot keeps -/

/-- A number that can be stored is as wide as its type, and its slot is wide
enough. -/
theorem Storable.length_octets {natural : Nat} (h : v.Storable c)
    (ht : c.type.fixedWidth? = some natural) :
    (v.octets c.type).length = natural ∧ natural ≤ c.width := by
  obtain ⟨hv, stored, hstore, hwidth⟩ := h
  rcases store_ok hv hstore with ⟨width, hw, hlen, rfl⟩ | ⟨hnone, -⟩ | ⟨hi, -⟩
  · rw [ht] at hw
    cases hw
    exact ⟨hlen, hwidth⟩
  · rw [ht] at hnone
    cases hnone
  · rw [Bool.not_true, Bool.and_false] at hi
    cases hi

theorem octets_eq_of_fit {natural : Nat} (hv : v.Storable c) (hw : w.Storable c)
    (ht : c.type.fixedWidth? = some natural)
    (h : (v.octets c.type).fit c.width = (w.octets c.type).fit c.width) :
    v.octets c.type = w.octets c.type := by
  obtain ⟨hlen, hle⟩ := hv.length_octets ht
  exact eq_of_fit hlen (hw.length_octets ht).1 hle h

theorem fitsInt_of_storeInt {t : ColumnType} {width : Nat} {n : Int64} {stored : Stored}
    (h : storeInt t width n = .ok stored) : FitsInt width n.toInt := by
  rw [storeInt] at h
  split at h
  next hfits => exact hfits
  next => cases h

theorem eq_of_octets_timestamp {a b : Int64} {t : ColumnType}
    (h : (timestamp a).octets t = (timestamp b).octets t) : a.toInt / 1000 = b.toInt / 1000 := by
  rw [octets, octets, ← Epoch.toInt_toUnixMillis, ← Epoch.toInt_toUnixMillis] at h
  have hmillis := ofIntLE_injective (fitsInt_toInt _) (fitsInt_toInt _) h
  rw [Epoch.toInt_toUnixMillis, Epoch.toInt_toUnixMillis] at hmillis
  omega

theorem key_of_octets_number {natural : Nat} (hv : v.Storable c) (hw : w.Storable c)
    (ht : c.type.fixedWidth? = some natural) (hinstant : c.type.isTimestamp = false)
    (h : v.octets c.type = w.octets c.type) :
    GroupKey.ofValue? c.type v = GroupKey.ofValue? c.type w := by
  have hsuitsv := hv.suits
  have hsuitsw := hw.suits
  obtain ⟨-, storedv, hstorev, -⟩ := hv
  obtain ⟨-, storedw, hstorew, -⟩ := hw
  generalize c.type = t at ht hinstant h hsuitsv hsuitsw hstorev hstorew
  cases t with
  | int2 | int4 | int8 =>
    obtain ⟨m, rfl⟩ := hsuitsv
    obtain ⟨n, rfl⟩ := hsuitsw
    have hsame := ofIntLE_injective (fitsInt_of_storeInt hstorev) (fitsInt_of_storeInt hstorew) h
    rw [Int64.toInt_inj.1 hsame]
  | float4 =>
    obtain ⟨x, hx⟩ := hsuitsv
    obtain ⟨y, hy⟩ := hsuitsw
    rw [octets_float4 hx, octets_float4 hy] at h
    have hbits := ofNatLE_injective x.narrow.bits.toNat_lt y.narrow.bits.toNat_lt h
    rw [GroupKey.ofValue?_float4 hx, GroupKey.ofValue?_float4 hy, Binary32.eq_of_toNat hbits]
  | float8 =>
    obtain ⟨x, hx⟩ := hsuitsv
    obtain ⟨y, hy⟩ := hsuitsw
    rw [octets_float8 hx, octets_float8 hy] at h
    have hbits := ofNatLE_injective x.bits.toNat_lt y.bits.toNat_lt h
    rw [GroupKey.ofValue?_float8 hx, GroupKey.ofValue?_float8 hy, Binary64.eq_of_toNat hbits]
  | timestamp | timestamptz => cases hinstant
  | date => exact hsuitsv.elim
  | bpchar | varchar | text => cases ht

/-- Values with the same slot have the same key, but for those that a slot does
not tell apart. -/
theorem key_or_lostApart (hv : v.Storable c) (hw : w.Storable c)
    (h : (v.octets c.type).fit c.width = (w.octets c.type).fit c.width) :
    GroupKey.ofValue? c.type v = GroupKey.ofValue? c.type w ∨ LostApart c.width v w := by
  have hsuitsv := hv.suits
  have hsuitsw := hw.suits
  by_cases hinstant : c.type.isTimestamp = true
  · have hinstants : ∃ a b, v = .timestamp a ∧ w = .timestamp b ∧ c.type.fixedWidth? = some 8 := by
      cases ht : c.type <;> rw [ht] at hinstant hsuitsv hsuitsw
      case timestamp | timestamptz =>
        obtain ⟨a, rfl⟩ := hsuitsv
        obtain ⟨b, rfl⟩ := hsuitsw
        exact ⟨a, b, rfl, rfl, rfl⟩
      all_goals cases hinstant
    obtain ⟨a, b, rfl, rfl, ht⟩ := hinstants
    -- The key counts microseconds, the slot milliseconds.
    have hmillis := eq_of_octets_timestamp (octets_eq_of_fit hv hw ht h)
    by_cases hsame : a = b
    · exact .inl (by rw [hsame])
    · exact .inr ⟨hsame, hmillis⟩
  cases ht : c.type.fixedWidth? with
  | some natural =>
    exact .inl (key_of_octets_number hv hw ht (Bool.eq_false_iff.2 hinstant)
      (octets_eq_of_fit hv hw ht h))
  | none =>
    have htexts : ∃ a b, v = .bytes a ∧ w = .bytes b := by
      cases ht' : c.type <;> rw [ht'] at ht hsuitsv hsuitsw
      case bpchar | varchar | text =>
        obtain ⟨a, rfl⟩ := hsuitsv
        obtain ⟨b, rfl⟩ := hsuitsw
        exact ⟨a, b, rfl, rfl⟩
      all_goals cases ht
    obtain ⟨a, b, rfl, rfl⟩ := htexts
    -- The key has the whole text, the slot a part of it and NULs.
    by_cases hsame : a = b
    · exact .inl (by rw [hsame])
    · exact .inr ⟨hsame, fit_eq_fit_iff.1 h⟩

/-! ### Storing the same value again -/

/-- `v` is of a kind that columns of type `t` store, and not a finite number too
large for single precision. -/
def Regular (v : CellValue) (t : ColumnType) : Prop :=
  v.Suits t ∧
    (t = .float4 → ∀ x, v.asFloat? = some x → x.isFinite = true → x.narrow.isFinite = true)

theorem store_float4 {x : Binary64} (h : v.asFloat? = some x) (width offset : Nat)
    (primary : Bool) : v.store .float4 width offset primary = storeFloat .float4 x := by
  cases v <;> first | cases h; rfl | cases h

theorem store_float8 {x : Binary64} (h : v.asFloat? = some x) (width offset : Nat)
    (primary : Bool) : v.store .float8 width offset primary = storeFloat .float8 x := by
  cases v <;> first | cases h; rfl | cases h

/-- A value of the right kind can be stored where the same value could. -/
theorem storable_of_agrees (hw : w.Storable c) (hv : v.Regular c.type)
    (h : v.Agrees w c.type) : v.Storable c := by
  obtain ⟨hsuits, hfinite⟩ := hv
  have hnull := isNull_of_suits hsuits
  cases ht : c.type with
  | float4 =>
    rw [ht] at h hfinite
    obtain ⟨x, y, hx, hy, -⟩ := h
    have hwidth := (hw.length_octets (show c.type.fixedWidth? = some 4 by rw [ht]; rfl)).2
    have hsingle : ¬(x.isFinite && !x.narrow.isFinite) = true := by
      rw [Bool.and_eq_true, Bool.not_eq_true']
      rintro ⟨hlarge, hsmall⟩
      rw [hfinite rfl x hx hlarge] at hsmall
      cases hsmall
    refine ⟨hnull, { width := 4, content := ofNatLE 4 x.narrow.bits.toNat }, ?_, hwidth⟩
    rw [ht, store_float4 hx, storeFloat, if_neg (by decide), if_neg hsingle]
  | float8 =>
    obtain ⟨-, stored, hstore, hwidth⟩ := hw
    rw [ht] at h hstore
    obtain ⟨x, hx, hy⟩ := h
    refine ⟨hnull, stored, ?_, hwidth⟩
    rw [ht, store_float8 hx, ← store_float8 hy, hstore]
  | _ =>
    have hsame : v = w := by
      rw [ht] at h
      exact h
    rw [hsame]
    exact hw

end CellValue

/-! ## Bytes in headers -/

/-- The primary tag bytes of a payload. -/
def Payload.primaryTag (s : Shape) (payload : Bytes) : Bytes :=
  payload.slice (headLen + primaryLenWidth) s.primaryLen

theorem PayloadCursor.take_ok {c c' : PayloadCursor} {what : String} {len : Nat} {taken : Bytes}
    (h : c.take what len = .ok (taken, c')) :
    taken = c.rest.take len ∧ c'.rest = c.rest.drop len := by
  simp only [PayloadCursor.take] at h
  split at h
  · cases h
  · cases h
    exact ⟨rfl, rfl⟩

/-- A reader shows the primary tag bytes as they stand. -/
theorem PayloadView.primaryTag_of_parse {l : Layout} {payload : Bytes} {v : PayloadView}
    (h : PayloadView.parse l payload = .ok v) :
    v.primaryTag = Payload.primaryTag l.toShape payload := by
  rw [PayloadView.parse] at h
  obtain ⟨header, -, h⟩ := Outcome.bind_eq_ok.1 h
  obtain ⟨rowType, -, h⟩ := Outcome.bind_eq_ok.1 h
  obtain ⟨⟨length, c⟩, hlength, h⟩ := Outcome.bind_eq_ok.1 h
  obtain ⟨-, hrest⟩ := PayloadCursor.take_ok hlength
  obtain ⟨hlen, h⟩ := Outcome.check_eq_ok.1 h
  obtain ⟨⟨primaryTag, c⟩, hprimary, h⟩ := Outcome.bind_eq_ok.1 h
  obtain ⟨htaken, -⟩ := PayloadCursor.take_ok hprimary
  obtain ⟨_, -, h⟩ := Outcome.bind_eq_ok.1 h
  obtain ⟨-, h⟩ := Outcome.check_eq_ok.1 h
  obtain ⟨_, -, h⟩ := Outcome.bind_eq_ok.1 h
  obtain ⟨_, -, h⟩ := Outcome.bind_eq_ok.1 h
  obtain ⟨_, -, h⟩ := Outcome.bind_eq_ok.1 h
  obtain ⟨_, -, h⟩ := Outcome.bind_eq_ok.1 h
  obtain ⟨_, -, h⟩ := Outcome.bind_eq_ok.1 h
  obtain ⟨-, h⟩ := Outcome.check_eq_ok.1 h
  obtain ⟨_, -, h⟩ := Outcome.bind_eq_ok.1 h
  obtain ⟨-, h⟩ := Outcome.check_eq_ok.1 h
  have hshown : v.primaryTag = primaryTag := congrArg (·.primaryTag) (Except.ok.inj h).symm
  rw [hshown, htaken, hrest, Classical.not_not.1 hlen, Payload.primaryTag, slice, List.drop_drop]

namespace Packer

variable {p : Packer} {row row' first : List CellValue}

theorem primaryTag_laidOut {count : Bytes} (hcount : count.length = 4) (p : Packer)
    (first : List CellValue) (dataLen : Bytes) (rows : List (List CellValue)) :
    Payload.primaryTag p.layout.toShape (p.laidOut count first dataLen rows) =
      p.primaryTag first := by
  have hstart : Payload.headLen + Payload.primaryLenWidth =
      (p.header.bytes ++ (count ++ ([(rowType (p.tagPlacements first)).byte] ++
        ofNatLE Payload.primaryLenWidth p.layout.primaryLen))).length := by
    simp only [List.length_append, List.length_singleton, PayloadHeader.length_bytes,
      length_ofNatLE, hcount]
    rfl
  have hsplit : p.laidOut count first dataLen rows =
      (p.header.bytes ++ (count ++ ([(rowType (p.tagPlacements first)).byte] ++
        ofNatLE Payload.primaryLenWidth p.layout.primaryLen))) ++ (p.primaryTag first ++
          (ofNatLE Payload.tagLenWidth p.layout.tagSectionLen ++ ((p.tagView first).bytes ++
            (dataLen ++ p.blocks rows)))) := by
    simp only [laidOut, headRest, List.append_assoc]
  rw [Payload.primaryTag, hstart, hsplit, ← p.length_primaryTag first, slice_append]

theorem primaryTag_eq_iff (p : Packer) (row row' : List CellValue) :
    p.primaryTag row = p.primaryTag row' ↔ ∀ i ∈ p.layout.primaryTags,
      ((row.getD i .null).octets (p.layout.column i).type).fit (p.layout.column i).width =
        ((row'.getD i .null).octets (p.layout.column i).type).fit (p.layout.column i).width := by
  rw [primaryTag, primaryTag]
  induction p.layout.primaryTags with
  | nil => exact ⟨fun _ i hi => absurd hi List.not_mem_nil, fun _ => rfl⟩
  | cons number rest ih =>
    rw [List.flatMap_cons, List.flatMap_cons, List.forall_mem_cons, ← ih]
    constructor
    · intro h
      exact List.append_inj h (by rw [length_fit, length_fit])
    · rintro ⟨hfirst, hrest⟩
      rw [hfirst, hrest]

/-! ### Opening a payload -/

/-- Every primary tag value of `row` can be stored. -/
def Admits (p : Packer) (row : List CellValue) : Prop :=
  ∀ i ∈ p.layout.primaryTags, (row.getD i .null).Storable (p.layout.column i)

/-- The primary tag bytes of a row are its values encoded one by one. -/
theorem primaryTag_eq_tagCells (h : p.Admits row) :
    p.primaryTag row = p.layout.primaryTags.flatMap fun i =>
      ((row.getD i .null).tagCell (p.layout.column i)).dest := by
  rw [primaryTag, List.flatMap_def, List.flatMap_def]
  congr 1
  exact List.map_congr_left fun i hi => (CellValue.tagCell_of_storable (h i hi)).2.symm

/-- The primary tag bytes are written to the end or stop at a value that cannot be
stored. -/
theorem primaryBytes_outcome (p : Packer) (row : List CellValue) (index : Nat) (done : Bytes)
    (numbers : List Nat) :
    (p.primaryBytes row index done numbers).2 = .ok () ∧
        (∀ i ∈ numbers, (row.getD i .null).Storable (p.layout.column i)) ∨
      ∃ i ∈ numbers, ¬(row.getD i .null).Storable (p.layout.column i) ∧
        ∃ e, (p.primaryBytes row index done numbers).2 = .error (.cell index i e) := by
  induction numbers generalizing done with
  | nil => exact .inl ⟨rfl, fun i hi => absurd hi List.not_mem_nil⟩
  | cons i rest ih =>
    rw [primaryBytes]
    by_cases hv : (row.getD i .null).isNull = true
    · simp only [hv, if_true]
      refine .inr ⟨i, List.mem_cons_self, fun h => ?_, _, rfl⟩
      rw [h.1] at hv
      cases hv
    · simp only [hv, if_false, Bool.false_eq_true]
      split
      next e hslot =>
        refine .inr ⟨i, List.mem_cons_self, ?_, e, rfl⟩
        rintro ⟨-, stored, hstore, hwidth⟩
        rw [hstore, Outcome.ok_bind, Stored.checkSlot, if_neg (Nat.not_lt_of_le hwidth)] at hslot
        cases hslot
      next slot hslot =>
        obtain ⟨stored, hstore, hslot⟩ := Outcome.bind_eq_ok.1 hslot
        obtain ⟨⟨⟩, hcheck, -⟩ := Outcome.bind_eq_ok.1 hslot
        have hstorable : (row.getD i .null).Storable (p.layout.column i) := by
          refine ⟨Bool.eq_false_iff.2 hv, stored, hstore, ?_⟩
          rw [Stored.checkSlot] at hcheck
          split at hcheck
          · cases hcheck
          next hwidth => exact Nat.le_of_not_lt hwidth
        rcases ih (done ++ slot) with ⟨hok, hall⟩ | ⟨j, hj, hnot, e, he⟩
        · exact .inl ⟨hok, List.forall_mem_cons.2 ⟨hstorable, hall⟩⟩
        · exact .inr ⟨j, List.mem_cons_of_mem _ hj, hnot, e, he⟩

theorem not_admits_iff
    (h : ∀ i ∈ p.layout.primaryTags, (row.getD i .null).Suits (p.layout.column i).type) :
    ¬p.Admits row ↔ ∃ i ∈ p.layout.primaryTags,
      ((row.getD i .null).tagCell (p.layout.column i)).outcome.isOk = false := by
  constructor
  · intro hnot
    apply Classical.byContradiction
    intro hnone
    refine hnot fun i hi => CellValue.storable_of_tagCell (CellValue.isNull_of_suits (h i hi)) ?_
    apply Classical.byContradiction
    intro herror
    exact hnone ⟨i, hi, Bool.eq_false_iff.2 herror⟩
  · rintro ⟨i, hi, herror⟩ hadmits
    rw [(CellValue.tagCell_of_storable (hadmits i hi)).1] at herror
    cases herror

theorem admits_of_headerBlock {index capacity : Nat} {laid : Bytes}
    (h : p.headerBlock row index capacity = (laid, .ok ())) : p.Admits row := by
  rcases p.primaryBytes_outcome row index [] p.layout.primaryTags with ⟨-, hall⟩ | ⟨i, -, -, e, he⟩
  · exact hall
  · cases hprimary : p.primaryBytes row index [] p.layout.primaryTags with
    | mk primary outcome =>
      rw [hprimary] at he
      simp only [headerBlock, hprimary] at h
      cases he
      cases h

theorem admits_of_fillRow {b b' : PayloadBuffer} (hb : b.hasHeader = false)
    (h : p.fillRow b row = (b', .ok ())) : p.Admits row := by
  rw [fillRow] at h
  split at h
  · cases h
  · rw [hb] at h
    cases hheader : p.writeHeader b row with
    | mk headed outcome =>
      simp only [Bool.false_eq_true, if_false, hheader] at h
      cases outcome with
      | error e => cases h
      | ok done =>
        rw [writeHeader] at hheader
        split at hheader
        next block outcome hblock =>
          cases outcome with
          | error e => cases hheader
          | ok done => exact admits_of_headerBlock hblock

end Packer

namespace PayloadBuffer

variable {b : PayloadBuffer} {p : Packer} {first : List CellValue}
  {rows : List (List CellValue)}

theorem Headed.primaryTag (h : b.Headed p first rows) :
    Payload.primaryTag p.layout.toShape b.bytes = p.primaryTag first := by
  obtain ⟨count, dataLen, hcount, -, hbytes⟩ := h.bytes
  rw [hbytes, Packer.primaryTag_laidOut hcount]

/-- Rows that open payloads under one key agree in every primary tag, and so do
the headers. -/
theorem tags_of_same_key (layout : Layout) {header header' : PayloadHeader} {step step' : Nat}
    {a a' b b' : PayloadBuffer} {row row' : List CellValue} {key : String}
    (ha : (Packer.mk layout header step).fillRow a.reset row = (a', .ok ()))
    (hb : (Packer.mk layout header' step').fillRow b.reset row' = (b', .ok ()))
    (hkey : GroupKey.ofRow layout.toShape row = .ok key)
    (hkey' : GroupKey.ofRow layout.toShape row' = .ok key) :
    (∀ i ∈ layout.primaryTags,
        (row.getD i .null).Agrees (row'.getD i .null) (layout.column i).type) ∧
      Payload.primaryTag layout.toShape a'.bytes = Payload.primaryTag layout.toShape b'.bytes := by
  have hadmits := Packer.admits_of_fillRow rfl ha
  have hadmits' := Packer.admits_of_fillRow rfl hb
  have hagrees : ∀ i ∈ layout.primaryTags,
      (row.getD i .null).Agrees (row'.getD i .null) (layout.column i).type := by
    intro i hi
    exact GroupKey.agrees_of_key (hadmits i hi).suits (hadmits' i hi).suits
      ((GroupKey.ofRow_eq_iff hkey hkey').1 rfl i hi)
  have hheaded := holds_fillRow_ok (holds_reset a _) ha
  have hheaded' := holds_fillRow_ok (holds_reset b _) hb
  refine ⟨hagrees, ?_⟩
  rw [Headed.primaryTag hheaded, Headed.primaryTag hheaded']
  apply (Packer.primaryTag_eq_iff _ row row').2
  intro i hi
  rw [CellValue.octets_of_agrees (hagrees i hi)]

def gaugeShape : Shape :=
  { fields := [⟨.int4, 4⟩]
    tags := [⟨.float4, 4⟩, ⟨.text, 4⟩]
    primaryTags := [2, 1] }

def gaugePacker : Packer := Packer.make ⟨gaugeShape, by decide⟩ {} 16

/-- A scale of one, as an integer and as a float. -/
theorem tags_of_gaugeRows :
    ∃ a' b',
      gaugePacker.fillRow (withCapacity 0).reset [.int 7, .int 1, .bytes [97, 44]] =
          (a', .ok ()) ∧
        gaugePacker.fillRow (withCapacity 0).reset
            [.null, .float ⟨4607182418800017408⟩, .bytes [97, 44]] = (b', .ok ()) ∧
        (CellValue.int 1).Agrees (.float ⟨4607182418800017408⟩) .float4 ∧
        Payload.primaryTag gaugeShape a'.bytes = Payload.primaryTag gaugeShape b'.bytes := by
  have hfill : ∀ row : List CellValue,
      (gaugePacker.fillRow (withCapacity 0).reset row).2 = .ok () →
      gaugePacker.fillRow (withCapacity 0).reset row =
        ((gaugePacker.fillRow (withCapacity 0).reset row).1, .ok ()) :=
    fun row hok => Prod.ext rfl hok
  have hone := hfill [.int 7, .int 1, .bytes [97, 44]] rfl
  have hfloat := hfill [.null, .float ⟨4607182418800017408⟩, .bytes [97, 44]] rfl
  have hkey : GroupKey.ofRow gaugeShape [.int 7, .int 1, .bytes [97, 44]] =
      .ok (String.ofList ("a\\,,".toList ++ GroupKey.ofSingle ⟨1065353216⟩)) := rfl
  have hkey' : GroupKey.ofRow gaugeShape [.null, .float ⟨4607182418800017408⟩, .bytes [97, 44]] =
      .ok (String.ofList ("a\\,,".toList ++ GroupKey.ofSingle ⟨1065353216⟩)) := rfl
  obtain ⟨hagrees, htags⟩ := tags_of_same_key gaugePacker.layout hone hfloat hkey hkey'
  exact ⟨_, _, hone, hfloat, hagrees 1 (by decide), htags⟩

end PayloadBuffer
end SeriesWire
