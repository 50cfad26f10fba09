/-
What can be stored.  `FitsColumn` says of each type of column which values it keeps, and
`isOk_store` that exactly these can be stored.  The room that a writer takes for a value
never falls short: the widths of a layout cover what stands in the slots
(`width_le_of_store`), and entries are counted one by one.  So laying out values, with
all its checks of slots and regions, comes to the same as storing them
(`Section.lay_check`).
-/
import SeriesWire.Proofs.Payload.Bounds
import SeriesWire.Proofs.Payload.Verdict

namespace SeriesWire

open Bytes

/-! ## Values -/

namespace CellValue

variable {v : CellValue} {t : ColumnType} {width offset : Nat} {primary : Bool}

/-- Columns of type `t`, declared `width` bytes wide, keep `v`. -/
def FitsColumn (v : CellValue) (t : ColumnType) (width : Nat) (primary : Bool) : Prop :=
  match t with
  | .int2 => ∃ n, v = .int n ∧ -32768 ≤ n.toInt ∧ n.toInt ≤ 32767
  | .int4 => ∃ n, v = .int n ∧ -2147483648 ≤ n.toInt ∧ n.toInt ≤ 2147483647
  | .int8 => ∃ n, v = .int n
  | .float4 => ∃ x, v.asFloat? = some x ∧ (x.isFinite = true → x.narrow.isFinite = true)
  | .float8 => ∃ x, v.asFloat? = some x
  | .timestamp | .timestamptz => ∃ micros, v = .timestamp micros
  | .date => False
  | .bpchar => ∃ text, v = .bytes text
  | .varchar | .text =>
    ∃ text, v = .bytes text ∧ text.length ≤ if primary then width - 1 else 65534

/-- A value that is too large, or of another kind. -/
def IsUnfit (e : WireError) : Prop :=
  (∃ target cause, e = .range target cause) ∨ ∃ oid kind, e = .typeMismatch oid kind

theorem isOk_storeInt {n : Int64} :
    (storeInt t width n).isOk = true ↔ FitsInt width n.toInt := by
  rw [storeInt]
  split
  next h => exact ⟨fun _ => h, fun _ => rfl⟩
  next h => exact ⟨fun hok => absurd hok Bool.false_ne_true, fun hfits => absurd hfits h⟩

theorem isOk_storeFloat {x : Binary64} :
    (storeFloat .float4 x).isOk = true ↔ (x.isFinite = true → x.narrow.isFinite = true) := by
  rw [storeFloat, if_neg (by decide)]
  split
  next h =>
    rw [Bool.and_eq_true, Bool.not_eq_true'] at h
    refine ⟨fun hok => absurd hok Bool.false_ne_true, fun hfinite => ?_⟩
    rw [hfinite h.1] at h
    cases h.2
  next h =>
    refine ⟨fun _ hx => ?_, fun _ => rfl⟩
    rw [hx, Bool.true_and, Bool.not_eq_true', Bool.not_eq_false] at h
    exact h

theorem isOk_storePrimary {text : Bytes} :
    (storePrimary t text width).isOk = true ↔ text.length ≤ width - 1 := by
  rw [storePrimary]
  split
  next h => exact ⟨nofun, fun hle => absurd h (Nat.not_lt_of_le hle)⟩
  next h => exact ⟨fun _ => Nat.le_of_not_lt h, fun _ => rfl⟩

theorem isOk_storeVariable {text : Bytes} :
    (storeVariable t text offset).isOk = true ↔ text.length ≤ 65534 := by
  have hfits : fitsTextHeader text = true ↔ text.length ≤ 65534 := by
    rw [fitsTextHeader_iff, show textHeaderLen = 2 from rfl, space_two]
    omega
  rw [storeVariable, ← hfits]
  split
  next h => exact ⟨fun _ => h, fun _ => rfl⟩
  next h => exact ⟨fun hok => absurd hok Bool.false_ne_true, fun hfits => absurd hfits h⟩

theorem isOk_store_text {text : Bytes} (ht : t.isVariable = true) :
    ((bytes text).store t width offset primary).isOk = true ↔
      text.length ≤ if primary then width - 1 else 65534 := by
  rw [store_variable ht]
  cases primary with
  | true => exact isOk_storePrimary
  | false => exact isOk_storeVariable

theorem FitsColumn.suits (h : v.FitsColumn t width primary) : v.Suits t := by
  cases t with
  | int2 | int4 | float4 | varchar | text =>
    obtain ⟨x, hx, -⟩ := h
    exact ⟨x, hx⟩
  | _ => exact h

theorem isOk_store (hv : v.isNull = false) :
    (v.store t width offset primary).isOk = true ↔ v.FitsColumn t width primary := by
  -- A value of another kind is a mismatch, and no column takes it.
  suffices hsuits : v.Suits t →
      ((v.store t width offset primary).isOk = true ↔ v.FitsColumn t width primary) by
    constructor
    · intro hok
      obtain ⟨stored, hstore⟩ := Outcome.exists_of_isOk hok
      exact (hsuits (suits_of_store hv hstore)).1 hok
    · exact fun hfits => (hsuits hfits.suits).2 hfits
  intro hsuits
  cases t with
  | int2 =>
    obtain ⟨n, rfl⟩ := hsuits
    have hbounds : FitsInt 2 n.toInt ↔ -32768 ≤ n.toInt ∧ n.toInt ≤ 32767 := by
      rw [FitsInt, space_two]
      omega
    refine isOk_storeInt.trans (hbounds.trans ⟨fun h => ⟨n, rfl, h⟩, ?_⟩)
    rintro ⟨_, ⟨⟩, h⟩
    exact h
  | int4 =>
    obtain ⟨n, rfl⟩ := hsuits
    have hbounds : FitsInt 4 n.toInt ↔ -2147483648 ≤ n.toInt ∧ n.toInt ≤ 2147483647 := by
      rw [FitsInt, space_four]
      omega
    refine isOk_storeInt.trans (hbounds.trans ⟨fun h => ⟨n, rfl, h⟩, ?_⟩)
    rintro ⟨_, ⟨⟩, h⟩
    exact h
  | int8 =>
    obtain ⟨n, rfl⟩ := hsuits
    exact isOk_storeInt.trans ⟨fun _ => ⟨n, rfl⟩, fun _ => fitsInt_toInt n⟩
  | float4 =>
    obtain ⟨x, hx⟩ := hsuits
    rw [store_float4 hx]
    refine isOk_storeFloat.trans ⟨fun h => ⟨x, hx, h⟩, ?_⟩
    rintro ⟨y, hy, h⟩
    rw [hx] at hy
    cases hy
    exact h
  | float8 =>
    obtain ⟨x, hx⟩ := hsuits
    rw [store_float8 hx]
    exact ⟨fun _ => ⟨x, hx⟩, fun _ => rfl⟩
  | timestamp | timestamptz =>
    obtain ⟨micros, rfl⟩ := hsuits
    exact ⟨fun _ => ⟨micros, rfl⟩, fun _ => rfl⟩
  | date => exact hsuits.elim
  | bpchar =>
    obtain ⟨text, rfl⟩ := hsuits
    exact ⟨fun _ => ⟨text, rfl⟩, fun _ => rfl⟩
  | varchar | text =>
    obtain ⟨text, rfl⟩ := hsuits
    refine (isOk_store_text rfl).trans ⟨fun h => ⟨text, rfl, h⟩, ?_⟩
    rintro ⟨_, ⟨⟩, h⟩
    exact h

/-! ### What becomes of the others -/

theorem unfit_of_storeInt {n : Int64} {e : WireError} (h : storeInt t width n = .error e) :
    IsUnfit e := by
  rw [storeInt] at h
  split at h
  · cases h
  · cases h
    exact .inl ⟨_, _, rfl⟩

theorem unfit_of_storeFloat {x : Binary64} {e : WireError} (h : storeFloat t x = .error e) :
    IsUnfit e := by
  rw [storeFloat] at h
  split at h
  · cases h
  · split at h
    · cases h
      exact .inl ⟨_, _, rfl⟩
    · cases h

theorem unfit_of_storeText {text : Bytes} {e : WireError}
    (h : (if primary then storePrimary t text width else storeVariable t text offset) = .error e) :
    IsUnfit e := by
  rw [storePrimary, storeVariable] at h
  split at h
  · split at h
    · cases h
      exact .inl ⟨_, _, rfl⟩
    · cases h
  · split at h
    · cases h
    · cases h
      exact .inl ⟨_, _, rfl⟩

theorem unfit_of_store {e : WireError} (ht : t.isEncodable = true)
    (h : v.store t width offset primary = .error e) : IsUnfit e := by
  cases t with
  | date => cases ht
  | int2 | int4 | int8 =>
    cases v with
    | null => cases h
    | int n => exact unfit_of_storeInt h
    | _ => cases h; exact .inr ⟨_, _, rfl⟩
  | float4 | float8 =>
    cases v with
    | null => cases h
    | int n => exact unfit_of_storeFloat h
    | float x => exact unfit_of_storeFloat h
    | _ => cases h; exact .inr ⟨_, _, rfl⟩
  | timestamp | timestamptz =>
    cases v with
    | null | timestamp micros => cases h
    | _ => cases h; exact .inr ⟨_, _, rfl⟩
  | bpchar =>
    cases v with
    | null | bytes text => cases h
    | _ => cases h; exact .inr ⟨_, _, rfl⟩
  | varchar | text =>
    cases v with
    | null => cases h
    | bytes text => exact unfit_of_storeText h
    | _ => cases h; exact .inr ⟨_, _, rfl⟩

/-- Where entries stand shows in what is stored, not in whether it is. -/
theorem store_anywhere (v : CellValue) (t : ColumnType) (width offset : Nat) (primary : Bool) :
    (v.store t width offset primary).map (fun _ => ()) =
      (v.store t width 0 primary).map fun _ => () := by
  cases primary with
  | true => rw [store_offset]
  | false =>
    cases v with
    | bytes text =>
      cases t with
      | varchar | text =>
        show (storeVariable _ text offset).map _ = (storeVariable _ text 0).map _
        rw [storeVariable, storeVariable]
        split <;> rfl
      | _ => rfl
    | _ => cases t <;> rfl

/-- The width of a slot that keeps any value of a column. -/
def takenWidth (t : ColumnType) (width : Nat) (primary : Bool) : Nat :=
  if t.isVariable && primary then width else t.slotWidth width

theorem width_of_store {stored : Stored} (hv : v.isNull = false)
    (h : v.store t width offset primary = .ok stored) :
    stored.width = takenWidth t width primary := by
  rw [takenWidth]
  rcases store_ok hv h with ⟨natural, hw, -, rfl⟩ | ⟨hw, hi, _, -, rfl⟩ | ⟨hi, _, -, -, rfl⟩
  · rw [ColumnType.isVariable_of_fixedWidth? hw, ColumnType.slotWidth_of_fixedWidth? hw]
    rfl
  · cases primary with
    | true =>
      cases hvariable : t.isVariable with
      | true => rfl
      | false =>
        rw [ColumnType.slotWidth, hw, hvariable]
        rfl
    | false =>
      rw [Bool.not_false, Bool.and_true] at hi
      rw [ColumnType.slotWidth, hw, hi]
      rfl
  · rw [Bool.and_eq_true, Bool.not_eq_true'] at hi
    rw [ColumnType.slotWidth, ColumnType.fixedWidth?_of_isVariable hi.1, hi.1, hi.2]
    rfl

end CellValue

/-! ## Slots -/

/-- The slot of a tag is as wide as declared, which is wide enough. -/
theorem Layout.takenWidth_le (layout : Layout) {i : Nat} (htag : layout.tagIndex ≤ i)
    (hi : i < layout.columns.length) :
    CellValue.takenWidth (layout.column i).type (layout.column i).width (layout.isPrimary i) ≤
      (layout.column i).width := by
  have hleast := Guarded.leastWidth_le layout htag hi
  rw [CellValue.takenWidth]
  generalize layout.isPrimary i = primary at hleast
  rw [Shape.leastWidth] at hleast
  cases hw : (layout.column i).type.fixedWidth? with
  | some natural =>
    rw [hw] at hleast
    rw [ColumnType.isVariable_of_fixedWidth? hw, ColumnType.slotWidth_of_fixedWidth? hw]
    exact hleast
  | none =>
    rw [hw] at hleast
    rw [ColumnType.slotWidth, hw]
    cases hvariable : (layout.column i).type.isVariable with
    | false => exact Nat.le_refl _
    | true =>
      cases primary with
      | true => exact Nat.le_refl _
      | false =>
        rw [hvariable] at hleast
        exact hleast

theorem Layout.width_le_of_store (layout : Layout) {i offset : Nat} {v : CellValue}
    {stored : Stored} (htag : layout.tagIndex ≤ i) (hi : i < layout.columns.length)
    (hv : v.isNull = false)
    (h : v.store (layout.column i).type (layout.column i).width offset (layout.isPrimary i) =
      .ok stored) :
    stored.width ≤ (layout.column i).width := by
  rw [CellValue.width_of_store hv h]
  exact layout.takenWidth_le htag hi

namespace Placement

/-- The slot keeps whatever can be stored. -/
def HasSlot (q : Placement) : Prop :=
  ∀ offset stored, q.value.isNull = false →
    q.value.store q.column.type q.column.width offset q.primary = .ok stored →
    stored.width ≤ q.slotWidth

/-- What becomes of the value, given room. -/
def check (q : Placement) : Except WireError Unit :=
  if q.value.isNull then .ok ()
  else (q.value.store q.column.type q.column.width 0 q.primary).map fun _ => ()

/-- What becomes of the values in order. -/
def checkAll (row : Nat) (qs : List Placement) : Except WireError Unit :=
  qs.forM fun q => WireError.inCell row q.number q.check

/-- The value is missing, or its column keeps it. -/
def Fits (q : Placement) : Prop :=
  q.value ≠ .null → q.value.FitsColumn q.column.type q.column.width q.primary

variable {q : Placement} {qs : List Placement} {row : Nat} {e : WireError}

theorem check_eq_ok : q.check = .ok () ↔ q.Fits := by
  rw [check, Fits]
  cases hv : q.value.isNull with
  | true => exact ⟨fun _ hnot => absurd (CellValue.eq_null_of_isNull hv) hnot, fun _ => rfl⟩
  | false =>
    have hnot : q.value ≠ .null := by
      intro hnull
      rw [hnull] at hv
      cases hv
    rw [← CellValue.isOk_store hv, imp_iff_right hnot, if_neg Bool.false_ne_true]
    cases q.value.store q.column.type q.column.width 0 q.primary with
    | error e => exact ⟨nofun, nofun⟩
    | ok stored => exact ⟨fun _ => rfl, fun _ => rfl⟩

theorem unfit_of_check (ht : q.column.type.isEncodable = true) (h : q.check = .error e) :
    CellValue.IsUnfit e := by
  rw [check] at h
  split at h
  · cases h
  · cases hstore : q.value.store q.column.type q.column.width 0 q.primary with
    | error e' =>
      rw [hstore] at h
      cases h
      exact CellValue.unfit_of_store ht hstore
    | ok stored =>
      rw [hstore] at h
      cases h

theorem checkAll_eq_ok : checkAll row qs = .ok () ↔ ∀ q ∈ qs, q.Fits := by
  rw [checkAll, Outcome.forM_eq_ok]
  refine forall_congr' fun q => imp_congr_right fun _ => ?_
  rw [WireError.inCell, Outcome.mapError_eq_ok, check_eq_ok]

theorem checkAll_error (h : checkAll row qs = .error e) :
    ∃ q ∈ qs, ∃ e', ¬q.Fits ∧ q.check = .error e' ∧ e = .cell row q.number e' := by
  obtain ⟨q, hq, he⟩ := Outcome.forM_eq_error h
  cases hcheck : q.check with
  | error e' =>
    rw [hcheck] at he
    cases he
    refine ⟨q, hq, e', fun hfits => ?_, hcheck, rfl⟩
    rw [check_eq_ok.2 hfits] at hcheck
    cases hcheck
  | ok done =>
    rw [hcheck] at he
    cases he

end Placement

namespace Section

variable {s : Section} {q : Placement} {qs : List Placement}

/-- Laying out a value with room for it is storing it. -/
theorem put_eq (hslot : q.HasSlot) (hv : q.value.isNull = false)
    (hroom : s.entries.length + q.entryRoom ≤ s.room) :
    s.put q =
      (q.value.store q.column.type q.column.width s.entries.length q.primary).map fun stored =>
        { s with
          slots := s.slots ++ stored.slot.fit q.slotWidth
          entries := s.entries ++ stored.entry } := by
  rw [put, if_neg (Bool.eq_false_iff.1 hv)]
  cases hstore : q.value.store q.column.type q.column.width s.entries.length q.primary with
  | error e => rfl
  | ok stored =>
    have hlen := Placement.length_entry_le_entryRoom hv hstore
    have hentry : stored.checkEntry s.room s.entries.length = .ok () :=
      if_neg fun hlong => by omega
    have hwidth : stored.checkSlot q.column.type.oid q.slotWidth = .ok () :=
      if_neg (Nat.not_lt_of_le (hslot _ stored hv hstore))
    rw [Outcome.ok_bind, hentry, Outcome.ok_bind, hwidth, Outcome.ok_bind]
    rfl

theorem put_check (hslot : q.HasSlot) (hroom : s.entries.length + q.entryRoom ≤ s.room) :
    (s.put q).map (fun _ => ()) = q.check := by
  rw [Placement.check]
  cases hv : q.value.isNull with
  | true =>
    rw [put, if_pos hv]
    rfl
  | false =>
    rw [put_eq hslot hv hroom, if_neg Bool.false_ne_true,
      ← CellValue.store_anywhere _ _ _ s.entries.length]
    cases q.value.store q.column.type q.column.width s.entries.length q.primary <;> rfl

/-- Whether values can be laid out does not depend on the section. -/
theorem lay_check (row : Nat) (hslots : ∀ q ∈ qs, q.HasSlot)
    (hroom : s.entries.length + totalLen (qs.map (·.entryRoom)) ≤ s.room) :
    (s.lay row qs).2 = Placement.checkAll row qs := by
  induction qs generalizing s with
  | nil => rfl
  | cons q qs ih =>
    obtain ⟨hq, hqs⟩ := List.forall_mem_cons.1 hslots
    rw [List.map_cons, totalLen_cons] at hroom
    have hcheck := put_check (s := s) hq (by omega)
    show _ = (WireError.inCell row q.number q.check >>= fun _ => Placement.checkAll row qs)
    rw [lay, ← hcheck]
    cases hput : s.put q with
    | error e => rfl
    | ok s' =>
      obtain ⟨hsame, hgrown⟩ := put_grows hput
      exact ih hqs (by omega)

end Section

end SeriesWire
