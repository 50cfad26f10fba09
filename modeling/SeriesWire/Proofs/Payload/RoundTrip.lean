/-
From rows to a payload and back.  `PayloadView.Shows` says what a reader has to
find in the payload of some rows: every value of every row, and the tags of the
first one.  `parse_stamp_fillAll` is the round trip: rows are offered one by one
to an empty buffer, some of them may be rejected, and the stamped buffer shows
the others.
-/
import SeriesWire.Proofs.Payload.Filling
import SeriesWire.Proofs.Payload.Parse

namespace SeriesWire

open Bytes

/-! ## What is shown -/

namespace Shape

/-- What a reader is shown of tag column `i`.  A text inside a slot was cut to
the slot, and it ends at its first NUL. -/
def shownTag (s : Shape) (row : List CellValue) (i : Nat) : Option Bytes :=
  let octets := (row.getD i .null).octets (s.column i).type
  if (row.getD i .null).isNull then none
  else if (s.column i).type.isVariable && !s.isPrimary i then some octets
  else if (s.column i).type.isCharacter then
    some (beforeNul (octets.take (s.column i).width))
  else some octets

/-- What a reader is shown of field column `c`.  A `bpchar` comes with its
padding. -/
def shownField (s : Shape) (row : List CellValue) (c : Nat) : Option Bytes :=
  let octets := (row.getD c .null).octets (s.column c).type
  if (row.getD c .null).isNull then none
  else if (s.column c).type = .bpchar then some (octets.fit (s.column c).width)
  else some octets

def hasTag (s : Shape) (row : List CellValue) : Prop :=
  ∃ i, s.tagIndex ≤ i ∧ i < s.columns.length ∧ (row.getD i .null).isNull = false

end Shape

/-- `v` shows `rows`, the first of which is `first`. -/
structure PayloadView.Shows (v : PayloadView) (p : Packer) (first : List CellValue)
    (rows : List (List CellValue)) : Prop where
  header : v.header = p.header
  rowNum : v.rowNum = rows.length
  rows_length : v.rows.length = rows.length
  tagsAndData : v.rowType = .tagsAndData ↔ p.layout.hasTag first
  dataOnly : v.rowType = .dataOnly ↔ ¬p.layout.hasTag first
  primaryTag : v.primaryTag = p.primaryTag first
  tag : ∀ i, p.layout.tagIndex ≤ i → i < p.layout.columns.length →
    v.tag i = .ok (p.layout.shownTag first i)
  field : ∀ r c, (hr : r < rows.length) → c < p.layout.tagIndex →
    v.field r c = .ok (p.layout.shownField rows[r] c)

namespace Packer

variable {p : Packer} {row first : List CellValue} {rows : List (List CellValue)}

/-- The row type says whether the first row has a tag. -/
theorem all_isNull_tagPlacements (ha : p.Arity first) :
    (p.tagPlacements first).all (·.value.isNull) = false ↔ p.layout.hasTag first := by
  have hlen := length_tagPlacements ha
  have hcolumns : p.layout.columns.length = p.layout.tagIndex + (p.tagPlacements first).length := by
    rw [Shape.columns, List.length_append, Shape.tagIndex, hlen]
  rw [List.all_eq_false]
  constructor
  · rintro ⟨q, hq, hv⟩
    obtain ⟨k, hk, rfl⟩ := List.getElem_of_mem hq
    rw [getElem_tagPlacements ha hk] at hv
    exact ⟨p.layout.tagIndex + k, Nat.le_add_right _ _, by omega, Bool.eq_false_iff.2 hv⟩
  · rintro ⟨i, hlow, hhigh, hv⟩
    obtain ⟨k, rfl⟩ := Nat.exists_eq_add_of_le hlow
    have hk : k < (p.tagPlacements first).length := by omega
    refine ⟨_, List.getElem_mem hk, ?_⟩
    rw [getElem_tagPlacements ha hk, Bool.not_eq_true]
    exact hv

theorem rowType_eq (ha : p.Arity first) :
    (rowType (p.tagPlacements first) = .tagsAndData ↔ p.layout.hasTag first) ∧
      (rowType (p.tagPlacements first) = .dataOnly ↔ ¬p.layout.hasTag first) := by
  rw [← all_isNull_tagPlacements ha, rowType]
  cases (p.tagPlacements first).all (·.value.isNull) with
  | true => exact ⟨⟨nofun, nofun⟩, ⟨fun _ => nofun, fun _ => rfl⟩⟩
  | false => exact ⟨⟨fun _ => rfl, fun _ => rfl⟩, ⟨nofun, fun h => absurd rfl h⟩⟩

theorem tag_viewOf (hopens : p.Opens first)
    (htags : p.layout.tagSectionLen < space Payload.tagLenWidth) {i : Nat}
    (hlow : p.layout.tagIndex ≤ i) (hhigh : i < p.layout.columns.length) :
    (p.viewOf first rows).tag i = .ok (p.layout.shownTag first i) := by
  have ha := hopens.arity
  obtain ⟨k, rfl⟩ := Nat.exists_eq_add_of_le hlow
  have hk : k < (p.tagPlacements first).length := by
    rw [Shape.columns, List.length_append, Shape.tagIndex] at hhigh
    rw [length_tagPlacements ha]
    omega
  have hkept := hopens.tags _ (List.getElem_mem hk)
  have hread := Placement.readEntry_entriesOf hk
  have hlt := lt_space_of_tags hopens htags k
  have hslot := tagSlot_tagView ha hk
  have hmarked := marked_tagView ha hk
  have hq := getElem_tagPlacements ha hk
  generalize (p.tagPlacements first)[k] = q at hkept hread hslot hmarked hq
  have hvalue : first.getD (p.layout.tagIndex + k) .null = q.value := by rw [hq]
  have hcolumn : p.layout.column (p.layout.tagIndex + k) = q.column := by rw [hq]
  have hwidth : q.slotWidth = q.column.width := by rw [hq]
  have hisEntry : (q.column.type.isVariable && !p.layout.isPrimary (p.layout.tagIndex + k)) =
      q.isEntry := by rw [Placement.isEntry, hq]
  have hhasEntry : PayloadView.hasEntry p.layout.toShape (p.layout.tagIndex + k) = q.isEntry := by
    rw [PayloadView.hasEntry, hcolumn, hisEntry]
  have hnumber : ¬(!p.layout.isTag (p.layout.tagIndex + k) ||
      decide (p.layout.columns.length ≤ p.layout.tagIndex + k)) = true := by
    rw [Shape.isTag, decide_eq_true hlow, decide_eq_false (Nat.not_le_of_lt hhigh)]
    exact Bool.false_ne_true
  have hlayout : (p.viewOf first rows).layout = p.layout := rfl
  have htagView : (p.viewOf first rows).tags = p.tagView first := rfl
  simp only [PayloadView.tag, Shape.shownTag]
  rw [hlayout, htagView, if_neg hnumber, Nat.add_sub_cancel_left, hmarked, hslot, hhasEntry, hvalue,
    hcolumn, hisEntry]
  by_cases hv : q.value.isNull = true
  · rw [if_pos hv, if_pos hv]
  have hv' : q.value.isNull = false := Bool.eq_false_iff.2 hv
  rw [if_neg hv, if_neg hv]
  by_cases hi : q.isEntry = true
  · have hentry := hkept.hasEntry hi hv'
    have hfound := hread hentry hkept []
    rw [List.append_nil] at hfound
    rw [if_pos hi, if_pos hi, Placement.offset_slot hentry hkept hlt]
    show Except.map _ (readEntry (Placement.entriesOf (p.tagPlacements first)) _) = _
    rw [hfound]
    rfl
  rw [if_neg hi, if_neg hi]
  cases hw : q.column.type.fixedWidth? with
  | some width =>
    rw [ColumnType.isCharacter_eq, hw]
    exact congrArg (fun shown => Except.ok (some shown))
      (Placement.take_slot_of_number hkept hw hv' _)
  | none =>
    have hc : q.column.type.isCharacter = true := by rw [ColumnType.isCharacter_eq, hw]; rfl
    have hentry := Placement.hasEntry_of_not_isEntry (Bool.eq_false_iff.2 hi)
    rw [if_pos hc, Placement.slot_of_text hc hentry, hwidth, fit_take]
    exact congrArg (fun shown => Except.ok (some shown)) (beforeNul_fit _ _)

theorem slotAfter_fieldView (ha : p.Arity row) {k : Nat} (hk : k < (p.fieldPlacements row).length) :
    PayloadView.slotAfter ((p.layout.fields.take k).map (·.slotWidth)) (p.fieldView row).slots
        (p.layout.column k).slotWidth =
      (p.fieldPlacements row)[k].slot
        (Placement.entriesOf ((p.fieldPlacements row).take k)).length := by
  have hslot := Placement.slice_slotsFrom 0 hk
  rw [Nat.zero_add, List.map_take, map_slotWidth_fieldPlacements ha] at hslot
  rw [← hslot, PayloadView.slotAfter, getElem_fieldPlacements ha hk, List.map_take]
  rfl

theorem marked_fieldView (ha : p.Arity row) {k : Nat} (hk : k < (p.fieldPlacements row).length) :
    Bitmap.marked (p.fieldView row).bitmap k = (p.fieldPlacements row)[k].value.isNull := by
  refine Placement.marked_bitmapOf (fun i hi => ?_) (Nat.le_of_eq (length_fieldPlacements ha)) hk
  rw [getElem_fieldPlacements ha hi]

theorem lt_space_of_fields (htakes : p.Takes row) (k : Nat) :
    (Placement.entriesOf ((p.fieldPlacements row).take k)).length < space 8 := by
  have hprefix := Placement.length_entriesOf_take_le (p.fieldPlacements row) k
  have hlt : (p.fieldView row).bytes.length < space 4 := htakes.length_lt
  rw [length_fieldView htakes.arity, space_four] at hlt
  rw [space_eight]
  omega

theorem field_viewOf (htakes : ∀ row ∈ rows, p.Takes row) {r c : Nat} (hr : r < rows.length)
    (hc : c < p.layout.tagIndex) :
    (p.viewOf first rows).field r c = .ok (p.layout.shownField rows[r] c) := by
  have hrow := htakes _ (List.getElem_mem hr)
  have hfound : (p.viewOf first rows).rows[r]? = some (p.fieldView rows[r]) := by
    show (rows.map p.fieldView)[r]? = _
    rw [List.getElem?_map, List.getElem?_eq_getElem hr]
    rfl
  generalize rows[r] = row at hrow hfound
  have ha := hrow.arity
  have hk : c < (p.fieldPlacements row).length := by rwa [length_fieldPlacements ha]
  have hkept := hrow.fields _ (List.getElem_mem hk)
  have hread := Placement.readEntry_entriesOf hk
  have hlt := lt_space_of_fields hrow c
  have hslot := slotAfter_fieldView ha hk
  have hmarked := marked_fieldView ha hk
  have hq := getElem_fieldPlacements ha hk
  generalize (p.fieldPlacements row)[c] = q at hkept hread hslot hmarked hq
  have hvalue : row.getD c .null = q.value := by rw [hq]
  have hcolumn : p.layout.column c = q.column := by rw [hq]
  have hwidth : q.slotWidth = q.column.slotWidth := by rw [hq]
  have hisEntry : q.column.type.isVariable = q.isEntry := by
    rw [Placement.isEntry, hq, Bool.not_false, Bool.and_true]
  have hfield : ¬p.layout.isTag c = true := by
    rw [Shape.isTag, decide_eq_true_iff]
    exact Nat.not_le_of_lt hc
  have hlayout : (p.viewOf first rows).layout = p.layout := rfl
  simp only [PayloadView.field, Shape.shownField, hfound]
  rw [hlayout, if_neg hfield, hmarked, hslot, hvalue, hcolumn, hisEntry]
  by_cases hv : q.value.isNull = true
  · rw [if_pos hv, if_pos hv]
  have hv' : q.value.isNull = false := Bool.eq_false_iff.2 hv
  rw [if_neg hv, if_neg hv]
  by_cases hi : q.isEntry = true
  · have hentry := hkept.hasEntry hi hv'
    have hfound := hread hentry hkept []
    have hbpchar : ¬q.column.type = .bpchar := by
      intro h
      rw [← hisEntry, h] at hi
      cases hi
    rw [List.append_nil] at hfound
    rw [if_pos hi, if_neg hbpchar, Placement.offset_slot hentry hkept hlt]
    show Except.map _ (WireError.inCell r c
      (readEntry (Placement.entriesOf (p.fieldPlacements row)) _)) = _
    rw [hfound]
    rfl
  rw [if_neg hi]
  have hentry := Placement.hasEntry_of_not_isEntry (Bool.eq_false_iff.2 hi)
  by_cases hbpchar : q.column.type = .bpchar
  · have hc : q.column.type.isCharacter = true := by rw [hbpchar]; rfl
    have hslotWidth : q.slotWidth = q.column.width := by
      rw [hwidth, Column.slotWidth, hbpchar]
      rfl
    rw [if_pos hbpchar, Placement.slot_of_text hc hentry, hslotWidth, fit_take]
  · have hvariable : q.column.type.isVariable = false := by
      rw [hisEntry]
      exact Bool.eq_false_iff.2 hi
    obtain ⟨width, hw⟩ := ColumnType.exists_fixedWidth? hbpchar hvariable
    have hnumber := Placement.take_slot_of_number hkept hw hv'
      (Placement.entriesOf ((p.fieldPlacements row).take c)).length
    have hslotWidth : q.slotWidth = width :=
      hwidth.trans (ColumnType.slotWidth_of_fixedWidth? hw _)
    rw [← hslotWidth, ← Placement.length_slot, List.take_length] at hnumber
    rw [if_neg hbpchar, hnumber]

/-! ## The round trip -/

theorem shows_viewOf (hopens : p.Opens first) (htakes : ∀ row ∈ rows, p.Takes row)
    (htags : p.layout.tagSectionLen < space Payload.tagLenWidth) :
    (p.viewOf first rows).Shows p first rows where
  header := rfl
  rowNum := rfl
  rows_length := List.length_map _
  tagsAndData := (rowType_eq hopens.arity).1
  dataOnly := (rowType_eq hopens.arity).2
  primaryTag := rfl
  tag _ hlow hhigh := tag_viewOf hopens htags hlow hhigh
  field _ _ hr hc := field_viewOf htakes hr hc

/-- Offer rows one after the other to a buffer; the second part is those that
were accepted. -/
def fillAll (p : Packer) (b : PayloadBuffer) :
    List (List CellValue) → PayloadBuffer × List (List CellValue)
  | [] => (b, [])
  | row :: rest =>
    match p.fillRow b row with
    | (filled, .ok ()) =>
      let (filled, accepted) := p.fillAll filled rest
      (filled, row :: accepted)
    | (kept, .error _) => p.fillAll kept rest

end Packer

namespace PayloadBuffer

variable {b b' : PayloadBuffer} {p : Packer} {first : List CellValue}
  {rows held : List (List CellValue)}

theorem holds_fillAll (hb : b.Holds p held) (rows : List (List CellValue)) :
    (p.fillAll b rows).1.Holds p (held ++ (p.fillAll b rows).2) := by
  induction rows generalizing b held with
  | nil =>
    show b.Holds p (held ++ [])
    rwa [List.append_nil]
  | cons row rest ih =>
    cases hrow : p.fillRow b row with
    | mk filled outcome =>
      cases outcome with
      | error e =>
        rw [Packer.fillAll, hrow]
        exact ih (holds_fillRow_error hb hrow)
      | ok done =>
        have hrest := ih (holds_fillRow_ok hb hrow)
        rw [List.append_assoc] at hrest
        rw [Packer.fillAll, hrow]
        exact hrest

theorem length_fillAll_le (p : Packer) (b : PayloadBuffer) (rows : List (List CellValue)) :
    (p.fillAll b rows).2.length ≤ rows.length := by
  induction rows generalizing b with
  | nil => exact Nat.le_refl _
  | cons row rest ih =>
    cases hrow : p.fillRow b row with
    | mk filled outcome =>
      rw [Packer.fillAll, hrow]
      cases outcome with
      | error e => exact Nat.le_succ_of_le (ih filled)
      | ok done => exact Nat.succ_le_succ (ih filled)

theorem Holds.parse (h : b.Holds p rows)
    (htags : p.layout.tagSectionLen < space Payload.tagLenWidth) (hrows : rows.length < space 4)
    (hstamp : b.stamp = .ok b') :
    ∃ v first, rows.head? = some first ∧ PayloadView.parse p.layout b'.bytes = .ok v ∧
      v.Shows p first rows := by
  obtain ⟨hne, hheld, hbytes, hlt⟩ := h.stamp hstamp
  cases rows with
  | nil => exact absurd rfl hne
  | cons first rest =>
    have hparse := Packer.parse_laidOut hheld.opens hheld.takes htags hrows hlt
    refine ⟨p.viewOf first (first :: rest), first, rfl, ?_,
      Packer.shows_viewOf hheld.opens hheld.takes htags⟩
    rw [hbytes]
    exact hparse

/-- Whatever rows are offered to an empty buffer, once it is stamped a reader
sees exactly the accepted ones. -/
theorem parse_stamp_fillAll (htags : p.layout.tagSectionLen < space 4)
    (hrows : rows.length < space 4) (hstamp : (p.fillAll b.reset rows).1.stamp = .ok b') :
    ∃ v first, (p.fillAll b.reset rows).2.head? = some first ∧
      PayloadView.parse p.layout b'.bytes = .ok v ∧
      v.Shows p first (p.fillAll b.reset rows).2 := by
  have hheld := holds_fillAll (holds_reset b p) rows
  rw [List.nil_append] at hheld
  exact hheld.parse htags (Nat.lt_of_le_of_lt (length_fillAll_le p _ rows) hrows) hstamp

def meterShape : Shape :=
  { fields := [⟨.timestamp, 8⟩, ⟨.varchar, 8⟩, ⟨.bpchar, 3⟩]
    tags := [⟨.text, 4⟩, ⟨.varchar, 8⟩, ⟨.int2, 2⟩]
    primaryTags := [3] }

def meterPacker : Packer := Packer.make ⟨meterShape, by decide⟩ {} 16

/-- The second of these rows has a number for a note. -/
def meterRows : List (List CellValue) :=
  [[.timestamp 1999, .bytes [104, 105], .null, .bytes [97], .bytes [98, 0, 99], .null],
    [.timestamp 0, .int 1, .null, .bytes [97], .null, .null],
    [.null, .null, .bytes [107, 87, 104, 33], .bytes [97], .null, .int 7]]

theorem parse_stamp_meterRows :
    ∃ b' v first,
      (meterPacker.fillAll (withCapacity 0).reset meterRows).1.stamp = .ok b' ∧
        (meterPacker.fillAll (withCapacity 0).reset meterRows).2.length = 2 ∧
        PayloadView.parse meterPacker.layout b'.bytes = .ok v ∧
        v.Shows meterPacker first (meterPacker.fillAll (withCapacity 0).reset meterRows).2 := by
  have hok : (meterPacker.fillAll (withCapacity 0).reset meterRows).1.stamp.isOk = true := by
    decide +kernel
  have hlen : (meterPacker.fillAll (withCapacity 0).reset meterRows).2.length = 2 := by
    decide +kernel
  obtain ⟨b', hstamp⟩ := Outcome.exists_of_isOk hok
  obtain ⟨v, first, -, hparse, hshows⟩ :=
    parse_stamp_fillAll (b := withCapacity 0) (by decide) (by decide) hstamp
  exact ⟨b', v, first, hstamp, hlen, hparse, hshows⟩

end PayloadBuffer
end SeriesWire
