/-
The bytes of a payload as a function of its rows.  `Packer.payload` is what a
sealed buffer holds.  The writer lays out a header from the first row and a
block from each; `headerBlock_ok` and `rowBlock_ok` say that, whenever it lays
these out to the end, they are the parts of that payload.
-/
import SeriesWire.Proofs.Payload.Section
import SeriesWire.Proofs.Shape

namespace SeriesWire

open Bytes

def RowView.bytes (v : RowView) : Bytes := v.bitmap ++ v.slots ++ v.entries

namespace Packer

variable {p : Packer} {row : List CellValue}

/-! ## Values and their places -/

/-- The row has one value for each column. -/
def Arity (p : Packer) (row : List CellValue) : Prop := row.length = p.layout.columns.length

theorem Arity.eq (h : p.Arity row) :
    row.length = p.layout.fields.length + p.layout.tags.length := by
  rw [Arity, Shape.columns, List.length_append] at h
  exact h

theorem length_tagPlacements (h : p.Arity row) :
    (p.tagPlacements row).length = p.layout.tags.length := by
  have := h.eq
  simp only [tagPlacements, List.length_zipWith, Shape.numberedTags, List.length_zipIdx,
    List.length_drop, Shape.tagIndex]
  omega

theorem length_fieldPlacements (h : p.Arity row) :
    (p.fieldPlacements row).length = p.layout.fields.length := by
  have := h.eq
  simp only [fieldPlacements, List.length_zipWith, List.length_zipIdx]
  omega

theorem getElem_tagPlacements (h : p.Arity row) {k : Nat}
    (hk : k < (p.tagPlacements row).length) :
    (p.tagPlacements row)[k] =
      { column := p.layout.column (p.layout.tagIndex + k)
        number := p.layout.tagIndex + k
        bit := k
        slotWidth := (p.layout.column (p.layout.tagIndex + k)).width
        primary := p.layout.isPrimary (p.layout.tagIndex + k)
        value := row.getD (p.layout.tagIndex + k) .null } := by
  have hk' : k < p.layout.tags.length := by rwa [length_tagPlacements h] at hk
  have hlen := h.eq
  have hlt : p.layout.tagIndex + k < row.length := by
    rw [Shape.tagIndex]
    omega
  rw [Shape.column_tag hk', List.getD_eq_getElem _ _ hlt]
  simp only [tagPlacements, List.getElem_zipWith, Shape.numberedTags, List.getElem_zipIdx,
    List.getElem_drop, Nat.add_sub_cancel_left]

theorem getElem_fieldPlacements (h : p.Arity row) {k : Nat}
    (hk : k < (p.fieldPlacements row).length) :
    (p.fieldPlacements row)[k] =
      { column := p.layout.column k
        number := k
        bit := k
        slotWidth := (p.layout.column k).slotWidth
        primary := false
        value := row.getD k .null } := by
  have hk' : k < p.layout.fields.length := by rwa [length_fieldPlacements h] at hk
  have hlen := h.eq
  have hlt : k < row.length := by omega
  rw [Shape.column_field hk', List.getD_eq_getElem _ _ hlt]
  simp only [fieldPlacements, List.getElem_zipWith, List.getElem_zipIdx, Nat.zero_add]

theorem map_slotWidth_tagPlacements (h : p.Arity row) :
    (p.tagPlacements row).map (·.slotWidth) = p.layout.tags.map (·.width) := by
  apply List.ext_getElem
  · rw [List.length_map, List.length_map, length_tagPlacements h]
  · intro k hk _
    rw [List.length_map] at hk
    rw [List.getElem_map, List.getElem_map, getElem_tagPlacements h hk]
    rw [length_tagPlacements h] at hk
    rw [Shape.column_tag hk]

theorem map_slotWidth_fieldPlacements (h : p.Arity row) :
    (p.fieldPlacements row).map (·.slotWidth) = p.layout.fields.map (·.slotWidth) := by
  apply List.ext_getElem
  · rw [List.length_map, List.length_map, length_fieldPlacements h]
  · intro k hk _
    rw [List.length_map] at hk
    rw [List.getElem_map, List.getElem_map, getElem_fieldPlacements h hk]
    rw [length_fieldPlacements h] at hk
    rw [Shape.column_field hk]

/-! ## The parts of a payload -/

def tagView (p : Packer) (row : List CellValue) : RowView :=
  Placement.view p.layout.tags.length (p.tagPlacements row)

def fieldView (p : Packer) (row : List CellValue) : RowView :=
  Placement.view p.layout.fields.length (p.fieldPlacements row)

def primaryTag (p : Packer) (row : List CellValue) : Bytes :=
  p.layout.primaryTags.flatMap fun i =>
    ((row.getD i .null).octets (p.layout.column i).type).fit (p.layout.column i).width

def headRest (p : Packer) (row : List CellValue) : Bytes :=
  [(rowType (p.tagPlacements row)).byte] ++
    (ofNatLE Payload.primaryLenWidth p.layout.primaryLen ++
      (p.primaryTag row ++
        (ofNatLE Payload.tagLenWidth p.layout.tagSectionLen ++ (p.tagView row).bytes)))

def block (p : Packer) (row : List CellValue) : Bytes :=
  ofNatLE Payload.rowLenWidth (p.fieldView row).bytes.length ++ (p.fieldView row).bytes

def blocks (p : Packer) (rows : List (List CellValue)) : Bytes := rows.flatMap p.block

def laidOut (p : Packer) (count : Bytes) (first : List CellValue) (dataLen : Bytes)
    (rows : List (List CellValue)) : Bytes :=
  p.header.bytes ++ (count ++ (p.headRest first ++ (dataLen ++ p.blocks rows)))

def payload (p : Packer) : List (List CellValue) → Bytes
  | [] => []
  | first :: rest =>
    p.laidOut (ofNatLE 4 (first :: rest).length) first
      (ofNatLE Payload.dataLenWidth (p.blocks (first :: rest)).length) (first :: rest)

theorem overwrite_laidOut_count {old count : Bytes} (h : count.length = old.length) (p : Packer)
    (first : List CellValue) (dataLen : Bytes) (rows : List (List CellValue)) :
    overwrite (p.laidOut old first dataLen rows) PayloadHeader.identityLen count =
      p.laidOut count first dataLen rows := by
  rw [laidOut, ← PayloadHeader.length_bytes p.header, overwrite_append h]
  rfl

theorem overwrite_laidOut_dataLen {count old dataLen : Bytes} (hcount : count.length = 4)
    (h : dataLen.length = old.length) (p : Packer) (first : List CellValue)
    (rows : List (List CellValue)) :
    overwrite (p.laidOut count first old rows) (42 + (p.headRest first).length) dataLen =
      p.laidOut count first dataLen rows := by
  have hstart : 42 + (p.headRest first).length =
      (p.header.bytes ++ (count ++ p.headRest first)).length := by
    rw [List.length_append, List.length_append, PayloadHeader.length_bytes,
      PayloadHeader.identityLen, hcount]
    omega
  have hsplit : ∀ len : Bytes, p.laidOut count first len rows =
      (p.header.bytes ++ (count ++ p.headRest first)) ++ (len ++ p.blocks rows) := by
    intro len
    simp only [laidOut, List.append_assoc]
  rw [hstart, hsplit, overwrite_append h, hsplit]

/-- `row` can open a payload. -/
structure Opens (p : Packer) (row : List CellValue) : Prop where
  arity : p.Arity row
  tags : ∀ q ∈ p.tagPlacements row, q.Kept

/-- `row` can stand in a payload. -/
structure Takes (p : Packer) (row : List CellValue) : Prop where
  arity : p.Arity row
  fields : ∀ q ∈ p.fieldPlacements row, q.Kept
  length_lt : (p.fieldView row).bytes.length < space Payload.rowLenWidth

/-! ## What the writer lays out -/

theorem length_primaryTag (p : Packer) (row : List CellValue) :
    (p.primaryTag row).length = p.layout.primaryLen := by
  rw [primaryTag, Shape.primaryLen]
  induction p.layout.primaryTags with
  | nil => rfl
  | cons i rest ih =>
    rw [List.flatMap_cons, List.length_append, length_fit, List.map_cons, totalLen_cons, ih]

/-- A primary tag stands inline, whatever its type. -/
theorem fit_slot_of_store {v : CellValue} {t : ColumnType} {width : Nat} {stored : Stored}
    (hv : v.isNull = false) (h : v.store t width 0 true = .ok stored) :
    stored.slot.fit width = (v.octets t).fit width := by
  rcases CellValue.store_ok hv h with ⟨natural, _, hlen, rfl⟩ | ⟨_, _, text, rfl, rfl⟩ | ⟨hi, _⟩
  · rw [Stored.slot, fit_eq_self hlen]
  · rw [Stored.slot, fit_eq_self (length_fit _ _)]
    rfl
  · rw [Bool.not_true, Bool.and_false] at hi
    cases hi

theorem primaryBytes_ok {index : Nat} {done bytes : Bytes} {numbers : List Nat}
    (h : p.primaryBytes row index done numbers = (bytes, .ok ())) :
    bytes = done ++ numbers.flatMap fun i =>
      ((row.getD i .null).octets (p.layout.column i).type).fit (p.layout.column i).width := by
  induction numbers generalizing done with
  | nil =>
    cases h
    rw [List.flatMap_nil, List.append_nil]
  | cons i rest ih =>
    rw [primaryBytes] at h
    by_cases hv : (row.getD i .null).isNull = true
    · simp only [hv, if_true] at h
      cases h
    · simp only [hv, if_false, Bool.false_eq_true] at h
      split at h
      next => cases h
      next slot hslot =>
        obtain ⟨stored, hstore, hslot⟩ := Outcome.bind_eq_ok.1 hslot
        obtain ⟨⟨⟩, -, hslot⟩ := Outcome.bind_eq_ok.1 hslot
        cases hslot
        rw [ih h, fit_slot_of_store (Bool.eq_false_iff.2 hv) hstore, List.flatMap_cons,
          List.append_assoc]

theorem bytes_of_lay_empty {columns room index : Nat} {ps : List Placement} {s : Section}
    (h : (Section.empty columns room).lay index ps = (s, .ok ())) {width : Nat}
    (hwidth : totalLen (ps.map (·.slotWidth)) = width) :
    (∀ q ∈ ps, q.Kept) ∧ s.bytes width = (Placement.view columns ps).bytes := by
  obtain ⟨hkept, rfl⟩ := Section.lay_ok h
  refine ⟨hkept, ?_⟩
  have hslots : (Placement.slotsFrom 0 ps).length = width := by
    rw [Placement.length_slotsFrom, hwidth]
  simp only [Section.bytes, Section.empty, List.nil_append, List.length_nil]
  rw [fit_eq_self hslots]
  rfl

/-- A header that is laid out to the end is the head of the payload, the row
count still missing. -/
theorem headerBlock_ok {index capacity : Nat} {laid : Bytes} (ha : p.Arity row)
    (h : p.headerBlock row index capacity = (laid, .ok ())) :
    p.Opens row ∧ laid = p.header.bytes ++ (zeros 4 ++ p.headRest row) := by
  cases hprimary : p.primaryBytes row index [] p.layout.primaryTags with
  | mk primary outcome =>
    cases htags : (Section.empty p.layout.tags.length (capacity - p.layout.varStart)).lay index
        (p.tagPlacements row) with
    | mk tags outcome' =>
      simp only [headerBlock, hprimary, htags] at h
      cases outcome with
      | error e => cases h
      | ok done =>
        cases outcome' with
        | error e => cases h
        | ok done' =>
          obtain ⟨hkept, hbytes⟩ := bytes_of_lay_empty htags
            (congrArg totalLen (map_slotWidth_tagPlacements ha))
          have htag : primary = p.primaryTag row := primaryBytes_ok hprimary
          refine ⟨⟨ha, hkept⟩, ?_⟩
          cases h
          rw [htag, headerBytes, hbytes, fit_eq_self (p.length_primaryTag row)]
          simp only [headRest, tagView, List.append_assoc]

theorem rowBlock_ok {index capacity : Nat} {laid : Bytes} (ha : p.Arity row)
    (h : p.rowBlock row index capacity = (laid, .ok ())) : p.Takes row ∧ laid = p.block row := by
  cases hfields : (Section.empty p.layout.fields.length
      (capacity - (Payload.rowLenWidth + p.layout.rowFixedLen))).lay index
        (p.fieldPlacements row) with
  | mk fields outcome =>
    simp only [rowBlock, hfields] at h
    cases outcome with
    | error e => cases h
    | ok done =>
      obtain ⟨hkept, hbytes⟩ := bytes_of_lay_empty hfields
        (congrArg totalLen (map_slotWidth_fieldPlacements ha))
      change fields.bytes p.layout.rowSize = (p.fieldView row).bytes at hbytes
      simp only [hbytes] at h
      split at h
      next => cases h
      next hlt =>
        cases h
        exact ⟨⟨ha, hkept, Nat.lt_of_not_le hlt⟩, rfl⟩

/-! ## How much room the writer asks for -/

theorem length_view_bytes {columns : Nat} {ps : List Placement} :
    (Placement.view columns ps).bytes.length =
      Bitmap.size columns + totalLen (ps.map (·.slotWidth)) + (Placement.entriesOf ps).length := by
  rw [RowView.bytes, List.length_append, List.length_append]
  simp only [Placement.view]
  rw [Placement.length_bitmapOf, Placement.length_slotsFrom]

theorem length_entry (q : Placement) :
    q.entry.length = if q.primary then 0 else entryLen q.column.type q.value := by
  rw [Placement.entry, Placement.hasEntry, Placement.isEntry]
  cases q.primary <;> cases q.value <;> simp [entryLen, CellValue.octets, apply_ite List.length]

theorem totalLen_entries (ps : List Placement) :
    (Placement.entriesOf ps).length = totalLen (ps.map (·.entry.length)) := by
  induction ps with
  | nil => rfl
  | cons q ps ih =>
    rw [Placement.entriesOf, List.flatMap_cons, List.length_append, List.map_cons, totalLen_cons,
      ← ih]
    rfl

theorem length_tagView (ha : p.Arity row) :
    (p.tagView row).bytes.length =
      p.layout.tagSectionLen + (Placement.entriesOf (p.tagPlacements row)).length := by
  rw [tagView, length_view_bytes, map_slotWidth_tagPlacements ha, Shape.tagSectionLen,
    Payload.tagSectionLen, List.length_map]

/-- The header ends behind the entries of the tags. -/
theorem headerLen_eq (p : Packer) (row : List CellValue) :
    p.headerLen row = p.layout.varStart + (p.tagView row).entries.length := by
  have hentries : totalLen ((p.tagPlacements row).map fun t =>
      if t.primary then 0 else entryLen t.column.type t.value) =
      (Placement.entriesOf (p.tagPlacements row)).length := by
    rw [totalLen_entries]
    congr 1
    exact List.map_congr_left fun q _ => (length_entry q).symm
  rw [headerLen, hentries]
  rfl

theorem length_headRest (ha : p.Arity row) :
    42 + (p.headRest row).length = p.headerLen row := by
  have htags : (p.tagView row).entries = Placement.entriesOf (p.tagPlacements row) := rfl
  rw [headerLen_eq, htags]
  simp only [headRest, List.length_append, List.length_singleton, length_ofNatLE, length_primaryTag,
    length_tagView ha, Shape.varStart, Shape.tagStart, Payload.tagStart, Payload.headLen]
  omega

theorem length_fieldView (ha : p.Arity row) :
    (p.fieldView row).bytes.length =
      p.layout.rowFixedLen + (Placement.entriesOf (p.fieldPlacements row)).length := by
  rw [fieldView, length_view_bytes, map_slotWidth_fieldPlacements ha, Shape.rowFixedLen,
    Shape.rowSize]

/-- The length in front of a row is the one that room was made for. -/
theorem rowLen_eq (ha : p.Arity row) : p.rowLen row = (p.fieldView row).bytes.length := by
  have hentries : totalLen ((p.fieldPlacements row).map fun f => entryLen f.column.type f.value) =
      (Placement.entriesOf (p.fieldPlacements row)).length := by
    rw [totalLen_entries]
    congr 1
    apply List.map_congr_left
    intro q hq
    obtain ⟨k, hk, rfl⟩ := List.getElem_of_mem hq
    rw [length_entry, getElem_fieldPlacements ha hk]
    rfl
  rw [rowLen, hentries, length_fieldView ha]

theorem length_block (ha : p.Arity row) :
    (p.block row).length = Payload.rowLenWidth + p.rowLen row := by
  rw [block, List.length_append, length_ofNatLE, rowLen_eq ha]

end Packer
end SeriesWire
