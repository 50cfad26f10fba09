/-
Payloads taken apart.  A reader that accepts a payload has cut it into parts that
stand one behind the other and leave nothing over (`tiles_of_parse`): the head,
the primary tag bytes and the tag section behind their lengths, the entries of
the tags, which have no length of their own, and behind the length of the data a
block for each row.
-/
import SeriesWire.Proofs.Payload.Entries

namespace SeriesWire

open Bytes

namespace RowView

/-- The bytes of a row, behind their number. -/
def block (row : RowView) : Bytes :=
  ofNatLE Payload.rowLenWidth row.bytes.length ++ row.bytes

/-- A row has a full bitmap and full slots, whatever its entries. -/
structure Fits (row : RowView) (s : Shape) : Prop where
  bitmap : row.bitmap.length = Bitmap.size s.fields.length
  slots : row.slots.length = s.rowSize
  length_lt : row.bytes.length < space Payload.rowLenWidth

theorem length_block (row : RowView) :
    row.block.length = Payload.rowLenWidth + row.bytes.length := by
  rw [block, List.length_append, length_ofNatLE]

theorem Fits.length_bytes {row : RowView} {s : Shape} (h : row.Fits s) :
    row.bytes.length = s.rowFixedLen + row.entries.length := by
  rw [bytes, List.length_append, List.length_append, h.bitmap, h.slots, Shape.rowFixedLen]

end RowView

namespace PayloadView

/-- The rows as they stand in the payload. -/
def data (v : PayloadView) : Bytes := v.rows.flatMap RowView.block

/-- What stands in front of the rows, part by part. -/
def preamble (v : PayloadView) (payload : Bytes) : List Bytes :=
  [payload.take Payload.headLen,
    ofNatLE Payload.primaryLenWidth v.primaryTag.length,
    v.primaryTag,
    ofNatLE Payload.tagLenWidth (v.tags.bitmap ++ v.tags.slots).length,
    v.tags.bitmap ++ v.tags.slots,
    v.tags.entries,
    ofNatLE Payload.dataLenWidth v.data.length]

/-- The parts of a payload in the order in which they stand there. -/
def parts (v : PayloadView) (payload : Bytes) : List Bytes :=
  v.preamble payload ++ v.rows.map RowView.block

/-- `payload` consists of the parts that `v` shows, and each part is as long as
`layout` and the number in front of it say. -/
structure Tiles (v : PayloadView) (layout : Layout) (payload : Bytes) : Prop where
  layout_eq : v.layout = layout
  joined : payload = (v.parts payload).flatten
  length_head : (payload.take Payload.headLen).length = Payload.headLen
  length_primaryTag : v.primaryTag.length = layout.primaryLen
  length_bitmap : v.tags.bitmap.length = Bitmap.size layout.tags.length
  length_slots : v.tags.slots.length = totalLen (layout.tags.map (·.width))
  /-- The entries end with the furthest of them. -/
  entriesEnd_eq : entriesEnd layout.toShape v.tags.bitmap v.tags.slots v.tags.entries =
    .ok v.tags.entries.length
  length_section_lt : layout.tagSectionLen < space Payload.tagLenWidth
  length_data_lt : v.data.length < space Payload.dataLenWidth
  rowNum_eq : v.rowNum = PayloadHeader.number payload PayloadHeader.identityLen 4
  length_rows : v.rows.length = v.rowNum
  fits : ∀ row ∈ v.rows, row.Fits layout.toShape

end PayloadView

/-! ## Cutting -/

theorem PayloadCursor.take_split {c c' : PayloadCursor} {what : String} {len : Nat} {taken : Bytes}
    (h : c.take what len = .ok (taken, c')) : c.rest = taken ++ c'.rest ∧ taken.length = len := by
  simp only [PayloadCursor.take] at h
  split at h
  · cases h
  next hlen =>
    cases h
    refine ⟨(List.take_append_drop _ _).symm, ?_⟩
    rw [List.length_take] at hlen ⊢
    omega

theorem PayloadHeader.length_of_read {payload : Bytes} {header : PayloadHeader}
    (h : PayloadHeader.read payload = .ok header) : Payload.headLen ≤ payload.length := by
  rw [PayloadHeader.read] at h
  split at h
  · cases h
  next hlen => exact Nat.le_of_not_lt hlen

namespace PayloadView

variable {s : Shape} {layout : Layout} {payload : Bytes} {v : PayloadView}

/-- A row cut into bitmap, slots and entries. -/
theorem fits_cut {body : Bytes} (hlen : s.rowFixedLen ≤ body.length)
    (hlt : body.length < space Payload.rowLenWidth) :
    let row : RowView :=
      { bitmap := body.take (Bitmap.size s.fields.length)
        slots := body.slice (Bitmap.size s.fields.length) s.rowSize
        entries := body.drop s.rowFixedLen }
    row.bytes = body ∧ row.Fits s := by
  intro row
  have hbytes : row.bytes = body := by
    show body.take _ ++ body.slice _ _ ++ body.drop _ = body
    rw [List.append_assoc, Shape.rowFixedLen, ← drop_eq_slice_append, List.take_append_drop]
  rw [Shape.rowFixedLen] at hlen
  refine ⟨hbytes, ?_, ?_, by rw [hbytes]; exact hlt⟩
  · exact List.length_take_of_le (by omega)
  · exact length_slice_of_le hlen

theorem readRows_split {number count : Nat} {done rows : List RowView} {c c' : PayloadCursor}
    (h : readRows s number done count c = .ok (rows, c')) :
    ∃ new, rows = done.reverse ++ new ∧ new.length = count ∧
      c.rest = new.flatMap RowView.block ++ c'.rest ∧ ∀ row ∈ new, row.Fits s := by
  induction count generalizing number done c with
  | zero =>
    cases h
    exact ⟨[], (List.append_nil _).symm, rfl, rfl, fun row hrow => absurd hrow List.not_mem_nil⟩
  | succ count ih =>
    rw [readRows] at h
    obtain ⟨⟨length, c₁⟩, hlength, h⟩ := Outcome.bind_eq_ok.1 h
    obtain ⟨hrest, hwidth⟩ := PayloadCursor.take_split hlength
    obtain ⟨⟨body, c₂⟩, hbody, h⟩ := Outcome.bind_eq_ok.1 h
    obtain ⟨hrest₁, hlen⟩ := PayloadCursor.take_split (Outcome.mapError_eq_ok.1 hbody)
    obtain ⟨hfixed, h⟩ := Outcome.check_eq_ok.1 h
    obtain ⟨new, hrows, hcount, hrest₂, hfits⟩ := ih h
    have hlt : length.toNatLE < space Payload.rowLenWidth := hwidth ▸ toNatLE_lt length
    obtain ⟨hbytes, hrow⟩ := fits_cut (s := s) (show _ ≤ body.length by omega) (by omega)
    refine ⟨_ :: new, ?_, by rw [List.length_cons, hcount], ?_,
      List.forall_mem_cons.2 ⟨hrow, hfits⟩⟩
    · rw [hrows, List.reverse_cons, List.append_assoc, List.singleton_append]
    · rw [hrest, hrest₁, hrest₂, List.flatMap_cons, RowView.block, hbytes,
        ← eq_ofNatLE hwidth hlen.symm, List.append_assoc, List.append_assoc]

/-- What a reader accepts consists of what it shows. -/
theorem tiles_of_parse (h : PayloadView.parse layout payload = .ok v) :
    v.Tiles layout payload := by
  rw [PayloadView.parse] at h
  obtain ⟨header, hheader, h⟩ := Outcome.bind_eq_ok.1 h
  have hhead := PayloadHeader.length_of_read hheader
  obtain ⟨rowType, -, h⟩ := Outcome.bind_eq_ok.1 h
  obtain ⟨⟨primaryLen, c₁⟩, htaken, h⟩ := Outcome.bind_eq_ok.1 h
  obtain ⟨hrest, hprimaryWidth⟩ := PayloadCursor.take_split htaken
  obtain ⟨hprimary, h⟩ := Outcome.check_eq_ok.1 h
  obtain ⟨⟨primaryTag, c₂⟩, htaken, h⟩ := Outcome.bind_eq_ok.1 h
  obtain ⟨hrest₁, hprimaryLen⟩ := PayloadCursor.take_split htaken
  obtain ⟨⟨tagLen, c₃⟩, htaken, h⟩ := Outcome.bind_eq_ok.1 h
  obtain ⟨hrest₂, htagWidth⟩ := PayloadCursor.take_split htaken
  obtain ⟨htag, h⟩ := Outcome.check_eq_ok.1 h
  obtain ⟨⟨bitmap, c₄⟩, htaken, h⟩ := Outcome.bind_eq_ok.1 h
  obtain ⟨hrest₃, hbitmap⟩ := PayloadCursor.take_split htaken
  obtain ⟨⟨slots, c₅⟩, htaken, h⟩ := Outcome.bind_eq_ok.1 h
  obtain ⟨hrest₄, hslots⟩ := PayloadCursor.take_split htaken
  obtain ⟨entriesLen, hend, h⟩ := Outcome.bind_eq_ok.1 h
  obtain ⟨⟨entries, c₆⟩, htaken, h⟩ := Outcome.bind_eq_ok.1 h
  obtain ⟨hrest₅, hentries⟩ := PayloadCursor.take_split htaken
  obtain ⟨⟨dataLen, c₇⟩, htaken, h⟩ := Outcome.bind_eq_ok.1 h
  obtain ⟨hrest₆, hdataWidth⟩ := PayloadCursor.take_split htaken
  obtain ⟨hdataLen, h⟩ := Outcome.check_eq_ok.1 h
  obtain ⟨⟨rows, c₈⟩, hrows, h⟩ := Outcome.bind_eq_ok.1 h
  obtain ⟨_, rfl, hcount, hrest₇, hfits⟩ := readRows_split hrows
  obtain ⟨hleft, h⟩ := Outcome.check_eq_ok.1 h
  cases h
  -- The checks turn the numbers that were read into the lengths of what follows them.
  have hprimary := Classical.not_not.1 hprimary
  have htag := Classical.not_not.1 htag
  rw [Classical.not_not.1 hleft, List.append_nil] at hrest₇
  have hdataLen := hrest₇ ▸ Classical.not_not.1 hdataLen
  -- The entries were looked for in all that is left, and are found in their own bytes.
  have hend := (entriesEnd_append (Nat.le_of_eq hentries.symm) c₆.rest).1 (hrest₅ ▸ hend)
  have hslots : slots.length = totalLen (layout.tags.map (·.width)) := by
    rw [hslots, htag, Shape.tagSectionLen_eq, Nat.add_sub_cancel_left]
  have hsection : (bitmap ++ slots).length = layout.tagSectionLen := by
    rw [List.length_append, hbitmap, hslots, Shape.tagSectionLen_eq]
  refine
    { layout_eq := rfl
      joined := ?_
      length_head := List.length_take_of_le hhead
      length_primaryTag := hprimaryLen.trans hprimary
      length_bitmap := hbitmap
      length_slots := hslots
      entriesEnd_eq := by rw [hend, hentries]
      length_section_lt := htag ▸ htagWidth ▸ toNatLE_lt tagLen
      length_data_lt := hdataLen ▸ hdataWidth ▸ toNatLE_lt dataLen
      rowNum_eq := rfl
      length_rows := hcount
      fits := hfits }
  simp only [parts, preamble, data, List.cons_append, List.nil_append, List.flatten_cons,
    ← List.flatMap_def]
  rw [← eq_ofNatLE hprimaryWidth hprimaryLen.symm,
    ← eq_ofNatLE htagWidth (htag.trans hsection.symm), ← eq_ofNatLE hdataWidth hdataLen,
    List.append_assoc, ← hrest₇, ← hrest₆, ← hrest₅, ← hrest₄, ← hrest₃, ← hrest₂, ← hrest₁,
    ← hrest, List.take_append_drop]

/-! ## Values -/

/-- Where row `r` starts, and the row in front of it ends. -/
def rowStart (v : PayloadView) (payload : Bytes) (r : Nat) : Nat :=
  ((v.parts payload).take ((v.preamble payload).length + r)).flatten.length

/-- `value` stands in row `r`, behind the length of the row. -/
def InRow (v : PayloadView) (payload : Bytes) (r : Nat) (value : Bytes) : Prop :=
  ∃ start, v.rowStart payload r + Payload.rowLenWidth ≤ start ∧
    start + value.length ≤ v.rowStart payload (r + 1) ∧ payload.slice start value.length = value

variable {r c i : Nat}

theorem Tiles.row (h : v.Tiles layout payload) (hr : r < v.rows.length) :
    v.rowStart payload (r + 1) = v.rowStart payload r + v.rows[r].block.length ∧
      v.rowStart payload (r + 1) ≤ payload.length ∧
      payload.slice (v.rowStart payload r) v.rows[r].block.length = v.rows[r].block := by
  have hlt : (v.preamble payload).length + r < (v.parts payload).length := by
    rw [parts, List.length_append, List.length_map]
    omega
  have hpart : (v.parts payload)[(v.preamble payload).length + r] = v.rows[r].block := by
    simp only [parts, List.getElem_append_right (Nat.le_add_right _ _), Nat.add_sub_cancel_left,
      List.getElem_map]
  have hnext : v.rowStart payload (r + 1) = v.rowStart payload r + v.rows[r].block.length := by
    rw [rowStart, ← Nat.add_assoc, length_flatten_take_succ hlt, hpart]
    rfl
  have hle := slice_flatten_le hlt
  have hfound := slice_flatten hlt
  rw [hpart, ← h.joined] at hle hfound
  exact ⟨hnext, hnext ▸ hle, hfound⟩

/-- A part of the bytes of a row stands in the payload. -/
theorem Tiles.inRow (h : v.Tiles layout payload) (hr : r < v.rows.length) {value : Bytes}
    (start : Nat) (hle : start + value.length ≤ v.rows[r].bytes.length)
    (hvalue : v.rows[r].bytes.slice start value.length = value) : v.InRow payload r value := by
  obtain ⟨hnext, -, hblock⟩ := h.row hr
  have hlen := v.rows[r].length_block
  refine ⟨v.rowStart payload r + (Payload.rowLenWidth + start), by omega, by omega, ?_⟩
  rw [← slice_slice (show _ ≤ v.rows[r].block.length by omega), hblock, RowView.block]
  have hskip := slice_append_add (ofNatLE Payload.rowLenWidth v.rows[r].bytes.length)
    v.rows[r].bytes start value.length
  rw [length_ofNatLE] at hskip
  rw [hskip, hvalue]

/-- Every tag has a value or is missing. -/
theorem Tiles.tag_ok (h : v.Tiles layout payload) (htag : layout.tagIndex ≤ i)
    (hi : i < layout.columns.length) : ∃ value, v.tag i = .ok value := by
  have hcheck : (!layout.isTag i || decide (layout.columns.length ≤ i)) = false := by
    rw [Shape.isTag, decide_eq_true htag, decide_eq_false (Nat.not_le_of_lt hi)]
    rfl
  simp only [tag, h.layout_eq, hcheck, Bool.false_eq_true, if_false]
  split
  · exact ⟨none, rfl⟩
  next hmarked =>
    split
    next hentry =>
      obtain ⟨text, stop, hread⟩ := readEntry_of_entriesEnd h.entriesEnd_eq htag hi hentry
        (Bool.eq_false_iff.2 hmarked)
      exact ⟨some text, by rw [hread]; rfl⟩
    next =>
      split
      next width _ => exact ⟨_, rfl⟩
      next => exact ⟨_, rfl⟩

/-- A field has a value from its own row or is missing; only the entry of a
variable one may not be there. -/
theorem Tiles.field_within (h : v.Tiles layout payload) (hr : r < v.rowNum)
    (hc : c < layout.tagIndex) :
    (∃ value, v.field r c = .ok value ∧ ∀ bytes, value = some bytes → v.InRow payload r bytes) ∨
      ((layout.column c).type.isVariable = true ∧ ∃ e, v.field r c = .error (.cell r c e)) := by
  have hr : r < v.rows.length := h.length_rows ▸ hr
  have hfits := h.fits _ (List.getElem_mem hr)
  have htag : ¬layout.isTag c = true := by
    rw [Shape.isTag, decide_eq_true_iff]
    omega
  simp only [field, slotAfter, h.layout_eq, List.getElem?_eq_getElem hr, if_neg htag]
  split
  · exact .inl ⟨none, rfl, nofun⟩
  split
  next hvariable =>
    generalize offset _ = o
    cases hread : readEntry v.rows[r].entries o with
    | error e => exact .inr ⟨hvariable, e, rfl⟩
    | ok entry =>
      obtain ⟨hstop, hle, htext⟩ := length_of_readEntry hread
      refine .inl ⟨some entry.1, rfl, fun bytes hbytes => ?_⟩
      cases hbytes
      have hlen := hfits.length_bytes
      have hbefore : (v.rows[r].bitmap ++ v.rows[r].slots).length = layout.rowFixedLen := by
        rw [List.length_append, hfits.bitmap, hfits.slots, Shape.rowFixedLen]
      refine h.inRow hr (layout.rowFixedLen + (o + 2)) (by omega) ?_
      rw [RowView.bytes, ← hbefore, slice_append_add]
      exact htext
  next =>
    refine .inl ⟨_, rfl, fun bytes hbytes => ?_⟩
    cases hbytes
    have hwidth := totalLen_take_add_le (·.slotWidth) (l := layout.fields) hc
    rw [← Shape.column_field hc] at hwidth
    generalize totalLen ((layout.fields.take c).map (·.slotWidth)) = before at hwidth ⊢
    have hslots : before + (layout.column c).slotWidth ≤ v.rows[r].slots.length :=
      hfits.slots ▸ hwidth
    have hlen := length_slice_of_le hslots
    have hbytes : v.rows[r].bytes.length = v.rows[r].bitmap.length +
        (v.rows[r].slots.length + v.rows[r].entries.length) := by
      rw [RowView.bytes, List.append_assoc, List.length_append, List.length_append]
    refine h.inRow hr (v.rows[r].bitmap.length + before) (by rw [hlen]; omega) ?_
    rw [hlen, RowView.bytes, List.append_assoc, slice_append_add, slice_append_of_le hslots]

end PayloadView
end SeriesWire
