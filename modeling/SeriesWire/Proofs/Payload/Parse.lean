/-
Payloads and their readers.  The parts of a payload are found by a cursor in the
order in which they stand there; only the end of the tag entries has to be
looked for.  `parse_payload` says that a reader ends up with the views of the
header row and of the data rows that the payload was put together from.
-/
import SeriesWire.Proofs.Payload.Content

namespace SeriesWire

open Bytes

/-! ## Cursors and heads -/

theorem PayloadCursor.take_append {part : Bytes} {len : Nat} (h : part.length = len)
    (total position : Nat) (what : String) (rest : Bytes) :
    PayloadCursor.take ⟨total, position, part ++ rest⟩ what len =
      .ok (part, ⟨total, position + len, rest⟩) := by
  subst h
  simp only [PayloadCursor.take]
  rw [List.take_left, List.drop_left, if_neg (Nat.lt_irrefl _)]

theorem RowType.ofByte_byte (t : RowType) : ofByte t.byte = .ok t := by
  cases t <;> rfl

namespace PayloadHeader

theorem number_append {width n : Nat} (h : n < space width) (rest : Bytes) :
    number (ofNatLE width n ++ rest) 0 width = n := by
  have hfound := slice_append [] (ofNatLE width n) rest
  rw [length_ofNatLE] at hfound
  exact (congrArg toNatLE hfound).trans (toNatLE_ofNatLE_of_lt h)

theorem number_append_add {part : Bytes} {skipped : Nat} (h : part.length = skipped) (rest : Bytes)
    (start len : Nat) : number (part ++ rest) (skipped + start) len = number rest start len := by
  subst h
  exact congrArg toNatLE (slice_append_add part rest start len)

/-- The first field takes up sixteen bytes and counts eight. -/
theorem number_first (n : UInt64) (rest : Bytes) :
    number (ofNatLE 16 n.toNat ++ rest) 0 8 = n.toNat := by
  have hlow : (ofNatLE 16 n.toNat).take 8 = ofNatLE 8 n.toNat := take_ofNatLE (by omega) _
  rw [number, slice_zero, List.take_append_of_le_length (by rw [length_ofNatLE]; omega), hlow]
  exact toNatLE_ofNatLE_of_lt n.toNat_lt

theorem read_bytes (h : PayloadHeader) {rest : Bytes} (hrest : 5 ≤ rest.length) :
    read (h.bytes ++ rest) = .ok h := by
  have hlen : ¬(h.bytes ++ rest).length < Payload.headLen := by
    rw [List.length_append, length_bytes, identityLen, Payload.headLen]
    omega
  have hgroup : number (h.bytes ++ rest) (16 + 0) 2 = h.rangeGroupId.toNat := by
    simp only [bytes, List.append_assoc, number_append_add (length_ofNatLE _ _)]
    exact number_append h.rangeGroupId.toNat_lt _
  have hversion : number (h.bytes ++ rest) (16 + (2 + 0)) 4 = h.payloadVersion.toNat := by
    simp only [bytes, List.append_assoc, number_append_add (length_ofNatLE _ _)]
    exact number_append h.payloadVersion.toNat_lt _
  have hdb : number (h.bytes ++ rest) (16 + (2 + (4 + 0))) 4 = h.dbId.toNat := by
    simp only [bytes, List.append_assoc, number_append_add (length_ofNatLE _ _)]
    exact number_append h.dbId.toNat_lt _
  have htable : number (h.bytes ++ rest) (16 + (2 + (4 + (4 + 0)))) 8 = h.tableId.toNat := by
    simp only [bytes, List.append_assoc, number_append_add (length_ofNatLE _ _)]
    exact number_append h.tableId.toNat_lt _
  have hts : number (h.bytes ++ rest) (16 + (2 + (4 + (4 + (8 + 0))))) 4 = h.tsVersion.toNat := by
    simp only [bytes, List.append_assoc, number_append_add (length_ofNatLE _ _)]
    exact number_append h.tsVersion.toNat_lt _
  have hosn : number (h.bytes ++ rest) 0 8 = h.osnId.toNat := by
    simp only [bytes, List.append_assoc]
    exact number_first _ _
  rw [read, if_neg hlen, hosn]
  rw [Nat.add_zero] at hgroup hversion hdb htable hts
  rw [hgroup, hversion, hdb, htable, hts]
  simp only [UInt64.ofNat_toNat, UInt32.ofNat_toNat, UInt16.ofNat_toNat]

end PayloadHeader

namespace Packer

variable {p : Packer} {row first : List CellValue} {rows : List (List CellValue)}

/-! ## Tags -/

theorem lt_space_of_tags (hopens : p.Opens row)
    (htags : p.layout.tagSectionLen < space Payload.tagLenWidth) (k : Nat) :
    (Placement.entriesOf ((p.tagPlacements row).take k)).length < space 8 := by
  have hkept : ∀ q ∈ p.tagPlacements row, q.Kept := hopens.tags
  have hle := Placement.length_entriesOf_le hkept
  rw [map_slotWidth_tagPlacements hopens.arity] at hle
  have hprefix := Placement.length_entriesOf_take_le (p.tagPlacements row) k
  rw [Shape.tagSectionLen, Payload.tagSectionLen] at htags
  change _ < space 4 at htags
  rw [space_two] at hle
  rw [space_four] at htags
  rw [space_eight]
  omega

theorem tagSlot_tagView (ha : p.Arity row) {k : Nat} (hk : k < (p.tagPlacements row).length) :
    PayloadView.tagSlot p.layout.toShape (p.tagView row).slots (p.layout.tagIndex + k) =
      (p.tagPlacements row)[k].slot
        (Placement.entriesOf ((p.tagPlacements row).take k)).length := by
  have hslot := Placement.slice_slotsFrom 0 hk
  rw [Nat.zero_add, List.map_take, map_slotWidth_tagPlacements ha] at hslot
  rw [← hslot, PayloadView.tagSlot, PayloadView.slotAfter, Nat.add_sub_cancel_left,
    getElem_tagPlacements ha hk, List.map_take]
  rfl

theorem marked_tagView (ha : p.Arity row) {k : Nat} (hk : k < (p.tagPlacements row).length) :
    Bitmap.marked (p.tagView row).bitmap k = (p.tagPlacements row)[k].value.isNull := by
  refine Placement.marked_bitmapOf (fun i hi => ?_) (Nat.le_of_eq (length_tagPlacements ha)) hk
  rw [getElem_tagPlacements ha hi]

/-- The end of the tag entries is the end of the last one. -/
theorem entriesEnd_tagView (hopens : p.Opens row)
    (htags : p.layout.tagSectionLen < space Payload.tagLenWidth) (rest : Bytes) :
    PayloadView.entriesEnd p.layout.toShape (p.tagView row).bitmap (p.tagView row).slots
        ((p.tagView row).entries ++ rest) =
      .ok (p.tagView row).entries.length := by
  have ha := hopens.arity
  have hcount : (p.tagPlacements row).length = p.layout.numberedTags.length := by
    rw [length_tagPlacements ha, Shape.numberedTags, List.length_zipIdx]
  have hend : (p.tagView row).entries.length = (Placement.entriesOf
      ((p.tagPlacements row).take (0 + p.layout.numberedTags.length))).length := by
    rw [Nat.zero_add, ← hcount, List.take_length]
    rfl
  rw [PayloadView.entriesEnd, hend]
  refine Outcome.foldlM_ok
    (fun k => (Placement.entriesOf ((p.tagPlacements row).take k)).length) _ 0 fun k hk => ?_
  have hk' : k < (p.tagPlacements row).length := by rwa [hcount]
  have hnumber : p.layout.numberedTags[k].2 = p.layout.tagIndex + k := by
    simp only [Shape.numberedTags, List.getElem_zipIdx]
  have hisEntry : PayloadView.hasEntry p.layout.toShape (p.layout.tagIndex + k) =
      (p.tagPlacements row)[k].isEntry := by
    rw [getElem_tagPlacements ha hk']
    rfl
  have hkept := hopens.tags _ (List.getElem_mem hk')
  simp only [hnumber, Nat.add_sub_cancel_left, Nat.zero_add]
  rw [hisEntry, marked_tagView ha hk', tagSlot_tagView ha hk', ← hkept.hasEntry_eq]
  by_cases hentry : (p.tagPlacements row)[k].hasEntry = true
  · have hread := Placement.readEntry_entriesOf hk' hentry hkept rest
    have hoffset := Placement.offset_slot hentry hkept (lt_space_of_tags hopens htags k)
    have hmax : max (Placement.entriesOf ((p.tagPlacements row).take k)).length
        (Placement.entriesOf ((p.tagPlacements row).take (k + 1))).length =
        (Placement.entriesOf ((p.tagPlacements row).take (k + 1))).length := by
      rw [Placement.entriesOf_take_succ hk', List.length_append]
      exact Nat.max_eq_right (Nat.le_add_right _ _)
    rw [if_pos hentry, hoffset]
    show readEntry (Placement.entriesOf (p.tagPlacements row) ++ rest) _ >>= _ = _
    rw [hread]
    exact congrArg Except.ok hmax
  · rw [if_neg hentry, Placement.entriesOf_take_succ hk', Placement.entry, if_neg hentry,
      List.append_nil]
    rfl

/-! ## Rows -/

/-- The rows behind each other, and what stands behind them. -/
theorem readRows_blocks (htakes : ∀ row ∈ rows, p.Takes row) (number : Nat) (done : List RowView)
    (total position : Nat) (rest : Bytes) :
    PayloadView.readRows p.layout.toShape number done rows.length
        ⟨total, position, p.blocks rows ++ rest⟩ =
      .ok (done.reverse ++ rows.map p.fieldView,
        ⟨total, position + (p.blocks rows).length, rest⟩) := by
  induction rows generalizing number done position with
  | nil => rw [List.map_nil, List.append_nil]; rfl
  | cons row rows ih =>
    obtain ⟨hrow, hrows⟩ := List.forall_mem_cons.1 htakes
    have hlen : (p.fieldView row).bytes.length =
        p.layout.rowFixedLen + (p.fieldView row).entries.length :=
      length_fieldView hrow.arity
    have hbitmap : (p.fieldView row).bitmap.length = Bitmap.size p.layout.fields.length :=
      Placement.length_bitmapOf _ _
    have hslots : (p.fieldView row).slots.length = p.layout.rowSize := by
      rw [fieldView, Placement.view, Placement.length_slotsFrom,
        map_slotWidth_fieldPlacements hrow.arity]
      rfl
    have hview : ({ bitmap := (p.fieldView row).bytes.take (Bitmap.size p.layout.fields.length)
                    slots := (p.fieldView row).bytes.slice (Bitmap.size p.layout.fields.length)
                      p.layout.rowSize
                    entries := (p.fieldView row).bytes.drop p.layout.rowFixedLen } : RowView) =
        p.fieldView row := by
      rw [Shape.rowFixedLen, ← hbitmap, ← hslots, RowView.bytes, List.append_assoc, slice_append,
        List.take_left, ← List.append_assoc, ← List.length_append, List.drop_left]
    have hdeclared : toNatLE (ofNatLE Payload.rowLenWidth (p.fieldView row).bytes.length) =
        (p.fieldView row).bytes.length := toNatLE_ofNatLE_of_lt hrow.length_lt
    have hshape : p.blocks (row :: rows) ++ rest =
        ofNatLE Payload.rowLenWidth (p.fieldView row).bytes.length ++
          ((p.fieldView row).bytes ++ (p.blocks rows ++ rest)) := by
      simp only [blocks, block, List.flatMap_cons, List.append_assoc]
    have hposition : position + Payload.rowLenWidth + (p.fieldView row).bytes.length +
        (p.blocks rows).length = position + (p.blocks (row :: rows)).length := by
      simp only [blocks, block, List.flatMap_cons, List.length_append, length_ofNatLE]
      omega
    have hih := ih hrows (number + 1) (p.fieldView row :: done)
      (position + Payload.rowLenWidth + (p.fieldView row).bytes.length)
    rw [List.length_cons, PayloadView.readRows, hshape,
      PayloadCursor.take_append (length_ofNatLE _ _)]
    show WireError.inCell number 0 (PayloadCursor.take _ "row body" (toNatLE _)) >>= _ = _
    rw [hdeclared, PayloadCursor.take_append rfl]
    show (if (p.fieldView row).bytes.length < p.layout.rowFixedLen then _ else
      PayloadView.readRows p.layout.toShape (number + 1) (_ :: done) rows.length _) = _
    rw [if_neg (by omega), hview, hih, hposition, List.reverse_cons, List.append_assoc,
      List.singleton_append, List.map_cons]

/-! ## Payloads -/

/-- What a reader sees of a payload that was opened by `first` and holds `rows`. -/
def viewOf (p : Packer) (first : List CellValue) (rows : List (List CellValue)) : PayloadView :=
  { layout := p.layout
    header := p.header
    rowNum := rows.length
    rowType := rowType (p.tagPlacements first)
    primaryTag := p.primaryTag first
    tags := p.tagView first
    rows := rows.map p.fieldView }

theorem primaryLen_lt (l : Layout) : l.primaryLen < space Payload.primaryLenWidth := by
  obtain ⟨-, -, -, hlt⟩ := Shape.fault_eq_none.1 l.faultless
  exact hlt

def behindType (p : Packer) (first : List CellValue) (dataLen : Bytes)
    (rows : List (List CellValue)) : Bytes :=
  ofNatLE Payload.primaryLenWidth p.layout.primaryLen ++
    (p.primaryTag first ++ (ofNatLE Payload.tagLenWidth p.layout.tagSectionLen ++
      ((p.tagView first).bitmap ++ ((p.tagView first).slots ++ ((p.tagView first).entries ++
        (dataLen ++ p.blocks rows))))))

theorem laidOut_eq (p : Packer) (count : Bytes) (first : List CellValue) (dataLen : Bytes)
    (rows : List (List CellValue)) :
    p.laidOut count first dataLen rows =
      p.header.bytes ++ (count ++ ((rowType (p.tagPlacements first)).byte ::
        p.behindType first dataLen rows)) := by
  simp only [laidOut, headRest, behindType, RowView.bytes, List.append_assoc, List.cons_append,
    List.nil_append]

theorem parse_laidOut (hopens : p.Opens first) (htakes : ∀ row ∈ rows, p.Takes row)
    (htags : p.layout.tagSectionLen < space Payload.tagLenWidth) (hrows : rows.length < space 4)
    (hlen : (p.blocks rows).length < space Payload.dataLenWidth) :
    PayloadView.parse p.layout
        (p.laidOut (ofNatLE 4 rows.length) first
          (ofNatLE Payload.dataLenWidth (p.blocks rows).length) rows) =
      .ok (p.viewOf first rows) := by
  have hhead := PayloadHeader.length_bytes p.header
  have hcount := length_ofNatLE 4 rows.length
  have hprimary := toNatLE_ofNatLE_of_lt (primaryLen_lt p.layout)
  have htagLen := toNatLE_ofNatLE_of_lt htags
  have hdataLen := toNatLE_ofNatLE_of_lt hlen
  have hbitmap : (p.tagView first).bitmap.length = Bitmap.size p.layout.tags.length :=
    Placement.length_bitmapOf _ _
  have hslots : (p.tagView first).slots.length =
      p.layout.tagSectionLen - Bitmap.size p.layout.tags.length := by
    rw [tagView, Placement.view, Placement.length_slotsFrom,
      map_slotWidth_tagPlacements hopens.arity, Shape.tagSectionLen, Payload.tagSectionLen,
      List.length_map, Nat.add_sub_cancel_left]
  rw [laidOut_eq]
  generalize hbehind : p.behindType first _ rows = behind
  have hread : PayloadHeader.read (p.header.bytes ++ (ofNatLE 4 rows.length ++
      ((rowType (p.tagPlacements first)).byte :: behind))) = .ok p.header := by
    apply PayloadHeader.read_bytes
    rw [List.length_append, List.length_cons, hcount]
    omega
  have hnumber : PayloadHeader.number (p.header.bytes ++ (ofNatLE 4 rows.length ++
      ((rowType (p.tagPlacements first)).byte :: behind))) PayloadHeader.identityLen 4 =
      rows.length := by
    rw [← Nat.add_zero PayloadHeader.identityLen, PayloadHeader.number_append_add hhead,
      PayloadHeader.number_append hrows]
  have htype : (p.header.bytes ++ (ofNatLE 4 rows.length ++
      ((rowType (p.tagPlacements first)).byte :: behind))).getD (Payload.headLen - 1) 0 =
      (rowType (p.tagPlacements first)).byte := by
    rw [PayloadHeader.identityLen] at hhead
    rw [List.getD_append_right _ _ _ _ (by rw [hhead]; decide), hhead,
      List.getD_append_right _ _ _ _ (by rw [hcount]; decide), hcount]
    rfl
  have hdrop : (p.header.bytes ++ (ofNatLE 4 rows.length ++
      ((rowType (p.tagPlacements first)).byte :: behind))).drop Payload.headLen = behind := by
    rw [PayloadHeader.identityLen] at hhead
    rw [← List.append_assoc, ← List.singleton_append, ← List.append_assoc]
    apply List.drop_left'
    rw [List.length_append, List.length_append, hhead, hcount]
    rfl
  simp only [PayloadView.parse, hread, hnumber, htype, hdrop, RowType.ofByte_byte, Outcome.ok_bind]
  rw [← hbehind, behindType, PayloadCursor.take_append (length_ofNatLE _ _)]
  simp only [Outcome.ok_bind, hprimary, if_false, ne_eq, not_true_eq_false]
  rw [PayloadCursor.take_append (p.length_primaryTag first)]
  simp only [Outcome.ok_bind]
  rw [PayloadCursor.take_append (length_ofNatLE _ _)]
  simp only [Outcome.ok_bind, htagLen, if_false, not_true_eq_false]
  rw [PayloadCursor.take_append hbitmap]
  simp only [Outcome.ok_bind]
  rw [PayloadCursor.take_append hslots]
  simp only [Outcome.ok_bind]
  rw [entriesEnd_tagView hopens htags]
  simp only [Outcome.ok_bind]
  rw [PayloadCursor.take_append rfl]
  simp only [Outcome.ok_bind]
  rw [PayloadCursor.take_append (length_ofNatLE _ _)]
  simp only [Outcome.ok_bind, hdataLen, if_false, not_true_eq_false]
  have hwalk := readRows_blocks htakes 0 []
  rw [← List.append_nil (p.blocks rows), hwalk]
  simp only [Outcome.ok_bind, if_false, not_true_eq_false]
  rfl

end Packer
end SeriesWire
