/-
Rows are written in place as they are computed.  A header is not written from front to
back: its place is cleared first, and the length of the tags and the type of the row are
written when the rest is done.  `headed` are the bytes of a buffer at any point of this.
With `fillRow_eq` what is known of computed rows holds of the steps: which rows are accepted
(`accepts_storable`), and that none of the steps reaches outside.
-/
import SeriesWire.Proofs.Payload.History
import SeriesWire.Proofs.Payload.InBounds

namespace SeriesWire

open Bytes

namespace Section

theorem length_bitmap_lay (row : Nat) (s : Section) (qs : List Placement) :
    (s.lay row qs).1.bitmap.length = s.bitmap.length := by
  induction qs generalizing s with
  | nil => rfl
  | cons q qs ih =>
    rw [lay]
    cases hput : s.put q with
    | error e => rfl
    | ok s' =>
      obtain ⟨-, rfl⟩ := put_ok hput
      dsimp only
      rw [ih]
      split
      · exact Bitmap.length_mark _ _
      · rfl

theorem length_bitmap_of_lay {columns room row : Nat} {s : Section} {qs : List Placement}
    {outcome : Except WireError Unit} (h : (empty columns room).lay row qs = (s, outcome)) :
    s.bitmap.length = Bitmap.size columns := by
  have hlen := (empty columns room).length_bitmap_lay row qs
  rwa [h, empty, length_zeros] at hlen

end Section

namespace InPlace

variable {p : Packer} {row : List CellValue} {data rest primary : Bytes} {rowType : UInt8}
  {tags : Section} {index tagLen i : Nat}

/-! ## Columns -/

theorem takes_tagStrip (ha : p.Arity row) (htag : p.layout.tagIndex ≤ i)
    (hi : i < p.layout.columns.length) :
    (tagStrip p.layout.toShape).Takes p.layout.toShape row (Bitmap.size p.layout.tags.length) i
      (p.tagPlacement row i) where
  column := getElem?_columns hi
  value := getElem?_row ha hi
  number := rfl
  first := htag
  bit := rfl
  bit_lt := Bitmap.lt_size (Shape.sub_tagIndex_lt htag hi)
  width := rfl
  primary := rfl
  hasSlot := Packer.hasSlot_tagPlacement htag hi
  advance := fun _ _ _ _ => rfl

theorem takes_fieldStrip (ha : p.Arity row) (hi : i < p.layout.tagIndex) (start : Nat) :
    (fieldStrip p.layout.toShape start).Takes p.layout.toShape row
      (Bitmap.size p.layout.fields.length) i (p.fieldPlacement row i) where
  column := getElem?_columns (Shape.lt_length_columns hi)
  value := getElem?_row ha (Shape.lt_length_columns hi)
  number := rfl
  first := Nat.zero_le i
  bit := rfl
  bit_lt := Bitmap.lt_size hi
  width := rfl
  primary := rfl
  hasSlot := p.hasSlot_fieldPlacement row i
  advance := fun _ _ hv hstore => Packer.width_fieldPlacement hv hstore

/-- Whether there is a tag that is not missing. -/
theorem rowType_any (qs : List Placement) :
    (if qs.any fun q => !q.value.isNull then RowType.tagsAndData else .dataOnly) =
      Packer.rowType qs := by
  have hany : (qs.any fun q => !q.value.isNull) = !qs.all (·.value.isNull) := by
    rw [List.any_eq_not_all_not]
    simp only [Bool.not_not]
  rw [hany, Packer.rowType]
  cases qs.all (·.value.isNull) <;> rfl

/-! ## Headers -/

/-- A header, as far as it is written, and what it has not yet taken of the bytes `rest`
behind its slots. -/
def headed (p : Packer) (rowType : UInt8) (primary : Bytes) (tagLen : Nat) (tags : Section)
    (rest : Bytes) : Bytes :=
  p.headerBytes rowType primary tagLen tags ++ rest.drop tags.entries.length

/-- The head of a payload, without the number of rows. -/
def head (p : Packer) (rowType : UInt8) : Bytes := p.header.bytes ++ (zeros 4 ++ [rowType])

theorem length_head (p : Packer) (rowType : UInt8) : (head p rowType).length = Payload.headLen := by
  rw [head, List.length_append, PayloadHeader.length_bytes]
  rfl

/-- The head, and the length of the primary tag. -/
def opening (p : Packer) (rowType : UInt8) : Bytes :=
  head p rowType ++ ofNatLE Payload.primaryLenWidth p.layout.primaryLen

theorem length_opening (p : Packer) (rowType : UInt8) :
    (opening p rowType).length = Payload.headLen + Payload.primaryLenWidth := by
  rw [opening, List.length_append, length_head, length_ofNatLE]

/-- Everything in front of the tags. -/
def untilTags (p : Packer) (rowType : UInt8) (primary : Bytes) (tagLen : Nat) : Bytes :=
  opening p rowType ++ (primary.fit p.layout.primaryLen ++ ofNatLE Payload.tagLenWidth tagLen)

theorem length_untilTags (p : Packer) (rowType : UInt8) (primary : Bytes) (tagLen : Nat) :
    (untilTags p rowType primary tagLen).length = p.layout.tagStart := by
  rw [untilTags, List.length_append, List.length_append, length_opening, length_fit, length_ofNatLE,
    Guarded.tagStart_eq, Nat.add_assoc _ p.layout.primaryLen]

theorem headed_eq_over :
    headed p rowType primary tagLen tags rest =
      tags.over (untilTags p rowType primary tagLen) (totalLen (p.layout.tags.map (·.width)))
        rest := by
  simp only [headed, Packer.headerBytes, Section.over, Section.bytes, untilTags, opening, head,
    List.append_assoc]

theorem headed_eq_primary :
    headed p rowType primary tagLen tags rest =
      opening p rowType ++ (primary.fit p.layout.primaryLen ++
        (ofNatLE Payload.tagLenWidth tagLen ++
          (tags.bytes (totalLen (p.layout.tags.map (·.width))) ++
            rest.drop tags.entries.length))) := by
  simp only [headed, Packer.headerBytes, opening, head, List.append_assoc]

theorem length_headerBytes (h : tags.bitmap.length = Bitmap.size p.layout.tags.length) :
    (p.headerBytes rowType primary tagLen tags).length =
      p.layout.varStart + tags.entries.length := by
  have hfront := length_untilTags p rowType primary tagLen
  simp only [untilTags, opening, head, List.length_append, length_fit] at hfront
  simp only [Packer.headerBytes, Section.bytes, List.length_append, length_fit, h,
    Guarded.varStart_eq, ← hfront]
  omega

/-- A computed header takes the place of what stood there. -/
theorem overwrite_headerBytes (h : tags.bitmap.length = Bitmap.size p.layout.tags.length) :
    data.overwrite 0 (p.headerBytes rowType primary tagLen tags) =
      headed p rowType primary tagLen tags (data.drop p.layout.varStart) := by
  rw [overwrite, length_headerBytes h, Nat.zero_add, List.take_zero, List.nil_append,
    ← List.drop_drop]
  rfl

theorem on_openHeader (h : p.layout.varStart ≤ data.length) (room : Nat) :
    (openHeader p).on data =
      some (.ok (), headed p 0 [] 0 (.empty p.layout.tags.length room)
        (data.drop p.layout.varStart)) := by
  let blank := zeros p.layout.primaryLen ++ (zeros Payload.tagLenWidth ++
    (zeros (Bitmap.size p.layout.tags.length) ++ zeros (totalLen (p.layout.tags.map (·.width)))))
  have hzeros : zeros p.layout.varStart =
      zeros Payload.headLen ++ (zeros Payload.primaryLenWidth ++ blank) := by
    rw [Guarded.varStart_eq, Guarded.tagStart_eq]
    simp only [zeros_add, blank, List.append_assoc]
  have hclear : (clear 0 p.layout.varStart).on data =
      some (.ok (), zeros p.layout.varStart ++ data.drop p.layout.varStart) := by
    have hfront : (data.take p.layout.varStart).length = p.layout.varStart :=
      List.length_take_of_le h
    have hsteps := on_clear (a := []) (r := data.drop p.layout.varStart) rfl
      ((Nat.zero_add _).trans hfront)
    rwa [List.nil_append, List.take_append_drop, hfront] at hsteps
  have hstamp : p.header.stamp? (zeros Payload.headLen) = some (head p 0) := by
    rw [PayloadHeader.stamp?, if_neg (by rw [length_zeros]; decide), overwrite,
      PayloadHeader.length_bytes]
    rfl
  generalize hrest : data.drop p.layout.varStart = rest at hclear ⊢
  have hcut : (cut 0 Payload.headLen).on
      (zeros Payload.headLen ++ ((zeros Payload.primaryLenWidth ++ blank) ++ rest)) =
        some (.ok (zeros Payload.headLen),
          zeros Payload.headLen ++ ((zeros Payload.primaryLenWidth ++ blank) ++ rest)) :=
    on_cut_front (length_zeros _)
  have hhead : (copy 0 Payload.headLen (head p 0)).on
      (zeros Payload.headLen ++ ((zeros Payload.primaryLenWidth ++ blank) ++ rest)) =
        some (.ok (), head p 0 ++ ((zeros Payload.primaryLenWidth ++ blank) ++ rest)) :=
    on_copy_front (length_zeros _) (by rw [length_head, length_zeros])
  have hlen : (copy Payload.headLen (Payload.headLen + Payload.primaryLenWidth)
        (ofNatLE Payload.primaryLenWidth p.layout.primaryLen)).on
      (head p 0 ++ (zeros Payload.primaryLenWidth ++ (blank ++ rest))) =
        some (.ok (), head p 0 ++
          (ofNatLE Payload.primaryLenWidth p.layout.primaryLen ++ (blank ++ rest))) :=
    on_copy (length_head p 0) (by rw [length_zeros]) (by rw [length_zeros, length_ofNatLE])
  rw [openHeader, on_bind_ok hclear, hzeros, List.append_assoc, on_bind_ok hcut,
    on_reach_bind hstamp, on_bind_ok hhead, List.append_assoc, hlen, headed_eq_primary,
    Section.bytes, Section.empty, fit_nil, fit_nil, opening]
  simp only [blank, List.append_assoc]
  rfl

theorem on_tagLen (n : Nat) :
    (copy (Payload.headLen + Payload.primaryLenWidth + p.layout.primaryLen) p.layout.tagStart
        (ofNatLE Payload.tagLenWidth n)).on (headed p rowType primary tagLen tags rest) =
      some (.ok (), headed p rowType primary n tags rest) := by
  have hsplit : ∀ n, headed p rowType primary n tags rest =
      (opening p rowType ++ primary.fit p.layout.primaryLen) ++
        (ofNatLE Payload.tagLenWidth n ++
          (tags.bytes (totalLen (p.layout.tags.map (·.width))) ++
            rest.drop tags.entries.length)) := by
    intro n
    rw [headed_eq_primary, List.append_assoc]
  rw [hsplit, hsplit]
  exact on_copy (by rw [List.length_append, length_opening, length_fit])
    (by rw [length_ofNatLE, Guarded.tagStart_eq]) (by rw [length_ofNatLE, length_ofNatLE])

theorem on_rowType (byte : UInt8) :
    (copy (Payload.headLen - 1) Payload.headLen [byte]).on
        (headed p rowType primary tagLen tags rest) =
      some (.ok (), headed p byte primary tagLen tags rest) := by
  have hsplit : ∀ byte, headed p byte primary tagLen tags rest =
      (p.header.bytes ++ zeros 4) ++ ([byte] ++
        (ofNatLE Payload.primaryLenWidth p.layout.primaryLen ++
          (primary.fit p.layout.primaryLen ++ (ofNatLE Payload.tagLenWidth tagLen ++
            (tags.bytes (totalLen (p.layout.tags.map (·.width))) ++
              rest.drop tags.entries.length))))) := by
    intro byte
    simp only [headed_eq_primary, opening, head, List.append_assoc]
  rw [hsplit, hsplit]
  exact on_copy (by rw [List.length_append, PayloadHeader.length_bytes]; rfl) rfl rfl

theorem on_headed_primaries (ha : p.Arity row) (index : Nat) (tags : Section) (rest : Bytes) :
    (primaries p.layout.toShape row index p.layout.primaryTags
        (Payload.headLen + Payload.primaryLenWidth)).on (headed p 0 [] 0 tags rest) =
      match p.primaryBytes row index [] p.layout.primaryTags with
      | (done, .ok ()) => some (.ok (), headed p 0 done 0 tags rest)
      | (done, .error e) => some (.error e, headed p 0 done 0 tags rest) := by
  simp only [headed_eq_primary]
  have hwidth : ([] : Bytes).length +
      totalLen (p.layout.primaryTags.map fun i => (p.layout.column i).width) ≤
        p.layout.primaryLen := Nat.le_of_eq (Nat.zero_add _)
  exact on_primaries ha (fun _ hi => hi) (length_opening p 0) hwidth index _

theorem on_headed_values (ha : p.Arity row) (index : Nat) (primary : Bytes)
    (hroom : totalLen ((p.tagPlacements row).map (·.entryRoom)) ≤ rest.length) :
    (values p.layout.toShape (tagStrip p.layout.toShape) row index
        (List.range' p.layout.tagIndex (p.layout.columns.length - p.layout.tagIndex))
        (tagStrip p.layout.toShape).slots 0 false).on
        (headed p 0 primary 0 (.empty p.layout.tags.length rest.length) rest) =
      match (Section.empty p.layout.tags.length rest.length).lay index (p.tagPlacements row) with
      | (done, .ok ()) =>
        some (.ok (done.entries.length, (p.tagPlacements row).any fun q => !q.value.isNull),
          headed p 0 primary 0 done rest)
      | (done, .error e) => some (.error e, headed p 0 primary 0 done rest) := by
  have hslots : (tagStrip p.layout.toShape).bitmap + Bitmap.size p.layout.tags.length =
      (tagStrip p.layout.toShape).slots := by
    rw [tagStrip, Shape.length_sub_tagIndex]
  have hlimit : (tagStrip p.layout.toShape).slots + totalLen (p.layout.tags.map (·.width)) =
      (tagStrip p.layout.toShape).limit := by
    rw [← hslots]
    exact (Guarded.varStart_eq p.layout).symm
  have htakes : ∀ i ∈ List.range' p.layout.tagIndex p.layout.tags.length,
      (tagStrip p.layout.toShape).Takes p.layout.toShape row (Bitmap.size p.layout.tags.length) i
        (p.tagPlacement row i) := by
    intro i hi
    obtain ⟨htag, hi⟩ := List.mem_range'_1.1 hi
    rw [← Shape.length_columns] at hi
    exact takes_tagStrip ha htag hi
  have hwidth := congrArg totalLen (Packer.map_slotWidth_tagPlacements ha)
  rw [Packer.tagPlacements_eq ha] at hwidth hroom ⊢
  simp only [headed_eq_over]
  rw [Shape.length_sub_tagIndex]
  exact on_values_empty (length_untilTags p 0 primary 0) hslots hlimit htakes hwidth hroom index

theorem on_header (ha : p.Arity row) (h : p.headerLen row ≤ data.length) (index : Nat) :
    (header p row index).on data =
      match p.headerBlock row index data.length with
      | (block, .ok ()) => some (.ok block.length, data.overwrite 0 block)
      | (block, .error e) => some (.error e, data.overwrite 0 block) := by
  have hneeded : p.layout.varStart + totalLen ((p.tagPlacements row).map (·.entryRoom)) ≤
      data.length := h
  have hopen := on_openHeader (show p.layout.varStart ≤ data.length by omega)
    (data.length - p.layout.varStart)
  generalize hrest : data.drop p.layout.varStart = rest at hopen
  have hlen : rest.length = data.length - p.layout.varStart := by rw [← hrest, List.length_drop]
  have hroom : totalLen ((p.tagPlacements row).map (·.entryRoom)) ≤ rest.length := by omega
  rw [← hlen] at hopen
  have hprimaries := on_headed_primaries ha index (.empty p.layout.tags.length rest.length) rest
  simp only [Packer.headerBlock, ← hlen]
  rw [header]
  dsimp only
  rw [on_bind_ok hopen]
  cases hprimary : p.primaryBytes row index [] p.layout.primaryTags with
  | mk primary outcome =>
    rw [hprimary] at hprimaries
    cases outcome with
    | error e =>
      rw [on_bind_error hprimaries]
      dsimp only
      rw [overwrite_headerBytes (length_zeros _), hrest]
    | ok done =>
      have hvalues := on_headed_values ha index primary hroom
      rw [on_bind_ok hprimaries]
      dsimp only
      cases hlay : (Section.empty p.layout.tags.length rest.length).lay index
          (p.tagPlacements row) with
      | mk tags outcome =>
        have htags := Section.length_bitmap_of_lay hlay
        rw [hlay] at hvalues
        cases outcome with
        | error e =>
          rw [on_bind_error hvalues]
          dsimp only
          rw [overwrite_headerBytes htags, hrest]
        | ok done =>
          rw [on_bind_ok hvalues]
          dsimp only
          rw [on_reach_bind (Guarded.minus?_tagStart p.layout), on_bind_ok (on_tagLen _),
            rowType_any, on_bind_ok (on_rowType _), overwrite_headerBytes htags, hrest,
            length_headerBytes htags]
          rfl

/-! ## Rows -/

variable {start : Nat} {fields : Section} {len : Bytes}

/-- Where the entries of a row start. -/
theorem limit_fieldStrip (s : Shape) (start : Nat) :
    (fieldStrip s start).limit = start + (Payload.rowLenWidth + s.rowFixedLen) := by
  simp only [fieldStrip, Shape.rowFixedLen, Shape.tagIndex, Nat.add_assoc]

theorem length_rowBytes (hlen : len.length = Payload.rowLenWidth)
    (h : fields.bitmap.length = Bitmap.size p.layout.fields.length) :
    (len ++ fields.bytes p.layout.rowSize).length =
      Payload.rowLenWidth + p.layout.rowFixedLen + fields.entries.length := by
  simp only [Section.bytes, List.length_append, length_fit, hlen, h, Shape.rowFixedLen]
  omega

/-- A computed row takes the place of what stood there. -/
theorem overwrite_rowBytes (start : Nat) (hlen : len.length = Payload.rowLenWidth)
    (h : fields.bitmap.length = Bitmap.size p.layout.fields.length) :
    data.overwrite start (len ++ fields.bytes p.layout.rowSize) =
      fields.over (data.take start ++ len) p.layout.rowSize
        (data.drop (fieldStrip p.layout.toShape start).limit) := by
  rw [overwrite, length_rowBytes hlen h, limit_fieldStrip, Section.over, List.drop_drop,
    Section.bytes]
  simp only [List.append_assoc, Nat.add_assoc]

theorem on_clearRow (h : (fieldStrip p.layout.toShape start).limit ≤ data.length) (room : Nat) :
    (clear start (fieldStrip p.layout.toShape start).limit).on data =
      some (.ok (), (Section.empty p.layout.fields.length room).over
        (data.take start ++ zeros Payload.rowLenWidth) p.layout.rowSize
        (data.drop (fieldStrip p.layout.toShape start).limit)) := by
  have hlimit := limit_fieldStrip p.layout.toShape start
  rw [hlimit] at h ⊢
  generalize hlen : Payload.rowLenWidth + p.layout.rowFixedLen = len at h
  have hold : (data.slice start len).length = len := length_slice_of_le h
  have hfront : (data.take start).length = start := List.length_take_of_le (by omega)
  have hclear := on_clear (r := data.drop (start + len)) hfront
    (show start + (data.slice start len).length = start + len by rw [hold])
  rw [← drop_eq_slice_append, List.take_append_drop] at hclear
  rw [hclear, hold, ← hlen, Section.over, Section.empty, fit_nil, Shape.rowFixedLen]
  simp only [zeros_add, List.append_assoc]
  rfl

theorem on_fields (ha : p.Arity row) (hstart : start ≤ data.length) (index : Nat)
    (hroom : totalLen ((p.fieldPlacements row).map (·.entryRoom)) ≤ rest.length) :
    (values p.layout.toShape (fieldStrip p.layout.toShape start) row index
        (List.range' 0 p.layout.tagIndex) (fieldStrip p.layout.toShape start).slots 0 false).on
        ((Section.empty p.layout.fields.length rest.length).over
          (data.take start ++ zeros Payload.rowLenWidth) p.layout.rowSize rest) =
      match (Section.empty p.layout.fields.length rest.length).lay index
          (p.fieldPlacements row) with
      | (done, .ok ()) =>
        some (.ok (done.entries.length, (p.fieldPlacements row).any fun q => !q.value.isNull),
          done.over (data.take start ++ zeros Payload.rowLenWidth) p.layout.rowSize rest)
      | (done, .error e) =>
        some (.error e,
          done.over (data.take start ++ zeros Payload.rowLenWidth) p.layout.rowSize rest) := by
  have hfront : (data.take start ++ zeros Payload.rowLenWidth).length =
      (fieldStrip p.layout.toShape start).bitmap := by
    rw [List.length_append, List.length_take_of_le hstart, length_zeros]
    rfl
  have htakes : ∀ i ∈ List.range' 0 p.layout.fields.length,
      (fieldStrip p.layout.toShape start).Takes p.layout.toShape row
        (Bitmap.size p.layout.fields.length) i (p.fieldPlacement row i) := by
    intro i hi
    have hlt := (List.mem_range'_1.1 hi).2
    rw [Nat.zero_add] at hlt
    exact takes_fieldStrip ha hlt start
  have hwidth := congrArg totalLen (Packer.map_slotWidth_fieldPlacements ha)
  rw [Packer.fieldPlacements_eq ha] at hwidth hroom ⊢
  exact on_values_empty hfront rfl rfl htakes hwidth hroom index

theorem on_rowLen (s : Shape) (hstart : start ≤ data.length)
    (hlen : len.length = Payload.rowLenWidth) (width : Nat) :
    (copy start (fieldStrip s start).bitmap len).on
        (fields.over (data.take start ++ zeros Payload.rowLenWidth) width rest) =
      some (.ok (), fields.over (data.take start ++ len) width rest) := by
  rw [Section.over, Section.over, List.append_assoc, List.append_assoc]
  exact on_copy (List.length_take_of_le hstart) (by rw [length_zeros]; rfl)
    (by rw [hlen, length_zeros])

theorem on_block (ha : p.Arity row) (h : start + Payload.rowLenWidth + p.rowLen row ≤ data.length)
    (index : Nat) :
    (block p row index start).on data =
      match p.rowBlock row index (data.length - start) with
      | (laid, .ok ()) => some (.ok (start + laid.length), data.overwrite start laid)
      | (laid, .error e) => some (.error e, data.overwrite start laid) := by
  have hlimit := limit_fieldStrip p.layout.toShape start
  have hrooms := p.entryRooms_le_rowLen row
  generalize hrest : data.drop (fieldStrip p.layout.toShape start).limit = rest
  have hlen : rest.length =
      data.length - start - (Payload.rowLenWidth + p.layout.rowFixedLen) := by
    rw [← hrest, List.length_drop, hlimit]
    omega
  have hstart : start ≤ data.length := by omega
  have hroom : totalLen ((p.fieldPlacements row).map (·.entryRoom)) ≤ rest.length := by omega
  have hclear := on_clearRow (show (fieldStrip p.layout.toShape start).limit ≤ data.length by omega)
    rest.length
  have hfields := on_fields ha hstart index hroom
  rw [hrest] at hclear
  simp only [Packer.rowBlock, ← hlen]
  rw [block]
  dsimp only
  rw [on_bind_ok hclear]
  cases hlay : (Section.empty p.layout.fields.length rest.length).lay index
      (p.fieldPlacements row) with
  | mk fields outcome =>
    have hbitmap := Section.length_bitmap_of_lay hlay
    have hbody : (fields.bytes p.layout.rowSize).length =
        Bitmap.size p.layout.tagIndex + p.layout.rowSize + fields.entries.length := by
      rw [Section.bytes, List.length_append, List.length_append, length_fit, hbitmap]
      rfl
    rw [hlay] at hfields
    cases outcome with
    | error e =>
      rw [on_bind_error hfields]
      dsimp only
      rw [overwrite_rowBytes start (length_zeros _) hbitmap, hrest]
    | ok done =>
      rw [on_bind_ok hfields]
      dsimp only
      rw [hbody]
      split
      next =>
        dsimp only
        rw [overwrite_rowBytes start (length_zeros _) hbitmap, hrest]
        rfl
      next =>
        dsimp only
        rw [on_bind_ok (on_rowLen _ hstart (length_ofNatLE _ _) _),
          length_rowBytes (length_ofNatLE _ _) hbitmap,
          overwrite_rowBytes start (length_ofNatLE _ _) hbitmap, hrest, ← Nat.add_assoc, ← hlimit]
        rfl

/-! ## Buffers -/

variable {b : PayloadBuffer}

theorem entriesLen?_eq (ha : p.Arity row) (skip : Nat → Bool) {numbers : List Nat}
    (h : ∀ i ∈ numbers, i < p.layout.columns.length) :
    entriesLen? p.layout.toShape skip row numbers =
      some (totalLen (numbers.map fun i =>
        if skip i then 0 else Packer.entryLen (p.layout.column i).type (row.getD i .null))) := by
  have hlengths : (numbers.mapM fun i =>
      if skip i then some 0
      else do
        let column ← p.layout.columns[i]?
        let value ← row[i]?
        return Packer.entryLen column.type value) =
      some (numbers.map fun i =>
        if skip i then 0 else Packer.entryLen (p.layout.column i).type (row.getD i .null)) := by
    induction numbers with
    | nil => rfl
    | cons i numbers ih =>
      obtain ⟨hi, hnumbers⟩ := List.forall_mem_cons.1 h
      rw [List.mapM_cons, ih hnumbers, getElem?_columns hi, getElem?_row ha hi, List.map_cons]
      cases skip i <;> rfl
  rw [entriesLen?, hlengths]
  rfl

theorem entriesLen?_tags (ha : p.Arity row) :
    ∃ n, p.layout.varStart + n = p.headerLen row ∧
      entriesLen? p.layout.toShape p.layout.isPrimary row
        (List.range' p.layout.tagIndex (p.layout.columns.length - p.layout.tagIndex)) = some n := by
  refine ⟨_, ?_, entriesLen?_eq ha p.layout.isPrimary fun i hi => ?_⟩
  · rw [Packer.headerLen, Packer.tagPlacements_eq ha, List.map_map, Shape.length_sub_tagIndex]
    rfl
  · have hmem := List.mem_range'_1.1 hi
    omega

theorem entriesLen?_fields (ha : p.Arity row) :
    ∃ n, p.layout.rowFixedLen + n = p.rowLen row ∧
      entriesLen? p.layout.toShape (fun _ => false) row (List.range' 0 p.layout.tagIndex) =
        some n := by
  refine ⟨_, ?_, entriesLen?_eq ha (fun _ => false) fun i hi => ?_⟩
  · rw [Packer.rowLen, Packer.fieldPlacements_eq ha, List.map_map]
    rfl
  · have hlt := (List.mem_range'_1.1 hi).2
    rw [Nat.zero_add] at hlt
    exact Shape.lt_length_columns hlt

theorem writeHeader_eq (ha : p.Arity row) :
    InPlace.writeHeader p b row = some (p.writeHeader b row) := by
  obtain ⟨n, hlen, hentries⟩ := entriesLen?_tags ha
  have hroom := b.le_capacity_ensure (p.headerLen row + Payload.dataLenWidth) p.extendStep
  rw [InPlace.writeHeader]
  dsimp only
  rw [hentries]
  show ((header p row _).on _ >>= _) = _
  rw [hlen, on_header ha (Nat.le_trans (Nat.le_add_right _ _) hroom), Packer.writeHeader]
  dsimp only [PayloadBuffer.capacity]
  generalize b.ensure (p.headerLen row + Payload.dataLenWidth) p.extendStep = grown
  cases p.headerBlock row grown.rowNum grown.data.length with
  | mk laid outcome => cases outcome <;> rfl

theorem writeRow_eq (ha : p.Arity row) :
    InPlace.writeRow p b row = some (p.writeRow b row) := by
  obtain ⟨n, hlen, hentries⟩ := entriesLen?_fields ha
  have hroom := b.le_capacity_ensure (b.tail + Payload.rowLenWidth + p.rowLen row) p.extendStep
  obtain ⟨size, hgrown⟩ := b.ensure_data (b.tail + Payload.rowLenWidth + p.rowLen row) p.extendStep
  rw [InPlace.writeRow]
  dsimp only
  rw [hentries]
  show ((block p row _ _).on _ >>= _) = _
  rw [hlen, Packer.writeRow]
  rw [hgrown] at hroom ⊢
  rw [on_block ha hroom]
  dsimp only [PayloadBuffer.capacity]
  cases p.rowBlock row b.rowNum ((b.data ++ zeros size).length - b.tail) with
  | mk laid outcome => cases outcome <;> rfl

theorem opened_eq (ha : p.Arity row) : InPlace.opened p b row = some (p.opened b row) := by
  rw [InPlace.opened, Packer.opened, writeHeader_eq ha]
  split <;> rfl

theorem fillRow_eq (p : Packer) (b : PayloadBuffer) (row : List CellValue) :
    InPlace.fillRow p b row = some (p.fillRow b row) := by
  by_cases ha : p.Arity row
  · have ha' : ¬row.length ≠ p.layout.columns.length := Classical.not_not.2 ha
    rw [InPlace.fillRow, if_neg ha', Packer.fillRow_eq ha, opened_eq ha]
    cases p.opened b row with
    | mk headed outcome =>
      cases outcome with
      | error e => rfl
      | ok done =>
        show (InPlace.writeRow p headed row >>= _) = _
        rw [writeRow_eq ha]
        dsimp only
        cases p.writeRow headed row with
        | mk filled outcome => cases outcome <;> rfl
  · have ha' : row.length ≠ p.layout.columns.length := ha
    rw [InPlace.fillRow, if_pos ha', Packer.fillRow_of_not_arity ha]

end InPlace

namespace PayloadBuffer

variable {oids storageLens : List UInt32} {tagIndex : Nat} {primaryTags : List Nat}

/-- A buffer takes exactly the rows whose values can be stored.  A row that it does not
take is too long or has a wrong number of values, or the error names one of them and says
that it is missing, too large or of another kind; and nothing is ever written outside of
the buffer. -/
theorem accepts_storable {p : Packer} {b : PayloadBuffer}
    (hp : Layout.ofColumns oids storageLens tagIndex primaryTags = .ok p.layout) (hb : b.Reached)
    (row : List CellValue) :
    ((p.fillRow b row).2 = .ok () ↔ p.Accepts b.hasHeader row) ∧
      (∀ e, (p.fillRow b row).2 = .error e →
        p.Blames b.rowNum row e ∧
          ((∃ cause, e.root = .malformed cause) ∨ (∃ target cause, e.root = .range target cause) ∨
            ∃ oid kind, e.root = .typeMismatch oid kind)) ∧
      InPlace.fillRow p b row = some (p.fillRow b row) := by
  have hheader := hb.sound.hasHeader_iff
  have hheld : (b.rowNum != 0) = b.hasHeader := by
    rw [Bool.eq_iff_iff, bne_iff_ne, hheader]
  have hencodable : p.Encodable := Layout.isEncodable_of_ofColumns hp
  have hout : (p.fillRow b row).2 = p.inspect b.rowNum row := by
    rw [Packer.outcome_fillRow_of_header hheader, Packer.verdict_eq]
  refine ⟨?_, ?_, InPlace.fillRow_eq p b row⟩
  · rw [hout, Packer.inspect_eq_ok, hheld]
  · intro e he
    rw [hout] at he
    have hblames := Packer.blames_inspect hencodable he
    exact ⟨hblames, hblames.root⟩

/-- Behind another row a missing time and note do, but a number does not do for a note. -/
theorem accepts_storable_meterRows :
    let wrong := meterRows.getD 1 []
    let next := meterRows.getD 2 []
    let b := ((BufferRun.start 0).run [.fill meterPacker (meterRows.getD 0 [])]).buffer
    meterPacker.Accepts b.hasHeader next ∧
      (∃ e, (meterPacker.fillRow b wrong).2 = .error e ∧ meterPacker.Blames b.rowNum wrong e) ∧
      InPlace.fillRow meterPacker b wrong = some (meterPacker.fillRow b wrong) := by
  intro wrong next b
  have hp : Layout.ofColumns [1114, 1043, 1042, 25, 1043, 21] [8, 8, 3, 4, 8, 2] 3 [3] =
      .ok meterPacker.layout := rfl
  have hb : b.Reached := ⟨0, [.fill meterPacker (meterRows.getD 0 [])], rfl⟩
  obtain ⟨haccepts, -⟩ := accepts_storable hp hb next
  obtain ⟨-, hblames, hinside⟩ := accepts_storable hp hb wrong
  have hnext : (meterPacker.fillRow b next).2.isOk = true := by decide +kernel
  have hwrong : (meterPacker.fillRow b wrong).2.isOk = false := by decide +kernel
  obtain ⟨done, hnext⟩ := Outcome.exists_of_isOk hnext
  obtain ⟨e, hwrong⟩ := Outcome.exists_of_not_isOk hwrong
  exact ⟨haccepts.1 hnext, ⟨e, hwrong, (hblames e hwrong).1⟩, hinside⟩

end PayloadBuffer
end SeriesWire
