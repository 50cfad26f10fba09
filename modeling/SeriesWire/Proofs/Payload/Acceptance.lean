/-
Which rows are accepted.  A buffer makes room for a row before it writes it, so only the
values decide, and `inspect` looks at these alone.  `Accepts` says in terms of the
columns when it finds nothing, and `Blames` what it finds otherwise: a value that is
wrong is named by its cell, and is too large or of another kind, or missing where it
must not be.
-/
import SeriesWire.Proofs.Payload.Storing

namespace SeriesWire

open Bytes

/-! ## Values of a row -/

namespace Packer

variable {p : Packer} {row : List CellValue} {i : Nat}

/-- The value of column `i` among the tags. -/
def tagPlacement (p : Packer) (row : List CellValue) (i : Nat) : Placement :=
  { column := p.layout.column i
    number := i
    bit := i - p.layout.tagIndex
    slotWidth := (p.layout.column i).width
    primary := p.layout.isPrimary i
    value := row.getD i .null }

/-- The value of column `i` among the fields. -/
def fieldPlacement (p : Packer) (row : List CellValue) (i : Nat) : Placement :=
  { column := p.layout.column i
    number := i
    bit := i
    slotWidth := (p.layout.column i).slotWidth
    primary := false
    value := row.getD i .null }

theorem tagPlacements_eq (ha : p.Arity row) :
    p.tagPlacements row =
      (List.range' p.layout.tagIndex p.layout.tags.length).map (p.tagPlacement row) := by
  apply List.ext_getElem
  · rw [length_tagPlacements ha, List.length_map, List.length_range']
  · intro k hk _
    rw [getElem_tagPlacements ha hk, List.getElem_map, List.getElem_range', tagPlacement,
      Nat.one_mul, Nat.add_sub_cancel_left]

theorem fieldPlacements_eq (ha : p.Arity row) :
    p.fieldPlacements row =
      (List.range' 0 p.layout.fields.length).map (p.fieldPlacement row) := by
  apply List.ext_getElem
  · rw [length_fieldPlacements ha, List.length_map, List.length_range']
  · intro k hk _
    rw [getElem_fieldPlacements ha hk, List.getElem_map, List.getElem_range', fieldPlacement,
      Nat.one_mul, Nat.zero_add]

theorem hasSlot_tagPlacement (htag : p.layout.tagIndex ≤ i) (hi : i < p.layout.columns.length) :
    (p.tagPlacement row i).HasSlot :=
  fun _ _ hv hstore => p.layout.width_le_of_store htag hi hv hstore

theorem width_fieldPlacement {offset : Nat} {stored : Stored}
    (hv : (p.fieldPlacement row i).value.isNull = false)
    (h : (p.fieldPlacement row i).value.store (p.layout.column i).type (p.layout.column i).width
      offset false = .ok stored) :
    stored.width = (p.fieldPlacement row i).slotWidth := by
  rw [CellValue.width_of_store hv h, CellValue.takenWidth, Bool.and_false]
  rfl

theorem hasSlot_fieldPlacement (p : Packer) (row : List CellValue) (i : Nat) :
    (p.fieldPlacement row i).HasSlot :=
  fun _ _ hv hstore => Nat.le_of_eq (width_fieldPlacement hv hstore)

theorem mem_tagPlacements (ha : p.Arity row) {q : Placement} :
    q ∈ p.tagPlacements row ↔
      ∃ i, p.layout.tagIndex ≤ i ∧ i < p.layout.columns.length ∧ p.tagPlacement row i = q := by
  rw [tagPlacements_eq ha, List.mem_map, Shape.length_columns]
  simp only [List.mem_range'_1, and_assoc]

theorem mem_fieldPlacements (ha : p.Arity row) {q : Placement} :
    q ∈ p.fieldPlacements row ↔ ∃ i, i < p.layout.tagIndex ∧ p.fieldPlacement row i = q := by
  rw [fieldPlacements_eq ha, List.mem_map, Shape.tagIndex]
  simp only [List.mem_range'_1, Nat.zero_le, true_and, Nat.zero_add]

theorem forall_tagPlacements (ha : p.Arity row) {P : Placement → Prop} :
    (∀ q ∈ p.tagPlacements row, P q) ↔
      ∀ i, p.layout.tagIndex ≤ i → i < p.layout.columns.length → P (p.tagPlacement row i) := by
  constructor
  · exact fun h i htag hi => h _ ((mem_tagPlacements ha).2 ⟨i, htag, hi, rfl⟩)
  · intro h q hq
    obtain ⟨i, htag, hi, rfl⟩ := (mem_tagPlacements ha).1 hq
    exact h i htag hi

theorem forall_fieldPlacements (ha : p.Arity row) {P : Placement → Prop} :
    (∀ q ∈ p.fieldPlacements row, P q) ↔
      ∀ i, i < p.layout.tagIndex → P (p.fieldPlacement row i) := by
  constructor
  · exact fun h i hi => h _ ((mem_fieldPlacements ha).2 ⟨i, hi, rfl⟩)
  · intro h q hq
    obtain ⟨i, hi, rfl⟩ := (mem_fieldPlacements ha).1 hq
    exact h i hi

/-- What becomes of the value of a primary tag in front of the other tags. -/
def checkPrimary (p : Packer) (row : List CellValue) (i : Nat) : Except WireError Unit :=
  if (row.getD i .null).isNull then .error (.malformed (.row .nullPrimary))
  else (p.tagPlacement row i).check

/-- What becomes of the tags of a row that opens a payload. -/
def checkTags (p : Packer) (held : Nat) (row : List CellValue) : Except WireError Unit := do
  p.layout.primaryTags.forM fun i => WireError.inCell held i (p.checkPrimary row i)
  Placement.checkAll held (p.tagPlacements row)

/-- What becomes of the fields of a row. -/
def checkFields (p : Packer) (held : Nat) (row : List CellValue) : Except WireError Unit := do
  Placement.checkAll held (p.fieldPlacements row)
  if space Payload.rowLenWidth ≤ p.rowLen row then
    .error (.range "row" (.rowLength (p.rowLen row)))
  else .ok ()

/-- What becomes of a row in a buffer that holds `held` rows, by its values alone. -/
def inspect (p : Packer) (held : Nat) (row : List CellValue) : Except WireError Unit :=
  if row.length ≠ p.layout.columns.length then
    .error (.malformed (.row (.arity row.length p.layout.columns.length)))
  else if held = 0 then do
    p.checkTags held row
    p.checkFields held row
  else p.checkFields held row

/-- The slot of a primary tag always has room for its value. -/
theorem primaryBytes_cons (row : List CellValue) (index : Nat) (done : Bytes) (rest : List Nat)
    (hi : i ∈ p.layout.primaryTags) (hv : (row.getD i .null).isNull = false) :
    p.primaryBytes row index done (i :: rest) =
      match (row.getD i .null).store (p.layout.column i).type (p.layout.column i).width 0 true with
      | .error e => (done, .error (.cell index i e))
      | .ok stored =>
        p.primaryBytes row index (done ++ stored.slot.fit (p.layout.column i).width) rest := by
  obtain ⟨htag, hlt⟩ := p.layout.isTag_of_primary hi
  have hprimary : p.layout.isPrimary i = true := List.elem_eq_true_of_mem hi
  rw [primaryBytes]
  simp only [hv, Bool.false_eq_true, if_false]
  cases hstore : (row.getD i .null).store (p.layout.column i).type (p.layout.column i).width 0
      true with
  | error e => rfl
  | ok stored =>
    have hwidth : stored.checkSlot (p.layout.column i).type.oid (p.layout.column i).width =
        .ok () :=
      if_neg (Nat.not_lt_of_le
        (p.layout.width_le_of_store htag hlt hv (by rw [hprimary]; exact hstore)))
    simp only [Outcome.ok_bind, hwidth]
    rfl

theorem primaryBytes_check (row : List CellValue) (index : Nat) (done : Bytes) {numbers : List Nat}
    (h : ∀ i ∈ numbers, i ∈ p.layout.primaryTags) :
    (p.primaryBytes row index done numbers).2 =
      numbers.forM fun i => WireError.inCell index i (p.checkPrimary row i) := by
  induction numbers generalizing done with
  | nil => rfl
  | cons i rest ih =>
    obtain ⟨hi, hrest⟩ := List.forall_mem_cons.1 h
    have hprimary : p.layout.isPrimary i = true := List.elem_eq_true_of_mem hi
    show _ = (WireError.inCell index i (p.checkPrimary row i) >>= fun _ =>
      rest.forM fun i => WireError.inCell index i (p.checkPrimary row i))
    rw [checkPrimary, Placement.check]
    cases hv : (row.getD i .null).isNull with
    | true =>
      rw [primaryBytes]
      simp only [hv, if_true]
      rfl
    | false =>
      rw [primaryBytes_cons row index done rest hi hv]
      simp only [Bool.false_eq_true, if_false, tagPlacement, hv, hprimary]
      cases (row.getD i .null).store (p.layout.column i).type (p.layout.column i).width 0
          true with
      | error e => rfl
      | ok stored => exact ih _ hrest

theorem headerBlock_check (ha : p.Arity row) (index : Nat) :
    (p.headerBlock row index (p.headerLen row)).2 = p.checkTags index row := by
  have hprimary := p.primaryBytes_check row index [] fun i hi => hi
  have hroom : totalLen ((p.tagPlacements row).map (·.entryRoom)) ≤
      p.headerLen row - p.layout.varStart := by
    rw [headerLen, Nat.add_sub_cancel_left]
    exact Nat.le_refl _
  have hslots : ∀ q ∈ p.tagPlacements row, q.HasSlot :=
    (forall_tagPlacements ha).2 fun _ htag hi => hasSlot_tagPlacement htag hi
  have hlay := Section.lay_check (s := .empty p.layout.tags.length
    (p.headerLen row - p.layout.varStart)) index hslots (by rwa [Section.empty, List.length_nil,
      Nat.zero_add])
  rw [checkTags, ← hprimary, ← hlay]
  simp only [headerBlock]
  cases (p.primaryBytes row index [] p.layout.primaryTags).2 with
  | error e => rfl
  | ok done =>
    cases ((Section.empty p.layout.tags.length (p.headerLen row - p.layout.varStart)).lay index
      (p.tagPlacements row)).2 <;> rfl

theorem rowBlock_check (ha : p.Arity row) (index : Nat) :
    (p.rowBlock row index (Payload.rowLenWidth + p.rowLen row)).2 = p.checkFields index row := by
  have hroom : totalLen ((p.fieldPlacements row).map (·.entryRoom)) ≤
      Payload.rowLenWidth + p.rowLen row - (Payload.rowLenWidth + p.layout.rowFixedLen) := by
    have hle := p.entryRooms_le_rowLen row
    omega
  have hslots : ∀ q ∈ p.fieldPlacements row, q.HasSlot :=
    (forall_fieldPlacements ha).2 fun i _ => p.hasSlot_fieldPlacement row i
  have hcheck := Section.lay_check (s := .empty p.layout.fields.length
    (Payload.rowLenWidth + p.rowLen row - (Payload.rowLenWidth + p.layout.rowFixedLen))) index
      hslots (by rwa [Section.empty, List.length_nil, Nat.zero_add])
  rw [checkFields, ← hcheck]
  cases hlay : (Section.empty p.layout.fields.length (Payload.rowLenWidth + p.rowLen row -
      (Payload.rowLenWidth + p.layout.rowFixedLen))).lay index (p.fieldPlacements row) with
  | mk fields outcome =>
    cases outcome with
    | error e => simp only [rowBlock, hlay]; rfl
    | ok done =>
      obtain ⟨-, hbytes⟩ := bytes_of_lay_empty hlay
        (congrArg totalLen (map_slotWidth_fieldPlacements ha))
      have hlen : (fields.bytes p.layout.rowSize).length = p.rowLen row := by
        rw [rowLen_eq ha]
        exact congrArg List.length hbytes
      simp only [rowBlock, hlay, hlen]
      rw [Outcome.ok_bind]
      split <;> rfl

/-- Only the values of a row decide about it. -/
theorem verdict_eq (p : Packer) (held : Nat) (row : List CellValue) :
    p.verdict held row = p.inspect held row := by
  rw [verdict, inspect]
  by_cases ha : p.Arity row
  · have ha' : ¬row.length ≠ p.layout.columns.length := Classical.not_not.2 ha
    rw [if_neg ha', if_neg ha', headerBlock_check ha, rowBlock_check ha]
    by_cases hheld : held = 0
    · rw [if_pos hheld, if_pos hheld, hheld]
      cases p.checkTags 0 row <;> rfl
    · rw [if_neg hheld, if_neg hheld]
  · have ha' : row.length ≠ p.layout.columns.length := ha
    rw [if_pos ha', if_pos ha']

/-! ### Acceptance -/

/-- The value of column `i` is missing, or the column keeps it. -/
def FitsAt (p : Packer) (row : List CellValue) (i : Nat) : Prop :=
  row.getD i .null ≠ .null →
    (row.getD i .null).FitsColumn (p.layout.column i).type (p.layout.column i).width
      (p.layout.isPrimary i)

/-- The values that are written can be stored.  Those of the tags are written only
where there is no header yet. -/
structure ValuesFit (p : Packer) (headed : Bool) (row : List CellValue) : Prop where
  fields : ∀ i, i < p.layout.tagIndex → p.FitsAt row i
  primary : headed = false → ∀ i ∈ p.layout.primaryTags, row.getD i .null ≠ .null
  tags : headed = false →
    ∀ i, p.layout.tagIndex ≤ i → i < p.layout.columns.length → p.FitsAt row i

/-- What a row needs to be accepted. -/
structure Accepts (p : Packer) (headed : Bool) (row : List CellValue) : Prop where
  arity : row.length = p.layout.columns.length
  values : p.ValuesFit headed row
  rowLen_lt : p.rowLen row < space Payload.rowLenWidth

/-- The fault of a row that a buffer with `held` rows does not accept.  Only where a
value is wrong does it name a cell, and that cell is the one of the value. -/
inductive Blames (p : Packer) (held : Nat) (row : List CellValue) : WireError → Prop
  | arity : row.length ≠ p.layout.columns.length →
    Blames p held row (.malformed (.row (.arity row.length p.layout.columns.length)))
  | rowLen : p.ValuesFit (held != 0) row → space Payload.rowLenWidth ≤ p.rowLen row →
    Blames p held row (.range "row" (.rowLength (p.rowLen row)))
  | missing {i : Nat} : held = 0 → i ∈ p.layout.primaryTags → row.getD i .null = .null →
    Blames p held row (.cell held i (.malformed (.row .nullPrimary)))
  | unfit {i : Nat} {e : WireError} : i < p.layout.columns.length →
    (p.layout.tagIndex ≤ i → held = 0) → ¬p.FitsAt row i → CellValue.IsUnfit e →
    Blames p held row (.cell held i e)

theorem isPrimary_field (hi : i < p.layout.tagIndex) : p.layout.isPrimary i = false := by
  rw [Shape.isPrimary, List.contains_eq_mem, decide_eq_false_iff_not]
  intro hmem
  have hle := (p.layout.isTag_of_primary hmem).1
  omega

theorem fits_fieldPlacement (hi : i < p.layout.tagIndex) :
    (p.fieldPlacement row i).Fits ↔ p.FitsAt row i := by
  rw [FitsAt, isPrimary_field hi]
  rfl

theorem checkPrimary_eq_ok :
    p.checkPrimary row i = .ok () ↔ row.getD i .null ≠ .null ∧ p.FitsAt row i := by
  rw [checkPrimary]
  cases hv : (row.getD i .null).isNull with
  | true => exact ⟨nofun, fun h => absurd (CellValue.eq_null_of_isNull hv) h.1⟩
  | false =>
    have hnot : row.getD i .null ≠ .null := by
      intro hnull
      rw [hnull] at hv
      cases hv
    rw [if_neg Bool.false_ne_true, Placement.check_eq_ok, and_iff_right hnot]
    rfl

theorem checkTags_eq_ok (ha : p.Arity row) (held : Nat) :
    p.checkTags held row = .ok () ↔
      (∀ i ∈ p.layout.primaryTags, row.getD i .null ≠ .null) ∧
        ∀ i, p.layout.tagIndex ≤ i → i < p.layout.columns.length → p.FitsAt row i := by
  have hprimary : (p.layout.primaryTags.forM fun i =>
      WireError.inCell held i (p.checkPrimary row i)) = .ok () ↔
      ∀ i ∈ p.layout.primaryTags, row.getD i .null ≠ .null ∧ p.FitsAt row i := by
    rw [Outcome.forM_eq_ok]
    refine forall_congr' fun i => imp_congr_right fun _ => ?_
    rw [WireError.inCell, Outcome.mapError_eq_ok, checkPrimary_eq_ok]
  rw [checkTags, Outcome.bind_eq_ok]
  constructor
  · rintro ⟨_, hpresent, htags⟩
    exact ⟨fun i hi => (hprimary.1 hpresent i hi).1,
      (forall_tagPlacements ha).1 (Placement.checkAll_eq_ok.1 htags)⟩
  · rintro ⟨hpresent, htags⟩
    refine ⟨(), hprimary.2 fun i hi => ⟨hpresent i hi, ?_⟩,
      Placement.checkAll_eq_ok.2 ((forall_tagPlacements ha).2 htags)⟩
    obtain ⟨htag, hlt⟩ := p.layout.isTag_of_primary hi
    exact htags i htag hlt

theorem checkAll_fields_eq_ok (ha : p.Arity row) (held : Nat) :
    Placement.checkAll held (p.fieldPlacements row) = .ok () ↔
      ∀ i, i < p.layout.tagIndex → p.FitsAt row i := by
  rw [Placement.checkAll_eq_ok, forall_fieldPlacements ha]
  exact forall_congr' fun i => forall_congr' fun hi => fits_fieldPlacement hi

theorem checkFields_eq_ok (ha : p.Arity row) (held : Nat) :
    p.checkFields held row = .ok () ↔
      (∀ i, i < p.layout.tagIndex → p.FitsAt row i) ∧
        p.rowLen row < space Payload.rowLenWidth := by
  rw [checkFields, Outcome.bind_eq_ok, ← checkAll_fields_eq_ok ha held]
  constructor
  · rintro ⟨_, hfields, hlen⟩
    split at hlen
    · cases hlen
    next hlt => exact ⟨hfields, Nat.lt_of_not_le hlt⟩
  · rintro ⟨hfields, hlen⟩
    exact ⟨(), hfields, if_neg (Nat.not_le_of_lt hlen)⟩

/-- A row is accepted exactly if its values can be stored and its length counted. -/
theorem inspect_eq_ok (p : Packer) (held : Nat) (row : List CellValue) :
    p.inspect held row = .ok () ↔ p.Accepts (held != 0) row := by
  rw [inspect]
  by_cases ha : p.Arity row
  · have ha' : ¬row.length ≠ p.layout.columns.length := Classical.not_not.2 ha
    rw [if_neg ha']
    by_cases hheld : held = 0
    · have hheaded : (held != 0) = false := by rw [hheld]; rfl
      rw [if_pos hheld, Outcome.bind_eq_ok, hheaded]
      constructor
      · rintro ⟨_, htags, hfields⟩
        obtain ⟨hpresent, htags⟩ := (checkTags_eq_ok ha held).1 htags
        obtain ⟨hfields, hlen⟩ := (checkFields_eq_ok ha held).1 hfields
        exact ⟨ha, ⟨hfields, fun _ => hpresent, fun _ => htags⟩, hlen⟩
      · rintro ⟨-, ⟨hfields, hpresent, htags⟩, hlen⟩
        exact ⟨(), (checkTags_eq_ok ha held).2 ⟨hpresent rfl, htags rfl⟩,
          (checkFields_eq_ok ha held).2 ⟨hfields, hlen⟩⟩
    · have hheaded : (held != 0) = true := bne_iff_ne.2 hheld
      rw [if_neg hheld, checkFields_eq_ok ha, hheaded]
      exact ⟨fun ⟨hfields, hlen⟩ => ⟨ha, ⟨hfields, nofun, nofun⟩, hlen⟩,
        fun ⟨_, hvalues, hlen⟩ => ⟨hvalues.fields, hlen⟩⟩
  · have ha' : row.length ≠ p.layout.columns.length := ha
    rw [if_pos ha']
    exact ⟨nofun, fun h => absurd h.arity ha⟩

/-! ### Faults -/

variable {held : Nat} {e : WireError}

theorem Blames.root (h : p.Blames held row e) :
    (∃ cause, e.root = .malformed cause) ∨ (∃ target cause, e.root = .range target cause) ∨
      ∃ oid kind, e.root = .typeMismatch oid kind := by
  cases h with
  | arity => exact .inl ⟨_, rfl⟩
  | rowLen => exact .inr (.inl ⟨_, _, rfl⟩)
  | missing => exact .inl ⟨_, rfl⟩
  | unfit _ _ _ hunfit =>
    rcases hunfit with ⟨target, cause, rfl⟩ | ⟨oid, kind, rfl⟩
    · exact .inr (.inl ⟨target, cause, rfl⟩)
    · exact .inr (.inr ⟨oid, kind, rfl⟩)

/-- Columns of types that can be packed. -/
def Encodable (p : Packer) : Prop := ∀ c ∈ p.layout.columns, c.type.isEncodable = true

theorem Encodable.column (h : p.Encodable) (hi : i < p.layout.columns.length) :
    (p.layout.column i).type.isEncodable = true := by
  apply h
  rw [Shape.column, List.getD_eq_getElem _ _ hi]
  exact List.getElem_mem hi

theorem blames_checkPrimary (hp : p.Encodable) (hheld : held = 0) (hi : i ∈ p.layout.primaryTags)
    (h : p.checkPrimary row i = .error e) : p.Blames held row (.cell held i e) := by
  have hlt := (p.layout.isTag_of_primary hi).2
  rw [checkPrimary] at h
  split at h
  next hnull =>
    cases h
    exact .missing hheld hi (CellValue.eq_null_of_isNull hnull)
  next =>
    refine .unfit hlt (fun _ => hheld) (fun hfits => ?_)
      (Placement.unfit_of_check (hp.column hlt) h)
    have hfits : (p.tagPlacement row i).Fits := hfits
    rw [Placement.check_eq_ok.2 hfits] at h
    cases h

theorem blames_checkTags (hp : p.Encodable) (ha : p.Arity row) (hheld : held = 0)
    (h : p.checkTags held row = .error e) : p.Blames held row e := by
  rw [checkTags] at h
  cases hprimary : (p.layout.primaryTags.forM fun i =>
      WireError.inCell held i (p.checkPrimary row i)) with
  | error e' =>
    rw [hprimary] at h
    cases h
    obtain ⟨i, hi, he⟩ := Outcome.forM_eq_error hprimary
    cases hcheck : p.checkPrimary row i with
    | error source =>
      rw [hcheck] at he
      cases he
      exact blames_checkPrimary hp hheld hi hcheck
    | ok done =>
      rw [hcheck] at he
      cases he
  | ok done =>
    rw [hprimary] at h
    obtain ⟨q, hq, source, hfits, hcheck, rfl⟩ := Placement.checkAll_error h
    obtain ⟨i, -, hi, rfl⟩ := (mem_tagPlacements ha).1 hq
    exact .unfit hi (fun _ => hheld) hfits (Placement.unfit_of_check (hp.column hi) hcheck)

/-- Behind tags that were accepted, or not looked at. -/
theorem blames_checkFields (hp : p.Encodable) (ha : p.Arity row)
    (htags : held = 0 → p.checkTags held row = .ok ()) (h : p.checkFields held row = .error e) :
    p.Blames held row e := by
  rw [checkFields] at h
  cases hfields : Placement.checkAll held (p.fieldPlacements row) with
  | error e' =>
    rw [hfields] at h
    cases h
    obtain ⟨q, hq, source, hfits, hcheck, rfl⟩ := Placement.checkAll_error hfields
    obtain ⟨i, hi, rfl⟩ := (mem_fieldPlacements ha).1 hq
    have hlt := Shape.lt_length_columns hi
    exact .unfit hlt (fun htag => absurd hi (Nat.not_lt_of_le htag))
      (fun hat => hfits ((fits_fieldPlacement hi).2 hat))
      (Placement.unfit_of_check (hp.column hlt) hcheck)
  | ok done =>
    rw [hfields, Outcome.ok_bind] at h
    split at h
    next hlong =>
      cases h
      have htags : (held != 0) = false →
          (∀ i ∈ p.layout.primaryTags, row.getD i .null ≠ .null) ∧
            ∀ i, p.layout.tagIndex ≤ i → i < p.layout.columns.length → p.FitsAt row i := by
        intro hheld
        rw [bne_eq_false_iff_eq] at hheld
        exact (checkTags_eq_ok ha held).1 (htags hheld)
      exact .rowLen ⟨(checkAll_fields_eq_ok ha held).1 hfields, fun hheld => (htags hheld).1,
        fun hheld => (htags hheld).2⟩ hlong
    next => cases h

theorem blames_inspect (hp : p.Encodable) (h : p.inspect held row = .error e) :
    p.Blames held row e := by
  rw [inspect] at h
  split at h
  next harity =>
    cases h
    exact .arity harity
  next harity =>
    have ha : p.Arity row := Classical.not_not.1 harity
    split at h
    next hheld =>
      cases htags : p.checkTags held row with
      | error e' =>
        rw [htags] at h
        cases h
        exact blames_checkTags hp ha hheld htags
      | ok done =>
        rw [htags] at h
        exact blames_checkFields hp ha (fun _ => htags) h
    next hheld => exact blames_checkFields hp ha (fun hzero => absurd hzero hheld) h

end Packer

namespace Layout

variable {layout : Layout}

/-- Among declared columns that make a layout there is none that cannot be packed. -/
theorem isEncodable_of_ofColumns {oids storageLens : List UInt32} {tagIndex : Nat}
    {primaryTags : List Nat} (h : ofColumns oids storageLens tagIndex primaryTags = .ok layout) :
    ∀ c ∈ layout.columns, c.type.isEncodable = true := by
  obtain ⟨-, -, types, hencodable, -, -, hshape⟩ := ofColumns_eq_ok.1 h
  intro c hc
  rw [hshape, columns_declared] at hc
  obtain ⟨k, hk, rfl⟩ := List.getElem_of_mem hc
  rw [List.getElem_zipWith]
  exact hencodable _ (List.getElem_mem _)

end Layout
end SeriesWire
