/-
Whether a row is accepted.  A buffer makes room before it is written to, so
neither its size nor what is left over in it shows in an outcome.  `verdict` is
the outcome of a row offered to a buffer that holds `held` rows, and
`outcome_fillRow` says that the buffer decides nothing else.  The first row of a
buffer is the only one whose primary tag values are looked at.
-/
import SeriesWire.Proofs.Payload.PrimaryTag

namespace SeriesWire

open Bytes

/-! ## Room for entries -/

theorem Bytes.totalLen_map_le {α : Type} {f g : α → Nat} {l : List α}
    (h : ∀ a ∈ l, f a ≤ g a) : totalLen (l.map f) ≤ totalLen (l.map g) := by
  induction l with
  | nil => exact Nat.le_refl 0
  | cons a l ih =>
    obtain ⟨ha, hl⟩ := List.forall_mem_cons.1 h
    exact Nat.add_le_add ha (ih hl)

namespace Placement

/-- The room that a writer leaves for the entry of a value. -/
def entryRoom (q : Placement) : Nat :=
  if q.primary then 0 else Packer.entryLen q.column.type q.value

theorem length_entry_le_entryRoom {q : Placement} {offset : Nat} {stored : Stored}
    (hv : q.value.isNull = false)
    (h : q.value.store q.column.type q.column.width offset q.primary = .ok stored) :
    stored.entry.length ≤ q.entryRoom := by
  rcases CellValue.store_ok hv h with ⟨_, -, -, rfl⟩ | ⟨-, -, _, -, rfl⟩ |
    ⟨hi, text, htext, -, rfl⟩
  · exact Nat.zero_le _
  · exact Nat.zero_le _
  · rw [Bool.and_eq_true, Bool.not_eq_true'] at hi
    rw [entryRoom, hi.2, htext, Packer.entryLen, if_pos hi.1]
    exact Nat.le_refl _

end Placement

namespace Section

/-- Where the entries fit, how much room they have does not matter. -/
theorem put_room {s : Section} {q : Placement} {room : Nat}
    (h : s.entries.length + q.entryRoom ≤ s.room) (h' : s.entries.length + q.entryRoom ≤ room) :
    ({ s with room } : Section).put q = (s.put q).map fun s' => { s' with room } := by
  by_cases hv : q.value.isNull = true
  · rw [put, put, if_pos hv, if_pos hv]
    rfl
  rw [put, put, if_neg hv, if_neg hv]
  cases hstore : q.value.store q.column.type q.column.width s.entries.length q.primary with
  | error e => rfl
  | ok stored =>
    have hlen := Placement.length_entry_le_entryRoom (Bool.eq_false_iff.2 hv) hstore
    have hfits : ∀ n, s.entries.length + q.entryRoom ≤ n →
        stored.checkEntry n s.entries.length = .ok () := by
      intro n hn
      exact if_neg fun hlong => by omega
    simp only [Outcome.ok_bind, hfits _ h, hfits _ h']
    cases stored.checkSlot q.column.type.oid q.slotWidth with
    | error e => rfl
    | ok done => rfl

theorem put_grows {s s' : Section} {q : Placement} (h : s.put q = .ok s') :
    s'.room = s.room ∧ s'.entries.length ≤ s.entries.length + q.entryRoom := by
  rw [put] at h
  split at h
  · cases h
    exact ⟨rfl, Nat.le_add_right _ _⟩
  next hv =>
    obtain ⟨stored, hstore, h⟩ := Outcome.bind_eq_ok.1 h
    obtain ⟨⟨⟩, -, h⟩ := Outcome.bind_eq_ok.1 h
    obtain ⟨⟨⟩, -, h⟩ := Outcome.bind_eq_ok.1 h
    cases h
    have hlen := Placement.length_entry_le_entryRoom (Bool.eq_false_iff.2 hv) hstore
    refine ⟨rfl, ?_⟩
    rw [List.length_append]
    omega

theorem lay_room {row room : Nat} {s : Section} {ps : List Placement}
    (h : s.entries.length + totalLen (ps.map (·.entryRoom)) ≤ s.room)
    (h' : s.entries.length + totalLen (ps.map (·.entryRoom)) ≤ room) :
    ({ s with room } : Section).lay row ps =
      ({ (s.lay row ps).1 with room }, (s.lay row ps).2) := by
  induction ps generalizing s with
  | nil => rfl
  | cons q ps ih =>
    rw [List.map_cons, totalLen_cons] at h h'
    rw [lay, lay, put_room (by omega) (by omega)]
    cases hput : s.put q with
    | error e => rfl
    | ok s' =>
      obtain ⟨hroom, hgrown⟩ := put_grows hput
      exact ih (by omega) (by omega)

/-- What is laid out, and whether it comes to its end, is the same wherever the
entries fit. -/
theorem lay_empty_room (columns row : Nat) {room room' : Nat} {ps : List Placement}
    (h : totalLen (ps.map (·.entryRoom)) ≤ room) (h' : totalLen (ps.map (·.entryRoom)) ≤ room') :
    (empty columns room').lay row ps =
      ({ ((empty columns room).lay row ps).1 with room := room' },
        ((empty columns room).lay row ps).2) := by
  have hnone : (empty columns room).entries.length = 0 := rfl
  exact lay_room (s := empty columns room) (by rw [hnone, Nat.zero_add]; exact h)
    (by rw [hnone, Nat.zero_add]; exact h')

/-- Laying out stops at a value that could not be put. -/
theorem lay_error {row : Nat} {s : Section} {ps : List Placement} {e : WireError}
    (h : (s.lay row ps).2 = .error e) :
    ∃ q ∈ ps, ∃ (s' : Section) (e' : WireError), s'.put q = .error e' ∧
      e = .cell row q.number e' := by
  induction ps generalizing s with
  | nil => cases h
  | cons q ps ih =>
    rw [lay] at h
    cases hput : s.put q with
    | error e' =>
      rw [hput] at h
      cases h
      exact ⟨q, List.mem_cons_self, s, e', hput, rfl⟩
    | ok s' =>
      rw [hput] at h
      obtain ⟨q', hq', hfound⟩ := ih h
      exact ⟨q', List.mem_cons_of_mem _ hq', hfound⟩

/-- What fits a header as a primary tag can be laid out as a tag. -/
theorem put_of_storable {q : Placement} (hprimary : q.primary = true)
    (hslot : q.slotWidth = q.column.width) (h : q.value.Storable q.column) (s : Section) :
    ∃ s', s.put q = .ok s' := by
  obtain ⟨hv, stored, hstore, hwidth⟩ := h
  rw [← CellValue.store_offset _ _ _ s.entries.length] at hstore
  have hentry := CellValue.entry_of_store hv hstore
  rw [put, if_neg (Bool.eq_false_iff.1 hv), hprimary, hstore, Outcome.ok_bind, Stored.checkEntry,
    if_neg (fun h => h.1 hentry), Outcome.ok_bind, Stored.checkSlot, hslot,
    if_neg (Nat.not_lt_of_le hwidth)]
  exact ⟨_, rfl⟩

end Section

theorem Layout.isTag_of_primary (l : Layout) {i : Nat} (hi : i ∈ l.primaryTags) :
    l.tagIndex ≤ i ∧ i < l.columns.length :=
  (Shape.fault_eq_none.1 l.faultless).1 i hi

/-! ## Outcomes -/

namespace Packer

variable {p : Packer} {row : List CellValue} {capacity : Nat}

/-- The header of a row is the same in every buffer that has room for it. -/
theorem headerBlock_capacity (p : Packer) (row : List CellValue) (index : Nat)
    (h : p.headerLen row ≤ capacity) :
    p.headerBlock row index capacity = p.headerBlock row index (p.headerLen row) := by
  have hroom : ∀ n, p.headerLen row ≤ n →
      totalLen ((p.tagPlacements row).map (·.entryRoom)) ≤ n - p.layout.varStart := by
    intro n hn
    change p.layout.varStart + totalLen ((p.tagPlacements row).map (·.entryRoom)) ≤ n at hn
    omega
  have hlay :=
    Section.lay_empty_room p.layout.tags.length index (hroom _ (Nat.le_refl _)) (hroom _ h)
  cases hown : (Section.empty p.layout.tags.length (p.headerLen row - p.layout.varStart)).lay index
      (p.tagPlacements row) with
  | mk tags outcome =>
    rw [hown] at hlay
    simp only [headerBlock, hown, hlay]
    rfl

theorem entryRooms_le_rowLen (p : Packer) (row : List CellValue) :
    p.layout.rowFixedLen + totalLen ((p.fieldPlacements row).map (·.entryRoom)) ≤ p.rowLen row := by
  rw [rowLen]
  apply Nat.add_le_add_left
  apply totalLen_map_le
  intro q _
  rw [Placement.entryRoom]
  split
  · exact Nat.zero_le _
  · exact Nat.le_refl _

theorem rowBlock_capacity (p : Packer) (row : List CellValue) (index : Nat)
    (h : Payload.rowLenWidth + p.rowLen row ≤ capacity) :
    p.rowBlock row index capacity =
      p.rowBlock row index (Payload.rowLenWidth + p.rowLen row) := by
  have hle := p.entryRooms_le_rowLen row
  have hroom : ∀ n, Payload.rowLenWidth + p.rowLen row ≤ n →
      totalLen ((p.fieldPlacements row).map (·.entryRoom)) ≤
        n - (Payload.rowLenWidth + p.layout.rowFixedLen) := by
    intro n hn
    omega
  have hlay :=
    Section.lay_empty_room p.layout.fields.length index (hroom _ (Nat.le_refl _)) (hroom _ h)
  cases hown : (Section.empty p.layout.fields.length (Payload.rowLenWidth + p.rowLen row -
      (Payload.rowLenWidth + p.layout.rowFixedLen))).lay index (p.fieldPlacements row) with
  | mk fields outcome =>
    rw [hown] at hlay
    simp only [rowBlock, hown, hlay]
    rfl

theorem outcome_writeHeader (p : Packer) (b : PayloadBuffer) (row : List CellValue) :
    (p.writeHeader b row).2 = (p.headerBlock row b.rowNum (p.headerLen row)).2 := by
  have hroom := b.le_capacity_ensure (p.headerLen row + Payload.dataLenWidth) p.extendStep
  obtain ⟨n, hn⟩ := b.ensure_data (p.headerLen row + Payload.dataLenWidth) p.extendStep
  have hblock := headerBlock_capacity p row b.rowNum (Nat.le_trans (Nat.le_add_right _ _) hroom)
  rw [hn] at hblock
  simp only [writeHeader, hn, hblock]
  split
  next he => exact he.symm
  next hok => exact hok.symm

theorem outcome_writeRow (p : Packer) (b : PayloadBuffer) (row : List CellValue) :
    (p.writeRow b row).2 =
      (p.rowBlock row b.rowNum (Payload.rowLenWidth + p.rowLen row)).2 := by
  have hroom := b.le_capacity_ensure (b.tail + Payload.rowLenWidth + p.rowLen row) p.extendStep
  obtain ⟨n, hn⟩ := b.ensure_data (b.tail + Payload.rowLenWidth + p.rowLen row) p.extendStep
  have hfits : Payload.rowLenWidth + p.rowLen row ≤
      (b.ensure (b.tail + Payload.rowLenWidth + p.rowLen row) p.extendStep).capacity - b.tail := by
    omega
  have hblock := rowBlock_capacity p row b.rowNum hfits
  rw [hn] at hblock
  simp only [writeRow, hn, hblock]
  split
  next he => exact he.symm
  next hok => exact hok.symm

/-- The outcome of a row offered to a buffer that holds `held` rows. -/
def verdict (p : Packer) (held : Nat) (row : List CellValue) : Except WireError Unit :=
  if row.length ≠ p.layout.columns.length then
    .error (.malformed (.row (.arity row.length p.layout.columns.length)))
  else
    match if held = 0 then (p.headerBlock row 0 (p.headerLen row)).2 else .ok () with
    | .error e => .error e
    | .ok () => (p.rowBlock row held (Payload.rowLenWidth + p.rowLen row)).2

/-- Of a buffer that has a header exactly if it has rows, only their number decides
about the next one. -/
theorem outcome_fillRow_of_header {b : PayloadBuffer} (hb : b.hasHeader = true ↔ b.rowNum ≠ 0)
    (row : List CellValue) : (p.fillRow b row).2 = p.verdict b.rowNum row := by
  by_cases ha : p.Arity row
  · have ha' : ¬row.length ≠ p.layout.columns.length := Classical.not_not.2 ha
    rw [fillRow_eq ha, verdict, if_neg ha', opened]
    by_cases hrows : b.rowNum = 0
    · -- The header comes first, and the row is then offered to a headed buffer.
      have hnone : ¬b.hasHeader = true := fun hheader => hb.1 hheader hrows
      have hout := p.outcome_writeHeader b row
      rw [hrows] at hout
      rw [if_neg hnone, if_pos hrows, ← hout]
      cases hheader : p.writeHeader b row with
      | mk headed outcome =>
        cases outcome with
        | error e => rfl
        | ok done =>
          have hheaded := PayloadBuffer.headed_writeHeader hrows ha hheader
          have hrow := p.outcome_writeRow headed row
          rw [hheaded.rowNum, List.length_nil] at hrow
          simp only [hrows, ← hrow]
          cases p.writeRow headed row with
          | mk filled outcome => cases outcome <;> rfl
    · simp only [if_pos (hb.2 hrows), if_neg hrows, ← outcome_writeRow]
      cases p.writeRow b row with
      | mk filled outcome => cases outcome <;> rfl
  · have ha' : row.length ≠ p.layout.columns.length := ha
    rw [fillRow_of_not_arity ha, verdict, if_pos ha']

theorem outcome_fillRow {b : PayloadBuffer} {rows : List (List CellValue)} (hb : b.Holds p rows)
    (row : List CellValue) : (p.fillRow b row).2 = p.verdict rows.length row := by
  have hheader : b.hasHeader = true ↔ b.rowNum ≠ 0 := by
    rw [hb.hasHeader, hb.rowNum]
    cases rows <;> simp
  rw [outcome_fillRow_of_header hheader, hb.rowNum]

/-! ### Primary tag values -/

/-- The outcome is an error at a primary tag value. -/
def BlamesPrimary (p : Packer) (outcome : Except WireError Unit) : Prop :=
  ∃ index, ∃ i ∈ p.layout.primaryTags, ∃ e, outcome = .error (.cell index i e)

theorem put_of_admits (h : p.Admits row) (ha : p.Arity row) {q : Placement}
    (hq : q ∈ p.tagPlacements row) (hprimary : q.number ∈ p.layout.primaryTags) (s : Section) :
    ∃ s', s.put q = .ok s' := by
  have hstorable := h q.number hprimary
  obtain ⟨k, hk, hplaced⟩ := List.getElem_of_mem hq
  rw [getElem_tagPlacements ha hk] at hplaced
  have hnumber : q.number = p.layout.tagIndex + k := by rw [← hplaced]
  rw [hnumber] at hprimary hstorable
  apply Section.put_of_storable
  · rw [← hplaced]
    exact List.elem_eq_true_of_mem hprimary
  · rw [← hplaced]
  · rw [← hplaced]
    exact hstorable

theorem number_fieldPlacements (ha : p.Arity row) {q : Placement}
    (hq : q ∈ p.fieldPlacements row) : q.number < p.layout.tagIndex := by
  obtain ⟨k, hk, rfl⟩ := List.getElem_of_mem hq
  rw [getElem_fieldPlacements ha hk]
  rwa [length_fieldPlacements ha] at hk

theorem not_blames_rowBlock (ha : p.Arity row) (index capacity : Nat) :
    ¬p.BlamesPrimary (p.rowBlock row index capacity).2 := by
  rintro ⟨index', i, hi, e, he⟩
  cases hlay : (Section.empty p.layout.fields.length
      (capacity - (Payload.rowLenWidth + p.layout.rowFixedLen))).lay index
        (p.fieldPlacements row) with
  | mk fields outcome =>
    cases outcome with
    | ok done =>
      simp only [rowBlock, hlay] at he
      split at he <;> cases he
    | error fault =>
      simp only [rowBlock, hlay] at he
      cases he
      obtain ⟨q, hq, _, e', -, hsame⟩ := Section.lay_error (congrArg Prod.snd hlay)
      have hnumber : i = q.number := (WireError.cell.inj hsame).2.1
      have hlow := (p.layout.isTag_of_primary hi).1
      have hhigh := number_fieldPlacements ha hq
      omega

theorem blames_headerBlock_iff (ha : p.Arity row) (index capacity : Nat) :
    p.BlamesPrimary (p.headerBlock row index capacity).2 ↔ ¬p.Admits row := by
  cases hprimary : p.primaryBytes row index [] p.layout.primaryTags with
  | mk primary outcome =>
    have hout := p.primaryBytes_outcome row index [] p.layout.primaryTags
    rw [hprimary] at hout
    rcases hout with ⟨rfl, hadmits⟩ | ⟨i, hi, hnot, e, rfl⟩
    · cases hlay : (Section.empty p.layout.tags.length (capacity - p.layout.varStart)).lay index
          (p.tagPlacements row) with
      | mk tags outcome =>
        constructor
        · rintro ⟨index', i, hi, e, he⟩
          simp only [headerBlock, hprimary, hlay] at he
          cases outcome with
          | ok done => cases he
          | error fault =>
            cases he
            obtain ⟨q, hq, s, e', hput, hsame⟩ := Section.lay_error (congrArg Prod.snd hlay)
            have hnumber : i = q.number := (WireError.cell.inj hsame).2.1
            obtain ⟨s', hok⟩ := put_of_admits hadmits ha hq (hnumber ▸ hi) s
            rw [hok] at hput
            cases hput
        · intro hnot
          exact absurd hadmits hnot
    · constructor
      · intro _ hadmits
        exact hnot (hadmits i hi)
      · intro _
        refine ⟨index, i, hi, e, ?_⟩
        simp only [headerBlock, hprimary]

/-- A row is rejected for its primary tag values if one of them cannot be stored,
but only where it opens a payload. -/
theorem blames_verdict_iff (ha : p.Arity row) (held : Nat) :
    p.BlamesPrimary (p.verdict held row) ↔ held = 0 ∧ ¬p.Admits row := by
  have hheader := blames_headerBlock_iff ha 0 (p.headerLen row)
  have hrow := not_blames_rowBlock ha held (Payload.rowLenWidth + p.rowLen row)
  have ha' : ¬row.length ≠ p.layout.columns.length := Classical.not_not.2 ha
  rw [verdict, if_neg ha']
  by_cases hheld : held = 0
  · rw [if_pos hheld]
    cases hblock : (p.headerBlock row 0 (p.headerLen row)).2 with
    | error e =>
      rw [hblock] at hheader
      rw [hheader]
      exact ⟨fun h => ⟨hheld, h⟩, fun h => h.2⟩
    | ok done =>
      have hnot : ¬p.BlamesPrimary (.ok done) := by
        rintro ⟨_, _, _, _, he⟩
        cases he
      rw [hblock] at hheader
      exact ⟨fun h => absurd h hrow, fun h => absurd (hheader.2 h.2) hnot⟩
  · rw [if_neg hheld]
    exact ⟨fun h => absurd h hrow, fun h => absurd h.1 hheld⟩

theorem admits_of_verdict (h : p.verdict 0 row = .ok ()) : p.Admits row := by
  by_cases ha : p.Arity row
  · apply Classical.byContradiction
    intro hnot
    obtain ⟨_, _, _, _, he⟩ := (blames_verdict_iff ha 0).2 ⟨rfl, hnot⟩
    rw [he] at h
    cases h
  · have ha' : row.length ≠ p.layout.columns.length := ha
    rw [verdict, if_pos ha'] at h
    cases h

end Packer
end SeriesWire
