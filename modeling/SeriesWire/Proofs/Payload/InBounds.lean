/-
Nothing is written outside.  A buffer makes room for a row before it writes it, and this
room is that of the computed blocks; so the steps that write a row in place all find what
they reach for, and leave what the packer computes (`fillRow_eq`).  In front of each
step the bytes are cut where the step cuts them: what is done, what the step replaces,
and what is left.
-/
import SeriesWire.Proofs.Cell.Frame
import SeriesWire.Proofs.Payload.Acceptance
import SeriesWire.Proofs.Payload.InPlace

namespace SeriesWire

open Bytes

namespace InPlace

variable {α β : Type} {data data' a m z r src : Bytes} {start stop limit : Nat}

/-! ## Steps -/

theorem on_bind_ok {steps : InPlace α} {next : α → InPlace β} {x : α}
    (h : steps.on data = some (.ok x, data')) : (steps >>= next).on data = (next x).on data' := by
  show (steps.on data >>= fun done => _) = _
  rw [h]
  rfl

theorem on_bind_error {steps : InPlace α} {next : α → InPlace β} {e : WireError}
    (h : steps.on data = some (.error e, data')) :
    (steps >>= next).on data = some (.error e, data') := by
  show (steps.on data >>= fun done => _) = _
  rw [h]
  rfl

theorem on_reach_bind {found : Option α} {next : α → InPlace β} {x : α} (h : found = some x) :
    (reach found >>= next).on data = (next x).on data := by
  rw [h]
  rfl

theorem on_get_bind {next : Bytes → InPlace β} :
    ((get : InPlace Bytes) >>= next).on data = (next data).on data := rfl

theorem on_cut (hstart : a.length = start) (hstop : start + m.length = stop) :
    (cut start stop).on (a ++ (m ++ r)) = some (.ok m, a ++ (m ++ r)) := by
  have hslice := slice_append a m r
  rw [hstart] at hslice
  rw [cut, on_get_bind, Guarded.cut?_eq (by omega)
    (by simp only [List.length_append]; omega), show stop - start = m.length by omega, hslice]
  rfl

theorem on_copy (hstart : a.length = start) (hstop : start + m.length = stop)
    (hsrc : src.length = m.length) :
    (copy start stop src).on (a ++ (m ++ r)) = some (.ok (), a ++ (src ++ r)) := by
  have hover := overwrite_append hsrc a r
  rw [hstart] at hover
  rw [copy, on_bind_ok (on_cut hstart hstop), if_pos hsrc, on_get_bind, hover]
  rfl

theorem on_copy_front (hstop : m.length = stop) (hsrc : src.length = m.length) :
    (copy 0 stop src).on (m ++ r) = some (.ok (), src ++ r) :=
  on_copy (a := []) rfl ((Nat.zero_add _).trans hstop) hsrc

theorem on_clear (hstart : a.length = start) (hstop : start + m.length = stop) :
    (clear start stop).on (a ++ (m ++ r)) = some (.ok (), a ++ (zeros m.length ++ r)) := by
  have hlen : stop - start = m.length := by omega
  rw [clear, hlen]
  exact on_copy hstart hstop (length_zeros _)

theorem on_cut_front (h : a.length = limit) :
    (cut 0 limit).on (a ++ r) = some (.ok a, a ++ r) := by
  rw [cut, on_get_bind, Guarded.cut?_take (by rw [List.length_append]; omega), ← h, List.take_left]
  rfl

theorem on_cut_back (h : a.length = limit) :
    (cut limit (a ++ r).length).on (a ++ r) = some (.ok r, a ++ r) := by
  rw [cut, on_get_bind, Guarded.cut?_drop (by rw [List.length_append]; omega), ← h, List.drop_left]
  rfl

/-- A part of what stands in front of the entries. -/
theorem cut?_middle (hstart : a.length = start) (hstop : start + m.length = stop) :
    Guarded.cut? (a ++ (m ++ z)) start stop = some m := by
  have hslice := slice_append a m z
  rw [hstart] at hslice
  rw [Guarded.cut?_eq (by omega) (by simp only [List.length_append]; omega),
    show stop - start = m.length by omega, hslice]

theorem on_mark {bit : Nat} (hstart : a.length = start) (hstop : start + m.length = stop)
    (hlimit : stop + z.length = limit) (hbit : bit / 8 < m.length) :
    (mark start stop limit bit).on (a ++ (m ++ (z ++ r))) =
      some (.ok (), a ++ (Bitmap.mark m bit ++ (z ++ r))) := by
  have hfixed : (cut 0 limit).on (a ++ (m ++ (z ++ r))) =
      some (.ok (a ++ (m ++ z)), a ++ (m ++ (z ++ r))) := by
    have hshape : a ++ (m ++ (z ++ r)) = (a ++ (m ++ z)) ++ r := by simp only [List.append_assoc]
    rw [hshape]
    exact on_cut_front (by simp only [List.length_append]; omega)
  have hmark : Bitmap.mark? m bit = some (Bitmap.mark m bit) := if_pos hbit
  rw [mark, on_bind_ok hfixed, on_reach_bind (cut?_middle hstart hstop), on_reach_bind hmark]
  exact on_copy hstart hstop (Bitmap.length_mark m bit)

end InPlace

/-! ## Values -/

namespace CellValue

theorem length_write (oid : UInt32) (stored : Stored) (dest region : Bytes) (offset : Nat) :
    (Placed.write oid stored dest region offset).dest.length = dest.length ∧
      (Placed.write oid stored dest region offset).region.length = region.length := by
  rcases write_cases oid stored dest region offset with
    ⟨-, heq⟩ | ⟨region', -, -, hregion, heq⟩ | ⟨dest', region', -, hdest, hregion, heq⟩
  · rw [heq]
    exact ⟨rfl, rfl⟩
  · rw [heq]
    exact ⟨rfl, hregion.length_eq⟩
  · rw [heq]
    exact ⟨hdest.length_eq, hregion.length_eq⟩

theorem length_place (v : CellValue) (t : ColumnType) (dest region : Bytes) (width offset : Nat)
    (primary : Bool) :
    (v.place t.oid dest width region offset primary).dest.length = dest.length ∧
      (v.place t.oid dest width region offset primary).region.length = region.length := by
  rw [place_oid]
  cases v.store t width offset primary with
  | error e => exact ⟨rfl, rfl⟩
  | ok stored => exact length_write t.oid stored dest region offset

end CellValue

namespace InPlace

variable {a d z r : Bytes}

theorem on_cell {s : Shape} {row : List CellValue} {i slot width limit : Nat} {column : Column}
    {value : CellValue} (hcolumn : s.columns[i]? = some column) (hvalue : row[i]? = some value)
    (hslot : a.length = slot) (hwidth : d.length = width)
    (hlimit : slot + width + z.length = limit) (index offset : Nat) (primary : Bool) :
    (cell s row index i slot width limit offset primary).on (a ++ (d ++ (z ++ r))) =
      some (WireError.inCell index i
          (value.place column.type.oid d column.width r offset primary).outcome,
        a ++ ((value.place column.type.oid d column.width r offset primary).dest ++
          (z ++ (value.place column.type.oid d column.width r offset primary).region))) := by
  have hshape : a ++ (d ++ (z ++ r)) = (a ++ (d ++ z)) ++ r := by simp only [List.append_assoc]
  have hfront : (a ++ (d ++ z)).length = limit := by
    simp only [List.length_append]
    omega
  obtain ⟨hdest, hregion⟩ := value.length_place column.type d r column.width offset primary
  generalize hplaced : value.place column.type.oid d column.width r offset primary = placed
  rw [hplaced] at hdest hregion
  have hfixed : (cut 0 limit).on (a ++ (d ++ (z ++ r))) =
      some (.ok (a ++ (d ++ z)), a ++ (d ++ (z ++ r))) := by
    rw [hshape]
    exact on_cut_front hfront
  have hrest : (cut limit (a ++ (d ++ (z ++ r))).length).on (a ++ (d ++ (z ++ r))) =
      some (.ok r, a ++ (d ++ (z ++ r))) := by
    rw [hshape]
    exact on_cut_back hfront
  have hwritten : (copy slot (slot + width) placed.dest).on (a ++ (d ++ (z ++ r))) =
      some (.ok (), a ++ (placed.dest ++ (z ++ r))) := on_copy hslot (by omega) hdest
  have hput : (copy limit (limit + r.length) placed.region).on (a ++ (placed.dest ++ (z ++ r))) =
      some (.ok (), a ++ (placed.dest ++ (z ++ placed.region))) := by
    have hback : a ++ (placed.dest ++ (z ++ r)) = (a ++ (placed.dest ++ z)) ++ (r ++ []) := by
      simp only [List.append_assoc, List.append_nil]
    rw [hback, on_copy (by simp only [List.length_append]; omega) rfl hregion]
    simp only [List.append_assoc, List.append_nil]
  rw [cell, on_reach_bind hcolumn, on_reach_bind hvalue, on_bind_ok hfixed, on_get_bind,
    on_bind_ok hrest, on_reach_bind (cut?_middle hslot (by omega))]
  simp only [hplaced]
  rw [on_bind_ok hwritten, on_bind_ok hput]
  rfl

end InPlace

/-! ## Sections -/

namespace CellValue

/-- A value with room for its slot and its entry. -/
theorem place_eq {q : Placement} (hslot : q.HasSlot) (hv : q.value.isNull = false)
    {entries rest : Bytes} (hroom : entries.length + q.entryRoom ≤ rest.length) :
    q.value.place q.column.type.oid (zeros q.slotWidth) q.column.width
        (entries ++ rest.drop entries.length) entries.length q.primary =
      match q.value.store q.column.type q.column.width entries.length q.primary with
      | .error e => ⟨zeros q.slotWidth, entries ++ rest.drop entries.length, .error e⟩
      | .ok stored =>
        ⟨stored.slot.fit q.slotWidth,
          (entries ++ stored.entry) ++ rest.drop (entries ++ stored.entry).length,
          .ok (stored.width, stored.entry.length)⟩ := by
  rw [place_oid]
  cases hstore : q.value.store q.column.type q.column.width entries.length q.primary with
  | error e => rfl
  | ok stored =>
    have hlen := Placement.length_entry_le_entryRoom hv hstore
    have hwidth := hslot _ stored hv hstore
    have hregion : (entries ++ rest.drop entries.length).length = rest.length := by
      rw [List.length_append, List.length_drop]
      omega
    have hentry : stored.checkEntry (entries ++ rest.drop entries.length).length entries.length =
        .ok () := by
      rw [hregion]
      exact if_neg fun hlong => by omega
    have hfits : stored.checkSlot q.column.type.oid (zeros q.slotWidth).length = .ok () := by
      rw [length_zeros]
      exact if_neg (Nat.not_lt_of_le hwidth)
    have hput : (if stored.entry = [] then entries ++ rest.drop entries.length
        else (entries ++ rest.drop entries.length).overwrite entries.length stored.entry) =
        (entries ++ stored.entry) ++ rest.drop (entries ++ stored.entry).length := by
      split
      next hnone => rw [hnone, List.append_nil]
      next =>
        rw [overwrite, List.take_left, List.drop_length_add_append, List.drop_drop,
          List.length_append]
    have hdest : (zeros q.slotWidth).overwrite 0 stored.slot = stored.slot.fit q.slotWidth := by
      rw [overwrite, List.take_zero, List.nil_append, Nat.zero_add, Stored.length_slot,
        fit_eq_append (by rw [Stored.length_slot]; exact hwidth), Stored.length_slot, zeros,
        List.drop_replicate]
      rfl
    simp only [Placed.write, hentry, hfits, hput, hdest]

/-- A primary tag has no entry. -/
theorem place_primary {q : Placement} (hslot : q.HasSlot) (hv : q.value.isNull = false)
    (hprimary : q.primary = true) :
    q.value.place q.column.type.oid (zeros q.slotWidth) q.column.width [] 0 true =
      match q.value.store q.column.type q.column.width 0 true with
      | .error e => ⟨zeros q.slotWidth, [], .error e⟩
      | .ok stored => ⟨stored.slot.fit q.slotWidth, [], .ok (stored.width, 0)⟩ := by
  have hroom : ([] : Bytes).length + q.entryRoom ≤ ([] : Bytes).length := by
    rw [Placement.entryRoom, if_pos hprimary]
    exact Nat.zero_le _
  have hplace := place_eq hslot hv hroom
  rw [hprimary, List.length_nil, List.drop_nil, List.append_nil] at hplace
  rw [hplace]
  cases hstore : q.value.store q.column.type q.column.width 0 true with
  | error e => rfl
  | ok stored =>
    dsimp only
    rw [entry_of_store hv hstore]
    rfl

end CellValue

/-- The section behind `front`, its slots filled up to `width`, and what it has not yet
taken of the `rest` behind the slots. -/
def Section.over (s : Section) (front : Bytes) (width : Nat) (rest : Bytes) : Bytes :=
  front ++ (s.bitmap ++ (s.slots.fit width ++ (s.entries ++ rest.drop s.entries.length)))

namespace InPlace

/-- The strip takes column `i` as `q` says, and its bit lies in a bitmap of `bits`
bytes. -/
structure Strip.Takes (t : Strip) (s : Shape) (row : List CellValue) (bits i : Nat)
    (q : Placement) : Prop where
  column : s.columns[i]? = some q.column
  value : row[i]? = some q.value
  number : q.number = i
  first : t.first ≤ i
  bit : q.bit = i - t.first
  bit_lt : q.bit / 8 < bits
  width : t.width q.column = q.slotWidth
  primary : t.primary i = q.primary
  hasSlot : q.HasSlot
  advance : ∀ offset stored, q.value.isNull = false →
    q.value.store q.column.type q.column.width offset q.primary = .ok stored →
    t.advance q.slotWidth stored.width = q.slotWidth

variable {s : Shape} {t : Strip} {row : List CellValue} {index width : Nat} {front rest : Bytes}
  {placement : Nat → Placement} {numbers : List Nat} {laid : Section}

/-- The bytes of a section, cut in front of its last slot and behind it. -/
theorem over_append_slot (laid : Section) {slot : Bytes}
    (hwidth : laid.slots.length + slot.length ≤ width) (entries : Bytes) :
    ({ laid with slots := laid.slots ++ slot, entries } : Section).over front width rest =
      (front ++ (laid.bitmap ++ laid.slots)) ++ (slot ++
        (zeros (width - (laid.slots.length + slot.length)) ++
          (entries ++ rest.drop entries.length))) := by
  rw [Section.over, fit_eq_append (by rw [List.length_append]; exact hwidth), List.length_append]
  simp only [List.append_assoc]

theorem on_cell_over {i : Nat} {q : Placement}
    (hi : t.Takes s row laid.bitmap.length i q) (hv : q.value.isNull = false)
    (hfront : front.length = t.bitmap) (hslots : t.bitmap + laid.bitmap.length = t.slots)
    (hlimit : t.slots + width = t.limit) (hwidth : laid.slots.length + q.slotWidth ≤ width)
    (hroom : laid.entries.length + q.entryRoom ≤ rest.length) (index : Nat) :
    (cell s row index i (t.slots + laid.slots.length) q.slotWidth t.limit laid.entries.length
        q.primary).on (laid.over front width rest) =
      match q.value.store q.column.type q.column.width laid.entries.length q.primary with
      | .error e => some (.error (.cell index i e), laid.over front width rest)
      | .ok stored =>
        some (.ok (stored.width, stored.entry.length),
          ({ laid with
            slots := laid.slots ++ stored.slot.fit q.slotWidth
            entries := laid.entries ++ stored.entry } : Section).over front width rest) := by
  -- The slot is zero before it is written.
  have hblank : laid.over front width rest =
      ({ laid with slots := laid.slots ++ zeros q.slotWidth } : Section).over front width rest := by
    rw [Section.over, Section.over, fit_append_zeros hwidth]
  have hcell := on_cell (r := laid.entries ++ rest.drop laid.entries.length) hi.column hi.value
    (show (front ++ (laid.bitmap ++ laid.slots)).length = t.slots + laid.slots.length by
      simp only [List.length_append]; omega)
    (length_zeros q.slotWidth)
    (show t.slots + laid.slots.length + q.slotWidth +
        (zeros (width - (laid.slots.length + (zeros q.slotWidth).length))).length = t.limit by
      rw [length_zeros, length_zeros]; omega)
    index laid.entries.length q.primary
  rw [hblank, over_append_slot laid (by rw [length_zeros]; exact hwidth) laid.entries, hcell,
    CellValue.place_eq hi.hasSlot hv hroom]
  cases q.value.store q.column.type q.column.width laid.entries.length q.primary with
  | error e => rfl
  | ok stored =>
    have hslot : laid.slots.length + (stored.slot.fit q.slotWidth).length ≤ width := by
      rw [length_fit]
      exact hwidth
    dsimp only
    rw [over_append_slot laid hslot, length_zeros, length_fit]
    rfl

/-- The slot of a missing value stays zero. -/
theorem on_mark_over {i : Nat} {q : Placement} (hi : t.Takes s row laid.bitmap.length i q)
    (hfront : front.length = t.bitmap) (hslots : t.bitmap + laid.bitmap.length = t.slots)
    (hlimit : t.slots + width = t.limit) (hwidth : laid.slots.length + q.slotWidth ≤ width)
    (rest : Bytes) :
    (mark t.bitmap t.slots t.limit q.bit).on (laid.over front width rest) =
      some (.ok (), ({ laid with
        bitmap := Bitmap.mark laid.bitmap q.bit
        slots := laid.slots ++ zeros q.slotWidth } : Section).over front width rest) := by
  rw [Section.over, Section.over, fit_append_zeros hwidth]
  exact on_mark hfront hslots (by rw [length_fit]; exact hlimit) hi.bit_lt

/-- The values are laid out where the section puts them. -/
theorem on_values (hfront : front.length = t.bitmap)
    (hslots : t.bitmap + laid.bitmap.length = t.slots) (hlimit : t.slots + width = t.limit)
    (hrest : laid.room = rest.length)
    (htakes : ∀ i ∈ numbers, t.Takes s row laid.bitmap.length i (placement i))
    (hwidth : laid.slots.length + totalLen ((numbers.map placement).map (·.slotWidth)) ≤ width)
    (hroom : laid.entries.length + totalLen ((numbers.map placement).map (·.entryRoom)) ≤
      rest.length) (index : Nat) (any : Bool) :
    (values s t row index numbers (t.slots + laid.slots.length) laid.entries.length any).on
        (laid.over front width rest) =
      match laid.lay index (numbers.map placement) with
      | (done, .ok ()) =>
        some (.ok (done.entries.length,
          any || (numbers.map placement).any fun q => !q.value.isNull), done.over front width rest)
      | (done, .error e) => some (.error e, done.over front width rest) := by
  induction numbers generalizing laid any with
  | nil =>
    rw [List.map_nil, List.any_nil, Bool.or_false]
    rfl
  | cons i numbers ih =>
    obtain ⟨hi, hnumbers⟩ := List.forall_mem_cons.1 htakes
    rw [List.map_cons, List.map_cons, totalLen_cons] at hwidth hroom
    rw [values, on_reach_bind hi.column, on_reach_bind hi.value, List.map_cons, Section.lay,
      List.any_cons]
    cases hv : (placement i).value.isNull with
    | true =>
      let marked : Section :=
        { laid with
          bitmap := Bitmap.mark laid.bitmap (placement i).bit
          slots := laid.slots ++ zeros (placement i).slotWidth }
      have hput : laid.put (placement i) = .ok marked := if_pos hv
      have hbit : Guarded.minus? i t.first = some (placement i).bit := by
        rw [hi.bit]
        exact if_pos hi.first
      have hmark := on_mark_over hi hfront hslots hlimit (by omega) rest
      have hlen : marked.bitmap.length = laid.bitmap.length := Bitmap.length_mark _ _
      have hnext : t.slots + laid.slots.length + t.width (placement i).column =
          t.slots + marked.slots.length := by
        rw [hi.width, List.length_append, length_zeros, Nat.add_assoc]
      have hroom' : marked.entries.length +
          totalLen ((numbers.map placement).map (·.entryRoom)) ≤ rest.length := by
        show laid.entries.length + _ ≤ _
        omega
      rw [if_pos rfl, on_reach_bind hbit, on_bind_ok hmark, hnext, hput, Bool.not_true,
        Bool.false_or]
      rw [← hlen] at hslots hnumbers
      exact ih hslots hrest hnumbers
        (by rw [List.length_append, length_zeros, Nat.add_assoc]; exact hwidth) hroom' any
    | false =>
      have hput := Section.put_eq (s := laid) hi.hasSlot hv (by omega)
      have hfree : laid.entries.length + (placement i).entryRoom ≤ rest.length := by omega
      have hcell := on_cell_over hi hv hfront hslots hlimit (by omega) hfree index
      rw [if_neg Bool.false_ne_true, hi.width, hi.primary, hput]
      cases hstore : (placement i).value.store (placement i).column.type
          (placement i).column.width laid.entries.length (placement i).primary with
      | error e =>
        rw [hstore] at hcell
        rw [on_bind_error hcell]
        simp only [Except.map, hi.number]
      | ok stored =>
        rw [hstore] at hcell
        let grown : Section :=
          { laid with
            slots := laid.slots ++ stored.slot.fit (placement i).slotWidth
            entries := laid.entries ++ stored.entry }
        have hentry := Placement.length_entry_le_entryRoom hv hstore
        have hlen : grown.slots.length = laid.slots.length + (placement i).slotWidth := by
          rw [List.length_append, length_fit]
        have hused : grown.entries.length = laid.entries.length + stored.entry.length :=
          List.length_append
        have hslots' : t.bitmap + grown.bitmap.length = t.slots := hslots
        have hih := ih hslots' hrest hnumbers (by omega) (by omega) true
        rw [Bool.true_or] at hih
        rw [on_bind_ok hcell, Bool.not_false, Bool.true_or, Bool.or_true]
        simp only [Except.map]
        rw [hi.advance _ stored hv hstore, Nat.add_assoc, ← hlen, ← hused]
        exact hih

/-- A section is laid out from its start. -/
theorem on_values_empty {columns : Nat} (hfront : front.length = t.bitmap)
    (hslots : t.bitmap + Bitmap.size columns = t.slots) (hlimit : t.slots + width = t.limit)
    (htakes : ∀ i ∈ numbers, t.Takes s row (Bitmap.size columns) i (placement i))
    (hwidth : totalLen ((numbers.map placement).map (·.slotWidth)) = width)
    (hroom : totalLen ((numbers.map placement).map (·.entryRoom)) ≤ rest.length) (index : Nat) :
    (values s t row index numbers t.slots 0 false).on
        ((Section.empty columns rest.length).over front width rest) =
      match (Section.empty columns rest.length).lay index (numbers.map placement) with
      | (done, .ok ()) =>
        some (.ok (done.entries.length, (numbers.map placement).any fun q => !q.value.isNull),
          done.over front width rest)
      | (done, .error e) => some (.error e, done.over front width rest) := by
  have hbitmap : (Section.empty columns rest.length).bitmap.length = Bitmap.size columns :=
    length_zeros _
  rw [← hbitmap] at hslots htakes
  have hvalues := on_values hfront hslots hlimit rfl htakes
    (Nat.le_of_eq ((Nat.zero_add _).trans hwidth)) ((Nat.zero_add _).symm ▸ hroom) index false
  rw [Bool.false_or] at hvalues
  exact hvalues

/-! ## Headers -/

variable {p : Packer} {bytes : Bytes} {start len : Nat}

theorem getElem?_row (ha : p.Arity row) {i : Nat} (hi : i < p.layout.columns.length) :
    row[i]? = some (row.getD i .null) := by
  rw [← ha] at hi
  rw [List.getD_eq_getElem _ _ hi, List.getElem?_eq_getElem hi]

theorem getElem?_columns {i : Nat} (hi : i < s.columns.length) :
    s.columns[i]? = some (s.column i) := by
  rw [Shape.column, List.getD_eq_getElem _ _ hi, List.getElem?_eq_getElem hi]

/-- The next primary tag stands behind those that are done, and has no entry. -/
theorem on_cell_primary (ha : p.Arity row) {i : Nat} (hi : i ∈ p.layout.primaryTags)
    (hv : (row.getD i .null).isNull = false) (hfront : front.length = start)
    (hwidth : bytes.length + (p.layout.column i).width ≤ len) (index : Nat) (post : Bytes) :
    (cell p.layout.toShape row index i (start + bytes.length) (p.layout.column i).width
        (front ++ (bytes.fit len ++ post)).length 0 true).on (front ++ (bytes.fit len ++ post)) =
      match (row.getD i .null).store (p.layout.column i).type (p.layout.column i).width 0 true with
      | .error e => some (.error (.cell index i e), front ++ (bytes.fit len ++ post))
      | .ok stored =>
        some (.ok (stored.width, 0),
          front ++ ((bytes ++ stored.slot.fit (p.layout.column i).width).fit len ++ post)) := by
  obtain ⟨htag, hlt⟩ := p.layout.isTag_of_primary hi
  have hplace := CellValue.place_primary (Packer.hasSlot_tagPlacement htag hlt) hv
    (List.elem_eq_true_of_mem hi)
  simp only [Packer.tagPlacement] at hplace
  generalize hw : (p.layout.column i).width = width at hwidth hplace ⊢
  have hshape : ∀ slot : Bytes, slot.length = width →
      front ++ ((bytes ++ slot).fit len ++ post) =
        (front ++ bytes) ++ (slot ++ (zeros (len - (bytes.length + width)) ++ post ++ [])) := by
    intro slot hslot
    rw [fit_eq_append (by rw [List.length_append, hslot]; exact hwidth), List.length_append, hslot]
    simp only [List.append_assoc, List.append_nil]
  have hlength : start + bytes.length + width +
      (zeros (len - (bytes.length + width)) ++ post).length =
        (front ++ (bytes.fit len ++ post)).length := by
    simp only [List.length_append, length_fit, length_zeros]
    omega
  have hcell := on_cell (r := []) (getElem?_columns hlt) (getElem?_row ha hlt)
    (show (front ++ bytes).length = start + bytes.length by rw [List.length_append, hfront])
    (length_zeros width) hlength index 0 true
  -- The slot is zero before it is written.
  have hblank : front ++ (bytes.fit len ++ post) =
      front ++ ((bytes ++ zeros width).fit len ++ post) := by
    rw [fit_append_zeros hwidth]
  rw [hw, hplace, ← hshape _ (length_zeros width), ← hblank] at hcell
  rw [hcell]
  cases (row.getD i .null).store (p.layout.column i).type width 0 true with
  | error e =>
    dsimp only
    rw [← hshape _ (length_zeros width), ← hblank]
    rfl
  | ok stored =>
    dsimp only
    rw [← hshape _ (length_fit _ _)]
    rfl

theorem on_primaries (ha : p.Arity row) (hnumbers : ∀ i ∈ numbers, i ∈ p.layout.primaryTags)
    (hfront : front.length = start)
    (hwidth : bytes.length + totalLen (numbers.map fun i => (p.layout.column i).width) ≤ len)
    (index : Nat) (post : Bytes) :
    (primaries p.layout.toShape row index numbers (start + bytes.length)).on
        (front ++ (bytes.fit len ++ post)) =
      match p.primaryBytes row index bytes numbers with
      | (done, .ok ()) => some (.ok (), front ++ (done.fit len ++ post))
      | (done, .error e) => some (.error e, front ++ (done.fit len ++ post)) := by
  induction numbers generalizing bytes with
  | nil => rfl
  | cons i numbers ih =>
    obtain ⟨hi, hrest⟩ := List.forall_mem_cons.1 hnumbers
    have hlt := (p.layout.isTag_of_primary hi).2
    rw [List.map_cons, totalLen_cons] at hwidth
    rw [primaries, on_reach_bind (getElem?_row ha hlt)]
    cases hv : (row.getD i .null).isNull with
    | true =>
      rw [Packer.primaryBytes]
      simp only [hv, if_true]
      rfl
    | false =>
      have hfits : bytes.length + (p.layout.column i).width ≤ len := by omega
      have hcell := on_cell_primary ha hi hv hfront hfits index post
      rw [if_neg Bool.false_ne_true, Packer.primaryBytes_cons row index bytes numbers hi hv]
      cases hstore : (row.getD i .null).store (p.layout.column i).type (p.layout.column i).width 0
          true with
      | error e =>
        rw [hstore] at hcell
        rw [on_reach_bind (getElem?_columns hlt), on_get_bind, on_bind_error hcell]
      | ok stored =>
        rw [hstore] at hcell
        have hlen : (bytes ++ stored.slot.fit (p.layout.column i).width).length =
            bytes.length + (p.layout.column i).width := by
          rw [List.length_append, length_fit]
        rw [on_reach_bind (getElem?_columns hlt), on_get_bind, on_bind_ok hcell, Nat.add_assoc,
          ← hlen]
        exact ih hrest (by omega)

end InPlace
end SeriesWire
