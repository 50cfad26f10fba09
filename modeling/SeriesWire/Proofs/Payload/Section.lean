/-
Sections.  The tags of a payload and the fields of a row are laid out in the
same way, a bitmap, slots and entries, and read back in the same way.  The
writer stops at the first value that cannot be stored; `lay_ok` says that, when
it does not stop, what it wrote depends on the values alone, and the lemmas
behind it find each value in there again.
-/
import SeriesWire.Payload.Packer
import SeriesWire.Payload.View
import SeriesWire.Proofs.Bitmap
import SeriesWire.Proofs.Cell.Octets
import SeriesWire.Proofs.Outcomes

namespace SeriesWire

open Bytes

namespace Placement

def isEntry (p : Placement) : Bool := p.column.type.isVariable && !p.primary

/-- Whether the value is a text that stands in an entry. -/
def hasEntry (p : Placement) : Bool := p.isEntry && (p.value matches .bytes _)

def entry (p : Placement) : Bytes :=
  if p.hasEntry then textEntry (p.value.octets p.column.type) else []

/-- What the slot begins with when the entries are filled up to `offset`. -/
def content (p : Placement) (offset : Nat) : Bytes :=
  if p.hasEntry then ofNatLE ColumnType.offsetWidth offset
  else if p.column.type.isCharacter then (p.value.octets p.column.type).take p.column.width
  else p.value.octets p.column.type

def slot (p : Placement) (offset : Nat) : Bytes := (p.content offset).fit p.slotWidth

@[simp] theorem length_slot (p : Placement) (offset : Nat) :
    (p.slot offset).length = p.slotWidth := length_fit _ _

/-- What the writer checks of a value before it lays it out. -/
structure Kept (p : Placement) : Prop where
  hasEntry : p.isEntry = true → p.value.isNull = false → p.hasEntry = true
  text : p.hasEntry = true → fitsTextHeader (p.value.octets p.column.type) = true
  offset_le : p.hasEntry = true → ColumnType.offsetWidth ≤ p.slotWidth
  number : ∀ width, p.column.type.fixedWidth? = some width → p.value.isNull = false →
    (p.value.octets p.column.type).length = width ∧ width ≤ p.slotWidth

def bitmapOf (columns : Nat) (ps : List Placement) : Bytes :=
  ps.foldl (fun bitmap p => if p.value.isNull then Bitmap.mark bitmap p.bit else bitmap)
    (zeros (Bitmap.size columns))

def entriesOf (ps : List Placement) : Bytes := ps.flatMap entry

/-- The slots, the entries being filled up to `offset` in front of them. -/
def slotsFrom (offset : Nat) : List Placement → Bytes
  | [] => []
  | p :: rest => p.slot offset ++ slotsFrom (offset + p.entry.length) rest

def view (columns : Nat) (ps : List Placement) : RowView :=
  ⟨bitmapOf columns ps, slotsFrom 0 ps, entriesOf ps⟩

/-! ## Writing -/

theorem hasEntry_of_isNull {p : Placement} (h : p.value.isNull = true) : p.hasEntry = false := by
  rw [hasEntry, CellValue.eq_null_of_isNull h, Bool.and_false]

theorem hasEntry_of_not_isEntry {p : Placement} (h : p.isEntry = false) : p.hasEntry = false := by
  rw [hasEntry, h, Bool.false_and]

theorem Kept.hasEntry_eq {p : Placement} (h : p.Kept) :
    p.hasEntry = (p.isEntry && !p.value.isNull) := by
  by_cases hi : p.isEntry = true
  · by_cases hv : p.value.isNull = true
    · rw [hasEntry_of_isNull hv, hv, Bool.not_true, Bool.and_false]
    · rw [h.hasEntry hi (Bool.eq_false_iff.2 hv), hi, Bool.eq_false_iff.2 hv]
      rfl
  · rw [hasEntry_of_not_isEntry (Bool.eq_false_iff.2 hi), Bool.eq_false_iff.2 hi, Bool.false_and]

theorem slot_of_isNull {p : Placement} (h : p.value.isNull = true) (offset : Nat) :
    p.slot offset = zeros p.slotWidth := by
  have hnil : p.value.octets p.column.type = [] := by rw [CellValue.eq_null_of_isNull h]; rfl
  rw [slot, content, hasEntry_of_isNull h, hnil, List.take_nil]
  simp

theorem entry_of_isNull {p : Placement} (h : p.value.isNull = true) : p.entry = [] := by
  rw [entry, hasEntry_of_isNull h]
  rfl

theorem kept_of_store {p : Placement} {offset : Nat} {stored : Stored}
    (hv : p.value.isNull = false)
    (h : p.value.store p.column.type p.column.width offset p.primary = .ok stored)
    (hroom : stored.width ≤ p.slotWidth) :
    p.Kept ∧ stored.slot.fit p.slotWidth = p.slot offset ∧ stored.entry = p.entry := by
  rcases CellValue.store_ok hv h with ⟨width, hw, hlen, rfl⟩ | ⟨hw, hi, text, ht, rfl⟩ |
    ⟨hi, text, ht, hfits, rfl⟩
  · have hi : p.isEntry = false := by
      rw [isEntry, ColumnType.isVariable_of_fixedWidth? hw, Bool.false_and]
    have hentry := hasEntry_of_not_isEntry hi
    refine ⟨⟨?_, ?_, ?_, ?_⟩, ?_, ?_⟩
    · intro he; rw [hi] at he; cases he
    · intro he; rw [hentry] at he; cases he
    · intro he; rw [hentry] at he; cases he
    · intro width' hw' _
      rw [hw] at hw'
      cases hw'
      exact ⟨hlen, hroom⟩
    · rw [slot, content, hentry, ColumnType.isCharacter_eq, hw, Stored.slot, fit_eq_self hlen]
      rfl
    · rw [entry, hentry]
      rfl
  · have hentry := hasEntry_of_not_isEntry hi
    refine ⟨⟨?_, ?_, ?_, ?_⟩, ?_, ?_⟩
    · intro he; rw [isEntry, hi] at he; cases he
    · intro he; rw [hentry] at he; cases he
    · intro he; rw [hentry] at he; cases he
    · intro width' hw'; rw [hw] at hw'; cases hw'
    · rw [slot, content, hentry, ColumnType.isCharacter_eq, hw, ht]
      exact fit_fit hroom text
    · rw [entry, hentry]
      rfl
  · have hentry : p.hasEntry = true := by rw [hasEntry, isEntry, hi, ht]; rfl
    have hvariable : p.column.type.isVariable = true := (Bool.and_eq_true_iff.1 hi).1
    have hoctets : p.value.octets p.column.type = text := by rw [ht]; rfl
    refine ⟨⟨?_, ?_, ?_, ?_⟩, ?_, ?_⟩
    · intro _ _; exact hentry
    · intro _; rw [hoctets]; exact hfits
    · intro _; exact hroom
    · intro width hw
      rw [ColumnType.fixedWidth?_of_isVariable hvariable] at hw
      cases hw
    · rw [slot, content, hentry, Stored.slot, fit_eq_self (length_ofNatLE _ _)]
      rfl
    · rw [entry, hentry, hoctets]
      rfl

end Placement

namespace Section

/-- What is left of a section behind a value that could be laid out. -/
theorem put_ok {s s' : Section} {p : Placement} (h : s.put p = .ok s') :
    p.Kept ∧
      s' =
        { s with
          bitmap := if p.value.isNull then Bitmap.mark s.bitmap p.bit else s.bitmap
          slots := s.slots ++ p.slot s.entries.length
          entries := s.entries ++ p.entry } := by
  unfold put at h
  by_cases hv : p.value.isNull = true
  · rw [if_pos hv] at h
    refine ⟨⟨?_, ?_, ?_, ?_⟩, ?_⟩
    · intro _ hnot; rw [hv] at hnot; cases hnot
    · intro he; rw [Placement.hasEntry_of_isNull hv] at he; cases he
    · intro he; rw [Placement.hasEntry_of_isNull hv] at he; cases he
    · intro width _ hnot; rw [hv] at hnot; cases hnot
    · rw [if_pos hv, Placement.slot_of_isNull hv, Placement.entry_of_isNull hv, List.append_nil]
      exact (Except.ok.inj h).symm
  · rw [if_neg hv] at h ⊢
    obtain ⟨stored, hstore, h⟩ := Outcome.bind_eq_ok.1 h
    obtain ⟨⟨⟩, -, h⟩ := Outcome.bind_eq_ok.1 h
    obtain ⟨⟨⟩, hslot, h⟩ := Outcome.bind_eq_ok.1 h
    have hroom : stored.width ≤ p.slotWidth := by
      unfold Stored.checkSlot at hslot
      split at hslot
      · cases hslot
      · omega
    obtain ⟨hkept, hs, he⟩ := Placement.kept_of_store (by simpa using hv) hstore hroom
    refine ⟨hkept, ?_⟩
    rw [← hs, ← he]
    exact (Except.ok.inj h).symm

/-- A section that could be laid out to the end depends on the values alone. -/
theorem lay_ok {row : Nat} {s s' : Section} {ps : List Placement}
    (h : s.lay row ps = (s', .ok ())) :
    (∀ p ∈ ps, p.Kept) ∧
      s' =
        { s with
          bitmap := ps.foldl
            (fun bitmap p => if p.value.isNull then Bitmap.mark bitmap p.bit else bitmap) s.bitmap
          slots := s.slots ++ Placement.slotsFrom s.entries.length ps
          entries := s.entries ++ Placement.entriesOf ps } := by
  induction ps generalizing s with
  | nil =>
    cases h
    refine ⟨fun p hp => absurd hp List.not_mem_nil, ?_⟩
    simp [Placement.slotsFrom, Placement.entriesOf]
  | cons p ps ih =>
    rw [lay] at h
    split at h
    next next hput =>
      obtain ⟨hkept, rfl⟩ := put_ok hput
      obtain ⟨hall, rfl⟩ := ih h
      refine ⟨List.forall_mem_cons.2 ⟨hkept, hall⟩, ?_⟩
      simp [Placement.slotsFrom, Placement.entriesOf]
    next => cases h

end Section

/-! ## Reading -/

/-- An entry is found at its offset, whatever stands around it. -/
theorem readEntry_textEntry {text : Bytes} (h : fitsTextHeader text = true)
    (before after : Bytes) :
    readEntry (before ++ (textEntry text ++ after)) before.length =
      .ok (text, before.length + (textEntry text).length) := by
  have hdeclared : toNatLE (ofNatLE 2 (text.length + 1)) = text.length + 1 :=
    toNatLE_ofNatLE_of_lt (fitsTextHeader_iff.1 h)
  have hshape : before ++ (textEntry text ++ after) =
      before ++ (ofNatLE 2 (text.length + 1) ++ ((text ++ [0]) ++ after)) := by
    simp [textEntry, textHeaderLen]
  have hlen : (before ++ (textEntry text ++ after)).length =
      before.length + (text.length + 3) + after.length := by
    rw [List.length_append, List.length_append, length_textEntry]
    omega
  have hprefix : takeAt (before ++ (textEntry text ++ after)) "variable length prefix"
      before.length 2 = .ok (ofNatLE 2 (text.length + 1)) := by
    rw [takeAt, if_neg (by omega), hshape]
    congr 1
    have := slice_append before (ofNatLE 2 (text.length + 1)) ((text ++ [0]) ++ after)
    rwa [length_ofNatLE] at this
  have hentry : takeAt (before ++ (textEntry text ++ after)) "variable entry"
      (before.length + 2) (text.length + 1) = .ok (text ++ [0]) := by
    rw [takeAt, if_neg (by omega), hshape, ← List.append_assoc]
    congr 1
    have := slice_append (before ++ ofNatLE 2 (text.length + 1)) (text ++ [0]) after
    rwa [List.length_append, length_ofNatLE, List.length_append] at this
  rw [readEntry, hprefix]
  show (if toNatLE (ofNatLE 2 (text.length + 1)) = 0 then _ else _) = _
  rw [hdeclared, if_neg (by omega)]
  show (takeAt _ _ (before.length + 2) (text.length + 1)) >>= _ = _
  rw [hentry, length_textEntry]
  show Except.ok ((text ++ [0]).take (text.length + 1 - 1),
    before.length + 2 + (text.length + 1)) = _
  rw [Nat.add_sub_cancel, List.take_left]
  congr 2
  omega

namespace Placement

theorem length_slotsFrom (offset : Nat) (ps : List Placement) :
    (slotsFrom offset ps).length = totalLen (ps.map (·.slotWidth)) := by
  induction ps generalizing offset with
  | nil => rfl
  | cons p ps ih =>
    rw [slotsFrom, List.length_append, length_slot, ih, List.map_cons, totalLen_cons]

theorem length_marks (bitmap : Bytes) (ps : List Placement) :
    (ps.foldl (fun bitmap p => if p.value.isNull then Bitmap.mark bitmap p.bit else bitmap)
      bitmap).length = bitmap.length := by
  induction ps generalizing bitmap with
  | nil => rfl
  | cons p ps ih =>
    rw [List.foldl_cons, ih]
    split
    · exact Bitmap.length_mark bitmap p.bit
    · rfl

theorem length_bitmapOf (columns : Nat) (ps : List Placement) :
    (bitmapOf columns ps).length = Bitmap.size columns := by
  rw [bitmapOf, length_marks, length_zeros]

theorem marked_marks {bitmap : Bytes} {ps : List Placement}
    (hbits : ∀ p ∈ ps, p.bit / 8 < bitmap.length) (column : Nat) :
    Bitmap.marked (ps.foldl (fun bitmap p =>
        if p.value.isNull then Bitmap.mark bitmap p.bit else bitmap) bitmap) column =
      (ps.any (fun p => p.value.isNull && p.bit == column) || Bitmap.marked bitmap column) := by
  induction ps generalizing bitmap with
  | nil => rfl
  | cons p ps ih =>
    obtain ⟨hp, hps⟩ := List.forall_mem_cons.1 hbits
    rw [List.foldl_cons, List.any_cons]
    by_cases hv : p.value.isNull = true
    · rw [if_pos hv, ih (by rwa [Bitmap.length_mark]), Bitmap.marked_mark hp, hv, Bool.true_and,
        Bool.or_left_comm, Bool.or_assoc]
    · rw [if_neg hv, ih hps, Bool.eq_false_iff.2 hv, Bool.false_and, Bool.false_or]

/-- A bitmap with one bit for each value in turn marks the missing ones. -/
theorem marked_bitmapOf {columns : Nat} {ps : List Placement}
    (hbits : ∀ k (h : k < ps.length), ps[k].bit = k) (hcols : ps.length ≤ columns)
    {k : Nat} (hk : k < ps.length) :
    Bitmap.marked (bitmapOf columns ps) k = ps[k].value.isNull := by
  have hinside : ∀ p ∈ ps, p.bit / 8 < (zeros (Bitmap.size columns)).length := by
    intro p hp
    obtain ⟨i, hi, rfl⟩ := List.getElem_of_mem hp
    rw [length_zeros, hbits i hi]
    exact Bitmap.lt_size (by omega)
  rw [bitmapOf, marked_marks hinside, Bitmap.marked_zeros, Bool.or_false, Bool.eq_iff_iff,
    List.any_eq_true]
  constructor
  · rintro ⟨p, hp, h⟩
    obtain ⟨i, hi, rfl⟩ := List.getElem_of_mem hp
    rw [Bool.and_eq_true_iff, beq_iff_eq, hbits i hi] at h
    obtain ⟨hv, rfl⟩ := h
    exact hv
  · intro hv
    exact ⟨ps[k], List.getElem_mem hk, by rw [hv, hbits k hk, Bool.true_and, beq_self_eq_true]⟩

theorem slice_slotsFrom (offset : Nat) {ps : List Placement} {k : Nat} (hk : k < ps.length) :
    slice (slotsFrom offset ps) (totalLen ((ps.take k).map (·.slotWidth))) ps[k].slotWidth =
      ps[k].slot (offset + (entriesOf (ps.take k)).length) := by
  induction ps generalizing offset k with
  | nil => exact absurd hk (Nat.not_lt_zero k)
  | cons p ps ih =>
    cases k with
    | zero =>
      have h := slice_append [] (p.slot offset) (slotsFrom (offset + p.entry.length) ps)
      rwa [length_slot] at h
    | succ k =>
      rw [slotsFrom, List.take_succ_cons, List.map_cons, totalLen_cons, ← length_slot p offset,
        slice_append_add, List.getElem_cons_succ, ih _ (Nat.lt_of_succ_lt_succ hk)]
      simp [entriesOf, Nat.add_assoc]

theorem entriesOf_eq_append {ps : List Placement} {k : Nat} (hk : k < ps.length) :
    entriesOf ps = entriesOf (ps.take k) ++ (ps[k].entry ++ entriesOf (ps.drop (k + 1))) := by
  rw [entriesOf, entriesOf, entriesOf, ← List.flatMap_cons, ← List.flatMap_append,
    ← List.drop_eq_getElem_cons hk, List.take_append_drop]

theorem entriesOf_take_succ {ps : List Placement} {k : Nat} (hk : k < ps.length) :
    entriesOf (ps.take (k + 1)) = entriesOf (ps.take k) ++ ps[k].entry := by
  rw [entriesOf, entriesOf, List.take_succ_eq_append_getElem hk, List.flatMap_append,
    List.flatMap_cons, List.flatMap_nil, List.append_nil]

theorem length_entriesOf_take_le (ps : List Placement) (k : Nat) :
    (entriesOf (ps.take k)).length ≤ (entriesOf ps).length := by
  have hsplit : entriesOf ps = entriesOf (ps.take k) ++ entriesOf (ps.drop k) := by
    rw [entriesOf, entriesOf, entriesOf, ← List.flatMap_append, List.take_append_drop]
  rw [hsplit, List.length_append]
  exact Nat.le_add_right _ _

theorem readEntry_entriesOf {ps : List Placement} {k : Nat} (hk : k < ps.length)
    (hentry : ps[k].hasEntry = true) (hkept : ps[k].Kept) (rest : Bytes) :
    readEntry (entriesOf ps ++ rest) (entriesOf (ps.take k)).length =
      .ok (ps[k].value.octets ps[k].column.type, (entriesOf (ps.take (k + 1))).length) := by
  rw [entriesOf_eq_append hk, entriesOf_take_succ hk, List.append_assoc, List.append_assoc,
    List.length_append, entry, if_pos hentry]
  exact readEntry_textEntry (hkept.text hentry) _ _

/-- Entries take at most so many bytes for each byte of the slots. -/
theorem length_entriesOf_le {ps : List Placement} (hkept : ∀ p ∈ ps, p.Kept) :
    (entriesOf ps).length ≤ space 2 * totalLen (ps.map (·.slotWidth)) := by
  induction ps with
  | nil => exact Nat.zero_le _
  | cons p ps ih =>
    obtain ⟨hp, hps⟩ := List.forall_mem_cons.1 hkept
    have hentry : p.entry.length ≤ space 2 * p.slotWidth := by
      by_cases he : p.hasEntry = true
      · have hfits := fitsTextHeader_iff.1 (hp.text he)
        have hwide : 8 ≤ p.slotWidth := hp.offset_le he
        rw [entry, if_pos he, length_textEntry]
        change _ < space 2 at hfits
        rw [space_two] at hfits ⊢
        omega
      · rw [entry, if_neg he]
        exact Nat.zero_le _
    have hrest := ih hps
    rw [entriesOf, List.flatMap_cons, List.length_append, List.map_cons, totalLen_cons, Nat.mul_add]
    exact Nat.add_le_add hentry hrest

theorem take_slot_of_number {p : Placement} (hkept : p.Kept) {width : Nat}
    (hw : p.column.type.fixedWidth? = some width) (hv : p.value.isNull = false) (offset : Nat) :
    (p.slot offset).take width = p.value.octets p.column.type := by
  obtain ⟨hlen, hroom⟩ := hkept.number width hw hv
  have hentry : p.hasEntry = false := by
    apply hasEntry_of_not_isEntry
    rw [isEntry, ColumnType.isVariable_of_fixedWidth? hw, Bool.false_and]
  rw [slot, content, hentry, ColumnType.isCharacter_eq, hw]
  show ((p.value.octets p.column.type).fit p.slotWidth).take width = _
  rw [take_fit (Nat.le_of_eq hlen.symm) hroom, ← hlen, List.take_length]

theorem slot_of_text {p : Placement} (hc : p.column.type.isCharacter = true)
    (hentry : p.hasEntry = false) (offset : Nat) :
    p.slot offset = fit p.slotWidth ((p.value.octets p.column.type).take p.column.width) := by
  rw [slot, content, hentry, hc]
  rfl

theorem offset_slot {p : Placement} (hentry : p.hasEntry = true) (hkept : p.Kept) {offset : Nat}
    (hoffset : offset < space 8) : PayloadView.offset (p.slot offset) = offset := by
  have hwide : 8 ≤ p.slotWidth := hkept.offset_le hentry
  have hlen : (ofNatLE 8 offset).length = 8 := length_ofNatLE 8 offset
  rw [PayloadView.offset, slot, content, if_pos hentry, slice_zero]
  show toNatLE ((fit p.slotWidth (ofNatLE 8 offset)).take 8) = offset
  rw [take_fit (Nat.le_of_eq hlen.symm) hwide, List.take_of_length_le (Nat.le_of_eq hlen),
    toNatLE_ofNatLE_of_lt hoffset]

end Placement
end SeriesWire
