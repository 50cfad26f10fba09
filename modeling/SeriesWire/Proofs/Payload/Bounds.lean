/-
The reader stays inside.  Step by step the guarded reader comes to what the reader
comes to (`Guarded.parse_eq`, `Guarded.tag_eq`, `Guarded.field_eq`), so no bytes
make it reach outside of them.  What the steps rely on are the lengths that the
parts of a payload were found to have, and the widths that a layout must declare
for its tags.
-/
import SeriesWire.Proofs.Bitmap
import SeriesWire.Proofs.Payload.Guarded
import SeriesWire.Proofs.Payload.Tiling

namespace SeriesWire

open Bytes

namespace Guarded

variable {α β : Type}

/-! ## Steps beside steps -/

variable {g : Guarded α} {x : Except WireError α} {f : α → Guarded β} {k : α → Except WireError β}

theorem report_ok_bind (a : α) (f : α → Guarded β) : report (.ok a) >>= f = f a := rfl

theorem reach_bind {found : Option α} {a : α} (h : found = some a) (f : α → Guarded β) :
    reach found >>= f = f a := by
  rw [h]
  rfl

theorem bind_eq (hg : g = report x) (hf : ∀ a, x = .ok a → f a = report (k a)) :
    g >>= f = report (x >>= k) := by
  rw [hg]
  cases x with
  | error e => rfl
  | ok a => exact hf a rfl

theorem check_eq {c : Prop} [Decidable c] {e : WireError} {f : PUnit → Guarded β}
    {k : PUnit → Except WireError β} (hf : ¬c → f ⟨⟩ = report (k ⟨⟩)) :
    (if c then throw e >>= f else f ⟨⟩) = report (if c then throw e >>= k else k ⟨⟩) := by
  split
  · rfl
  next hc => exact hf hc

/-! ## Accesses inside -/

variable {bs : Bytes} {start stop len : Nat}

theorem cut?_eq (hle : start ≤ stop) (hstop : stop ≤ bs.length) :
    cut? bs start stop = some (bs.slice start (stop - start)) := if_pos ⟨hle, hstop⟩

theorem cut?_add (h : start + len ≤ bs.length) :
    cut? bs start (start + len) = some (bs.slice start len) := by
  rw [cut?_eq (Nat.le_add_right _ _) h, Nat.add_sub_cancel_left]

theorem cut?_take (h : len ≤ bs.length) : cut? bs 0 len = some (bs.take len) := by
  rw [cut?_eq (Nat.zero_le _) h, Nat.sub_zero, slice_zero]

theorem cut?_drop (h : start ≤ bs.length) : cut? bs start bs.length = some (bs.drop start) := by
  rw [cut?_eq h (Nat.le_refl _), slice, List.take_of_length_le (Nat.le_of_eq List.length_drop)]

theorem minus?_eq {a b : Nat} (h : b ≤ a) : minus? a b = some (a - b) := if_pos h

theorem number_eq (h : start + len ≤ bs.length) :
    number bs start len = report (.ok (PayloadHeader.number bs start len)) := by
  rw [number, reach_bind (cut?_add h)]
  rfl

theorem number_whole (h : bs.length = len) : number bs 0 len = report (.ok bs.toNatLE) := by
  rw [number_eq (by omega), PayloadHeader.number, slice_zero, List.take_of_length_le (by omega)]

variable {s : Shape} {i : Nat}

theorem column_eq (h : i < s.columns.length) : column s i = report (.ok (s.column i)) := by
  rw [column, Shape.column, List.getD_eq_getElem _ _ h, List.getElem?_eq_getElem h]
  rfl

theorem widths_eq (width : Column → Nat) (first : Nat) (hi : i ≤ s.columns.length) :
    widths s width first i =
      report (.ok (((s.columns.drop first).take (i - first)).map width)) := by
  rw [widths]
  generalize hcount : i - first = count
  induction count generalizing first with
  | zero => rfl
  | succ count ih =>
    have hfirst : first < s.columns.length := by omega
    have hrest := ih (first + 1) (by omega)
    rw [List.range'_succ, List.mapM_cons, column_eq hfirst, hrest, List.drop_eq_getElem_cons hfirst,
      List.take_succ_cons, List.map_cons, Shape.column, List.getD_eq_getElem _ _ hfirst]
    rfl

/-- A slot among full slots. -/
theorem slot_eq (width : Column → Nat) {first : Nat} (hi : i < s.columns.length) {slots : Bytes}
    (hslots : totalLen (((s.columns.drop first).take (i - first)).map width) +
      width (s.column i) ≤ slots.length) :
    slot s width first i slots =
      report (.ok (PayloadView.slotAfter (((s.columns.drop first).take (i - first)).map width) slots
        (width (s.column i)))) := by
  rw [slot, widths_eq width first (Nat.le_of_lt hi), report_ok_bind, column_eq hi, report_ok_bind,
    cut?_add hslots]
  rfl

/-! ## Tags -/

/-- The widths of a layout leave room for what stands in the slots of the tags. -/
theorem leastWidth_le (layout : Layout) (htag : layout.tagIndex ≤ i)
    (hi : i < layout.columns.length) :
    Shape.leastWidth (layout.column i).type (layout.isPrimary i) ≤ (layout.column i).width := by
  obtain ⟨-, -, hwide, -⟩ := Shape.fault_eq_none.1 layout.faultless
  exact hwide i htag hi

theorem marked_eq {bitmap : Bytes} (hbitmap : bitmap.length = Bitmap.size s.tags.length)
    (htag : s.tagIndex ≤ i) (hi : i < s.columns.length) :
    marked s bitmap i = report (.ok (Bitmap.marked bitmap (i - s.tagIndex))) := by
  have hbit : (i - s.tagIndex) / 8 < bitmap.length :=
    hbitmap ▸ Bitmap.lt_size (Shape.sub_tagIndex_lt htag hi)
  rw [marked, reach_bind (minus?_eq htag), Bitmap.marked?_eq hbit]
  rfl

/-- The slot of a tag, where the slots are as wide as declared. -/
theorem tagSlot_eq {slots : Bytes} (hslots : slots.length = totalLen (s.tags.map (·.width)))
    (htag : s.tagIndex ≤ i) (hi : i < s.columns.length) :
    slot s (·.width) s.tagIndex i slots = report (.ok (PayloadView.tagSlot s slots i)) ∧
      (PayloadView.tagSlot s slots i).length = (s.column i).width := by
  have hdrop : s.columns.drop s.tagIndex = s.tags := List.drop_left
  have hlt := Shape.sub_tagIndex_lt htag hi
  have hle := totalLen_take_add_le (·.width) hlt
  rw [← Shape.column_tag hlt, Nat.add_sub_cancel' htag, ← hslots] at hle
  constructor
  · rw [slot_eq _ hi (by rw [hdrop]; exact hle), hdrop]
    rfl
  · exact length_slice_of_le hle

theorem offset_eq {slot : Bytes} (h : ColumnType.offsetWidth ≤ slot.length) :
    number slot 0 ColumnType.offsetWidth = report (.ok (PayloadView.offset slot)) :=
  number_eq (by rw [Nat.zero_add]; exact h)

theorem entry_eq (region : Bytes) (offset : Nat) :
    entry region offset = report (readEntry region offset) := by
  rw [entry, readEntry]
  refine bind_eq rfl fun length hlength => ?_
  obtain ⟨hle, rfl⟩ := takeAt_eq_ok.1 hlength
  rw [number_whole (length_slice_of_le hle), report_ok_bind]
  refine check_eq fun hdeclared => ?_
  refine bind_eq rfl fun entry hentry => ?_
  obtain ⟨hle, rfl⟩ := takeAt_eq_ok.1 hentry
  rw [reach_bind (minus?_eq (by omega)), reach_bind (cut?_take (by
    rw [length_slice_of_le hle]
    omega))]
  rfl

theorem foldlM_eq {σ : Type} {l : List α} {step : σ → α → Guarded σ}
    {step' : σ → α → Except WireError σ} (first : σ)
    (h : ∀ a ∈ l, ∀ state, step state a = report (step' state a)) :
    l.foldlM step first = report (l.foldlM step' first) := by
  induction l generalizing first with
  | nil => rfl
  | cons a l ih =>
    obtain ⟨ha, hl⟩ := List.forall_mem_cons.1 h
    rw [List.foldlM_cons, List.foldlM_cons]
    exact bind_eq (ha first) fun state _ => ih state hl

theorem hasEntry_eq (hi : i < s.columns.length) :
    hasEntry s i = report (.ok (PayloadView.hasEntry s i)) := by
  rw [hasEntry, column_eq hi, report_ok_bind]
  rfl

theorem expectsEntry_eq {bitmap : Bytes} (hbitmap : bitmap.length = Bitmap.size s.tags.length)
    (htag : s.tagIndex ≤ i) (hi : i < s.columns.length) :
    expectsEntry s bitmap i =
      report (.ok (PayloadView.hasEntry s i && !Bitmap.marked bitmap (i - s.tagIndex))) := by
  rw [expectsEntry, hasEntry_eq hi, report_ok_bind]
  cases PayloadView.hasEntry s i with
  | false => rfl
  | true =>
    rw [if_pos rfl, marked_eq hbitmap htag hi, report_ok_bind]
    rfl

/-- A tag with an entry has room for the offset of the entry. -/
theorem offsetWidth_le (layout : Layout) (htag : layout.tagIndex ≤ i)
    (hi : i < layout.columns.length) (hentry : PayloadView.hasEntry layout.toShape i = true) :
    ColumnType.offsetWidth ≤ (layout.column i).width := by
  have hleast := leastWidth_le layout htag hi
  rw [PayloadView.hasEntry, Bool.and_eq_true] at hentry
  obtain ⟨hvariable, hprimary⟩ := hentry
  rwa [Shape.leastWidth, ColumnType.fixedWidth?_of_isVariable hvariable, hvariable, hprimary]
    at hleast

theorem entriesEnd_eq (layout : Layout) {bitmap slots : Bytes}
    (hbitmap : bitmap.length = Bitmap.size layout.tags.length)
    (hslots : slots.length = totalLen (layout.tags.map (·.width))) (region : Bytes) :
    entriesEnd layout.toShape bitmap slots region =
      report (PayloadView.entriesEnd layout.toShape bitmap slots region) := by
  have hnumbers : List.range' layout.tagIndex (layout.columns.length - layout.tagIndex) =
      layout.numberedTags.map (·.2) := by
    rw [Shape.numberedTags, List.zipIdx_map_snd, Shape.length_sub_tagIndex]
  rw [entriesEnd, PayloadView.entriesEnd, hnumbers, List.foldlM_map]
  refine foldlM_eq 0 fun tag hmem furthest => ?_
  obtain ⟨_, i⟩ := tag
  rw [Shape.numberedTags, List.mk_mem_zipIdx_iff_le_and_getElem?_sub] at hmem
  obtain ⟨htag, hfound⟩ := hmem
  have hi : i < layout.columns.length := by
    obtain ⟨hlt, -⟩ := List.getElem?_eq_some_iff.1 hfound
    rw [Shape.columns, List.length_append]
    rw [Shape.tagIndex] at hlt htag
    omega
  obtain ⟨hslot, hlen⟩ := tagSlot_eq hslots htag hi
  rw [expectsEntry_eq hbitmap htag hi, report_ok_bind]
  dsimp only
  split
  next hexpected =>
    have hroom := offsetWidth_le layout htag hi (Bool.and_eq_true_iff.1 hexpected).1
    rw [hslot, report_ok_bind, offset_eq (by rw [hlen]; exact hroom), report_ok_bind]
    exact bind_eq (entry_eq _ _) fun _ _ => rfl
  next => rfl

/-! ## Payloads -/

/-- The cursor of the reader, `position` bytes into `payload`. -/
def past (payload : Bytes) (position : Nat) : PayloadCursor :=
  ⟨payload.length, position, payload.drop position⟩

variable {payload : Bytes} {position : Nat}

theorem take_past (h : position ≤ payload.length) (what : String) (len : Nat) :
    (past payload position).take what len =
      (takeAt payload what position len).map fun taken =>
        (taken, past payload (position + len)) := by
  simp only [PayloadCursor.take, past, takeAt, List.length_take, List.length_drop, List.drop_drop]
  by_cases hlen : payload.length < position + len
  · rw [if_pos hlen, if_pos (by omega)]
    rfl
  · rw [if_neg hlen, if_neg (by omega)]
    rfl

theorem inCell_map {γ : Type} (row column : Nat) (x : Except WireError α) (h : α → γ) :
    WireError.inCell row column (x.map h) = (WireError.inCell row column x).map h := by
  cases x <;> rfl

/-- A look at the payload beside a move of the cursor. -/
theorem bind_map_eq {γ : Type} {h : α → γ} {k : γ → Except WireError β}
    (hf : ∀ a, x = .ok a → f a = report (k (h a))) : report x >>= f = report (x.map h >>= k) := by
  cases x with
  | error e => rfl
  | ok a => exact hf a rfl

theorem takeAt_bind {what : String} {len : Nat} {f : Bytes → Guarded β}
    {k : Bytes × PayloadCursor → Except WireError β} (h : position ≤ payload.length)
    (hf : ∀ taken, taken.length = len → position + len ≤ payload.length →
      f taken = report (k (taken, past payload (position + len)))) :
    report (takeAt payload what position len) >>= f =
      report ((past payload position).take what len >>= k) := by
  rw [take_past h]
  refine bind_map_eq fun taken htaken => ?_
  obtain ⟨hle, rfl⟩ := takeAt_eq_ok.1 htaken
  exact hf _ (length_slice_of_le hle) hle

theorem header_bind {f : PayloadHeader → Guarded β} {k : PayloadHeader → Except WireError β}
    (hf : Payload.headLen ≤ payload.length → ∀ h, f h = report (k h)) :
    header payload >>= f = report (PayloadHeader.read payload >>= k) := by
  rw [header, PayloadHeader.read]
  split
  · rfl
  next hlen =>
    rw [Payload.headLen] at hlen
    rw [number_eq (by omega), number_eq (by omega), number_eq (by omega), number_eq (by omega),
      number_eq (by omega), number_eq (by omega)]
    exact hf (Nat.le_of_not_lt hlen) _

theorem cut?_row {body : Bytes} (h : s.rowFixedLen ≤ body.length) :
    cut? body 0 (Bitmap.size s.fields.length) = some (body.take (Bitmap.size s.fields.length)) ∧
      cut? body (Bitmap.size s.fields.length) s.rowFixedLen =
        some (body.slice (Bitmap.size s.fields.length) s.rowSize) ∧
      cut? body s.rowFixedLen body.length = some (body.drop s.rowFixedLen) :=
  ⟨cut?_take (Nat.le_trans (Nat.le_add_right _ s.rowSize) h), cut?_add h, cut?_drop h⟩

/-- The rows from `position` on, and what is done behind them. -/
theorem readRows_bind {row count : Nat} {done : List RowView}
    {f : List RowView × Nat → Guarded β} {k : List RowView × PayloadCursor → Except WireError β}
    (h : position ≤ payload.length)
    (hf : ∀ rows stop, stop ≤ payload.length →
      f (rows, stop) = report (k (rows, past payload stop))) :
    readRows s payload row done count position >>= f =
      report (PayloadView.readRows s row done count (past payload position) >>= k) := by
  induction count generalizing row done position with
  | zero => exact hf _ _ h
  | succ count ih =>
    rw [readRows, PayloadView.readRows, bind_assoc, bind_assoc]
    refine takeAt_bind h fun length hlength hle => ?_
    rw [number_whole hlength, report_ok_bind]
    dsimp only
    rw [bind_assoc, bind_assoc, take_past hle, inCell_map]
    refine bind_map_eq fun body hbody => ?_
    obtain ⟨hend, rfl⟩ := takeAt_eq_ok.1 (Outcome.mapError_eq_ok.1 hbody)
    have hlen := length_slice_of_le hend
    dsimp only
    by_cases hshort : length.toNatLE < s.rowFixedLen
    · rw [if_pos hshort, if_pos hshort]
      rfl
    rw [if_neg hshort, if_neg hshort]
    have hfixed : s.rowFixedLen ≤ (payload.slice (position + Payload.rowLenWidth)
        length.toNatLE).length := by
      rw [hlen]
      exact Nat.le_of_not_lt hshort
    obtain ⟨hbitmap, hslots, hentries⟩ := cut?_row hfixed
    rw [reach_bind hbitmap, reach_bind hslots, reach_bind hentries]
    exact ih hend

/-! ### Positions in a payload -/

theorem tagStart_eq (layout : Layout) :
    layout.tagStart =
      Payload.headLen + Payload.primaryLenWidth + layout.primaryLen + Payload.tagLenWidth := by
  rw [Shape.tagStart, Payload.tagStart, Nat.zero_add]

theorem minus?_tagStart (layout : Layout) :
    minus? layout.tagStart Payload.tagLenWidth =
      some (Payload.headLen + Payload.primaryLenWidth + layout.primaryLen) := by
  rw [tagStart_eq, minus?_eq (Nat.le_add_left _ _), Nat.add_sub_cancel]

theorem minus?_tagSectionLen (layout : Layout) :
    minus? layout.tagSectionLen (Bitmap.size layout.tags.length) =
      some (totalLen (layout.tags.map (·.width))) := by
  rw [Shape.tagSectionLen_eq, minus?_eq (Nat.le_add_right _ _), Nat.add_sub_cancel_left]

theorem varStart_eq (layout : Layout) :
    layout.varStart = layout.tagStart + Bitmap.size layout.tags.length +
      totalLen (layout.tags.map (·.width)) := by
  rw [Shape.varStart, Shape.tagSectionLen_eq, Nat.add_assoc]

/-- The entries of the tags are known to be there before they are cut out. -/
theorem take_entries {bitmap slots : Bytes} {start entriesLen : Nat}
    (hstart : start ≤ payload.length)
    (hend : PayloadView.entriesEnd s bitmap slots (payload.drop start) = .ok entriesLen) :
    start + entriesLen ≤ payload.length ∧
      (past payload start).take "tag entries" entriesLen =
        .ok (payload.slice start entriesLen, past payload (start + entriesLen)) := by
  have hregion := PayloadView.entriesEnd_le hend
  rw [List.length_drop] at hregion
  have hle : start + entriesLen ≤ payload.length := by omega
  refine ⟨hle, ?_⟩
  rw [take_past hstart, takeAt_eq_ok.2 ⟨hle, rfl⟩]
  rfl

/-- Reading a payload reaches outside of it for no bytes. -/
theorem parse_eq (layout : Layout) (payload : Bytes) :
    parse layout payload = report (PayloadView.parse layout payload) := by
  rw [parse, PayloadView.parse]
  refine header_bind fun hhead header => ?_
  have htype : payload[Payload.headLen - 1]? = some (payload.getD (Payload.headLen - 1) 0) := by
    rw [Payload.headLen] at hhead ⊢
    rw [List.getElem?_eq_getElem (by omega), List.getD_eq_getElem _ _ (by omega)]
  rw [number_eq (Nat.le_trans (by decide) hhead), report_ok_bind, reach_bind htype]
  refine bind_eq rfl fun rowType _ => ?_
  -- From here on the cursor stands where the guarded reader looks.
  refine takeAt_bind hhead fun length hlength hle => ?_
  rw [number_whole hlength, report_ok_bind]
  refine check_eq fun hprimary => ?_
  rw [Classical.not_not.1 hprimary]
  refine takeAt_bind hle fun primaryTag _ hle => ?_
  rw [reach_bind (minus?_tagStart layout)]
  refine takeAt_bind hle fun length hlength hle => ?_
  rw [number_whole hlength, report_ok_bind]
  refine check_eq fun htag => ?_
  rw [Classical.not_not.1 htag]
  dsimp only
  rw [← tagStart_eq] at hle ⊢
  refine takeAt_bind hle fun bitmap hbitmap hle => ?_
  rw [reach_bind (minus?_tagSectionLen layout), Shape.tagSectionLen_eq, Nat.add_sub_cancel_left]
  refine takeAt_bind hle fun slots hslots hle => ?_
  rw [← varStart_eq] at hle ⊢
  rw [reach_bind (cut?_drop hle)]
  refine bind_eq (entriesEnd_eq layout hbitmap hslots _) fun entriesLen hend => ?_
  obtain ⟨hle, hentries⟩ := take_entries hle hend
  rw [reach_bind (cut?_add hle), hentries, Outcome.ok_bind]
  dsimp only
  refine takeAt_bind hle fun length hlength hle => ?_
  rw [number_whole hlength, report_ok_bind, reach_bind (minus?_eq hle), ← List.length_drop]
  refine check_eq fun hdataLen => ?_
  refine readRows_bind hle fun rows stop hstop => ?_
  dsimp only
  rw [reach_bind (minus?_eq hstop)]
  have hleft : payload.length - stop ≠ 0 ↔ (past payload stop).rest ≠ [] := by
    rw [past, ne_eq, ne_eq, List.drop_eq_nil_iff, Nat.sub_eq_zero_iff_le]
  simp only [hleft]
  rw [← List.length_drop]
  exact check_eq fun _ => rfl

/-! ## Values -/

variable {layout : Layout} {v : PayloadView} {row : RowView} {r c : Nat}

theorem beforeNul_eq_take (bs : Bytes) : beforeNul bs = bs.take (bs.findIdx (· == 0)) := by
  rw [beforeNul, List.takeWhile_eq_take_findIdx_not]
  simp only [bne, Bool.not_not]

theorem tag_eq (h : v.Tiles layout payload) (i : Nat) : tag v i = report (v.tag i) := by
  simp only [tag, PayloadView.tag, h.layout_eq]
  by_cases hcheck : (!layout.isTag i || decide (layout.columns.length ≤ i)) = true
  · rw [if_pos hcheck, if_pos hcheck]
    rfl
  rw [if_neg hcheck, if_neg hcheck]
  have htag : layout.tagIndex ≤ i ∧ i < layout.columns.length := by
    simpa [Shape.isTag] using hcheck
  obtain ⟨htag, hi⟩ := htag
  rw [marked_eq h.length_bitmap htag hi, report_ok_bind]
  by_cases hmarked : Bitmap.marked v.tags.bitmap (i - layout.tagIndex) = true
  · rw [if_pos hmarked, if_pos hmarked]
    rfl
  rw [if_neg hmarked, if_neg hmarked]
  obtain ⟨hslot, hlen⟩ := tagSlot_eq h.length_slots htag hi
  rw [hasEntry_eq hi, report_ok_bind, hslot, report_ok_bind]
  by_cases hentry : PayloadView.hasEntry layout.toShape i = true
  · have hroom := offsetWidth_le layout htag hi hentry
    rw [if_pos hentry, if_pos hentry, offset_eq (hlen ▸ hroom), report_ok_bind, entry_eq]
    cases readEntry v.tags.entries _ <;> rfl
  rw [if_neg hentry, if_neg hentry, column_eq hi, report_ok_bind]
  have hleast := leastWidth_le layout htag hi
  rw [Shape.leastWidth] at hleast
  cases hwidth : (layout.column i).type.fixedWidth? with
  | some width =>
    rw [hwidth] at hleast
    dsimp only at hleast ⊢
    rw [reach_bind (cut?_take (hlen ▸ hleast))]
    rfl
  | none =>
    dsimp only
    rw [reach_bind (cut?_take List.findIdx_le_length), beforeNul_eq_take]
    rfl

theorem fieldSlot_eq (hslots : row.slots.length = s.rowSize) (hc : c < s.tagIndex) :
    slot s (·.slotWidth) 0 c row.slots =
        report (.ok (PayloadView.slotAfter ((s.fields.take c).map (·.slotWidth)) row.slots
          (s.column c).slotWidth)) ∧
      (PayloadView.slotAfter ((s.fields.take c).map (·.slotWidth)) row.slots
        (s.column c).slotWidth).length = (s.column c).slotWidth := by
  have hbefore : (s.columns.drop 0).take (c - 0) = s.fields.take c :=
    List.take_append_of_le_length (Nat.le_of_lt hc)
  have hlt := Shape.lt_length_columns hc
  have hle := totalLen_take_add_le (·.slotWidth) hc
  rw [← Shape.column_field hc] at hle
  change _ ≤ s.rowSize at hle
  rw [← hslots] at hle
  constructor
  · rw [slot_eq _ hlt (by rw [hbefore]; exact hle), hbefore]
  · exact length_slice_of_le hle

theorem field_eq (h : v.Tiles layout payload) (r c : Nat) :
    field v r c = report (v.field r c) := by
  simp only [field, PayloadView.field, h.layout_eq]
  cases hrow : v.rows[r]? with
  | none => rfl
  | some row =>
    dsimp only
    have hfits := h.fits row (List.mem_of_getElem? hrow)
    by_cases htag : layout.isTag c = true
    · rw [if_pos htag, if_pos htag]
      rfl
    rw [if_neg htag, if_neg htag]
    have hc : c < layout.tagIndex := by
      simpa [Shape.isTag] using htag
    have hbit : c / 8 < row.bitmap.length := hfits.bitmap ▸ Bitmap.lt_size hc
    rw [reach_bind (Bitmap.marked?_eq hbit)]
    by_cases hmarked : Bitmap.marked row.bitmap c = true
    · rw [if_pos hmarked, if_pos hmarked]
      rfl
    rw [if_neg hmarked, if_neg hmarked]
    obtain ⟨hslot, hlen⟩ := fieldSlot_eq hfits.slots hc
    have hlt := Shape.lt_length_columns hc
    rw [hslot, report_ok_bind, column_eq hlt, report_ok_bind]
    by_cases hvariable : (layout.column c).type.isVariable = true
    · rw [if_pos hvariable, if_pos hvariable]
      have hroom : (layout.column c).slotWidth = ColumnType.offsetWidth := by
        rw [Column.slotWidth, ColumnType.slotWidth, ColumnType.fixedWidth?_of_isVariable hvariable,
          if_pos hvariable]
      rw [offset_eq (Nat.le_of_eq (hlen.trans hroom).symm), report_ok_bind, entry_eq]
      cases readEntry row.entries _ <;> rfl
    · rw [if_neg hvariable, if_neg hvariable]
      rfl

end Guarded

namespace PayloadView

/-- A payload that is read consists of the parts that the reader shows and of
nothing else.  All its tags have values, and its fields have them from their own
rows; only a text can be missing from its row.  Neither reading the payload nor
asking for a value reaches outside of the bytes. -/
theorem parse_tight (layout : Layout) (payload : Bytes) :
    Guarded.parse layout payload = Guarded.report (PayloadView.parse layout payload) ∧
      ∀ v, PayloadView.parse layout payload = .ok v →
        v.Tiles layout payload ∧
          (∀ i, layout.tagIndex ≤ i → i < layout.columns.length → ∃ value, v.tag i = .ok value) ∧
          (∀ r c, r < v.rowNum → c < layout.tagIndex →
            (∃ value, v.field r c = .ok value ∧
              ∀ bytes, value = some bytes → v.InRow payload r bytes) ∨
            ((layout.column c).type.isVariable = true ∧
              ∃ e, v.field r c = .error (.cell r c e))) ∧
          (∀ i, Guarded.tag v i = Guarded.report (v.tag i)) ∧
          ∀ r c, Guarded.field v r c = Guarded.report (v.field r c) := by
  refine ⟨Guarded.parse_eq layout payload, fun v hv => ?_⟩
  have h := tiles_of_parse hv
  exact ⟨h, fun i => h.tag_ok, fun r c => h.field_within, Guarded.tag_eq h, Guarded.field_eq h⟩

def valveShape : Shape :=
  { fields := [⟨.int4, 4⟩, ⟨.text, 0⟩]
    tags := [⟨.varchar, 8⟩]
    primaryTags := [] }

/-- One row, whose text has an offset that leads out of the row. -/
def valvePayload : Bytes :=
  zeros 38 ++ [1, 0, 0, 0] ++ [0] ++ [0, 0] ++ [9, 0, 0, 0] ++ [0] ++ zeros 8 ++
    [3, 0, 104, 105, 0] ++ [17, 0, 0, 0] ++ [13, 0, 0, 0] ++ [0] ++ [7, 0, 0, 0] ++ ofNatLE 8 600

def valveView : PayloadView :=
  { layout := ⟨valveShape, by decide⟩
    header := {}
    rowNum := 1
    rowType := .tagsAndData
    primaryTag := []
    tags := ⟨[0], zeros 8, [3, 0, 104, 105, 0]⟩
    rows := [⟨[0], [7, 0, 0, 0] ++ ofNatLE 8 600, []⟩] }

theorem tiles_valveView :
    PayloadView.parse valveView.layout valvePayload = .ok valveView ∧
      valveView.Tiles valveView.layout valvePayload ∧ valveView.tag 2 = .ok (some [104, 105]) ∧
      valveView.field 0 0 = .ok (some [7, 0, 0, 0]) ∧
      ∃ e, valveView.field 0 1 = .error (.cell 0 1 e) := by
  have hparse : PayloadView.parse valveView.layout valvePayload = .ok valveView := rfl
  obtain ⟨-, hview⟩ := parse_tight valveView.layout valvePayload
  obtain ⟨htiles, -, hfield, -, -⟩ := hview valveView hparse
  refine ⟨hparse, htiles, rfl, rfl, ?_⟩
  rcases hfield 0 1 (by decide) (by decide) with ⟨value, hvalue, -⟩ | ⟨-, herror⟩
  · cases hvalue
  · exact herror

end PayloadView
end SeriesWire
