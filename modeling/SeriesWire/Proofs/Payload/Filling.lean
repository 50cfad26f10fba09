/-
Buffers and the rows they hold.  `PayloadBuffer.Holds` is the invariant of a
buffer between two operations: up to its cursors it is the payload of the rows
that were accepted, with a row count and a data length that only stamping makes
right.  A row that is rejected leaves the rows as they were, one that is
accepted comes behind them.
-/
import SeriesWire.Proofs.Payload.Content

namespace SeriesWire

open Bytes

namespace PayloadBuffer

/-- `b` has the header of a payload opened by `first`, and the blocks of
`rows` behind it. -/
structure Headed (b : PayloadBuffer) (p : Packer) (first : List CellValue)
    (rows : List (List CellValue)) : Prop where
  opens : p.Opens first
  takes : ∀ row ∈ rows, p.Takes row
  rowNum : b.rowNum = rows.length
  headTail : b.headTail = 42 + (p.headRest first).length
  le_capacity : b.tail ≤ b.capacity
  bytes : ∃ count dataLen : Bytes, count.length = 4 ∧ dataLen.length = 4 ∧
    b.bytes = p.laidOut count first dataLen rows

/-- `b` holds `rows` and nothing else. -/
def Holds (b : PayloadBuffer) (p : Packer) : List (List CellValue) → Prop
  | [] => b.headTail = 0 ∧ b.tail = 0 ∧ b.rowNum = 0
  | first :: rest => b.Headed p first (first :: rest)

variable {b b' : PayloadBuffer} {p : Packer} {first row : List CellValue}
  {rows : List (List CellValue)}

theorem Headed.hasHeader (h : b.Headed p first rows) : b.hasHeader = true := by
  rw [PayloadBuffer.hasHeader, bne_iff_ne, h.headTail]
  omega

theorem Holds.hasHeader (h : b.Holds p rows) : b.hasHeader = !rows.isEmpty := by
  cases rows with
  | nil =>
    obtain ⟨hhead, -, -⟩ := h
    rw [PayloadBuffer.hasHeader, hhead]
    rfl
  | cons first rest => exact Headed.hasHeader h

theorem Holds.rowNum (h : b.Holds p rows) : b.rowNum = rows.length := by
  cases rows with
  | nil => exact h.2.2
  | cons first rest => exact Headed.rowNum h

theorem Holds.isEmpty (h : b.Holds p rows) : b.isEmpty = rows.isEmpty := by
  rw [PayloadBuffer.isEmpty, h.rowNum]
  cases rows <;> rfl

/-! ## What stays visible -/

/-- `b'` shows what `b` shows, and has at least its capacity. -/
structure Keeps (b b' : PayloadBuffer) : Prop where
  bytes : b'.bytes = b.bytes
  headTail : b'.headTail = b.headTail
  tail : b'.tail = b.tail
  rowNum : b'.rowNum = b.rowNum
  capacity : b.capacity ≤ b'.capacity

/-- `b'` shows one row more than `b`, whose block stands behind the others. -/
structure Appends (b : PayloadBuffer) (block : Bytes) (b' : PayloadBuffer) : Prop where
  bytes : b'.bytes = b.bytes ++ block
  headTail : b'.headTail = b.headTail
  tail : b'.tail = b.tail + block.length
  rowNum : b'.rowNum = b.rowNum + 1
  capacity : b.capacity ≤ b'.capacity
  le_capacity : b'.tail ≤ b'.capacity

/-- The count starts over behind the last number of 32 bits. -/
theorem Appends.rowCount {block : Bytes} (h : b.Appends block b') :
    b'.rowCount = b.rowCount + 1 := by
  rw [PayloadBuffer.rowCount, h.rowNum, UInt32.ofNat_add]
  rfl

theorem Keeps.refl (b : PayloadBuffer) : b.Keeps b := ⟨rfl, rfl, rfl, rfl, Nat.le_refl _⟩

theorem Keeps.trans {b'' : PayloadBuffer} (h : b.Keeps b') (h' : b'.Keeps b'') : b.Keeps b'' where
  bytes := h'.bytes.trans h.bytes
  headTail := h'.headTail.trans h.headTail
  tail := h'.tail.trans h.tail
  rowNum := h'.rowNum.trans h.rowNum
  capacity := Nat.le_trans h.capacity h'.capacity

theorem Keeps.le_capacity (h : b.Keeps b') (hcap : b.tail ≤ b.capacity) :
    b'.tail ≤ b'.capacity := by
  rw [h.tail]
  exact Nat.le_trans hcap h.capacity

theorem Keeps.appends {b'' : PayloadBuffer} {block : Bytes} (h : b.Keeps b')
    (h' : b'.Appends block b'') : b.Appends block b'' where
  bytes := by rw [h'.bytes, h.bytes]
  headTail := h'.headTail.trans h.headTail
  tail := by rw [h'.tail, h.tail]
  rowNum := by rw [h'.rowNum, h.rowNum]
  capacity := Nat.le_trans h.capacity h'.capacity
  le_capacity := h'.le_capacity

theorem Headed.keeps (h : b.Headed p first rows) (hkeeps : b.Keeps b') :
    b'.Headed p first rows := by
  obtain ⟨count, dataLen, hcount, hlen, hbytes⟩ := h.bytes
  exact ⟨h.opens, h.takes, hkeeps.rowNum.trans h.rowNum, hkeeps.headTail.trans h.headTail,
    hkeeps.le_capacity h.le_capacity,
    ⟨count, dataLen, hcount, hlen, hkeeps.bytes.trans hbytes⟩⟩

/-! ## Room -/

theorem keeps_extend (hcap : b.tail ≤ b.capacity) (size : Nat) : b.Keeps (b.extend size) where
  bytes := List.take_append_of_le_length hcap
  headTail := rfl
  tail := rfl
  rowNum := rfl
  capacity := by
    rw [capacity, capacity, extend, List.length_append]
    exact Nat.le_add_right _ _

theorem keeps_ensure (hcap : b.tail ≤ b.capacity) (needed step : Nat) :
    b.Keeps (b.ensure needed step) := by
  unfold ensure
  split
  · exact keeps_extend hcap _
  · exact .refl b

theorem ensure_data (b : PayloadBuffer) (needed step : Nat) :
    ∃ n, b.ensure needed step = { b with data := b.data ++ zeros n } := by
  unfold ensure
  split
  · exact ⟨_, rfl⟩
  · exact ⟨0, by rw [zeros, List.replicate_zero, List.append_nil]⟩

theorem capacity_le_write (b : PayloadBuffer) (start : Nat) (block : Bytes) :
    b.capacity ≤ (b.write start block).capacity := by
  simp only [capacity, write, overwrite, List.length_append, List.length_take, List.length_drop]
  omega

/-- What is laid out behind the cursors is not seen. -/
theorem keeps_write_tail (hcap : b.tail ≤ b.capacity) (block : Bytes) :
    b.Keeps (b.write b.tail block) where
  bytes := take_overwrite_of_le (Nat.le_refl _) hcap block
  headTail := rfl
  tail := rfl
  rowNum := rfl
  capacity := b.capacity_le_write b.tail block

/-! ## Filling -/

theorem headed_writeHeader (hrows : b.rowNum = 0) (ha : p.Arity row)
    (h : p.writeHeader b row = (b', .ok ())) : b'.Headed p row [] := by
  have hroom := le_capacity_ensure b (p.headerLen row + Payload.dataLenWidth) p.extendStep
  obtain ⟨n, hn⟩ := ensure_data b (p.headerLen row + Payload.dataLenWidth) p.extendStep
  rw [hn] at hroom
  cases hblock : p.headerBlock row b.rowNum
      (b.ensure (p.headerLen row + Payload.dataLenWidth) p.extendStep).capacity with
  | mk laid outcome =>
    rw [hn] at hblock
    simp only [Packer.writeHeader, hn, hblock] at h
    cases outcome with
    | error e => cases h
    | ok done =>
      cases h
      obtain ⟨hopens, rfl⟩ := Packer.headerBlock_ok ha hblock
      have hlen : (p.header.bytes ++ (zeros 4 ++ p.headRest row)).length =
          42 + (p.headRest row).length := by
        rw [List.length_append, List.length_append, PayloadHeader.length_bytes, length_zeros,
          PayloadHeader.identityLen]
        omega
      rw [← Packer.length_headRest ha, ← hlen] at hroom
      change _ + 4 ≤ (b.data ++ zeros n).length at hroom
      refine ⟨hopens, fun row hrow => absurd hrow List.not_mem_nil, hrows, hlen, ?_, ?_⟩
      · rw [capacity]
        simp only [write]
        rw [length_overwrite (by omega)]
        exact hroom
      · refine ⟨zeros 4, slice (b.data ++ zeros n) (42 + (p.headRest row).length) 4,
          length_zeros 4, length_slice_of_le (by omega), ?_⟩
        rw [PayloadBuffer.bytes]
        simp only [write, overwrite, List.take_zero, List.nil_append, Nat.zero_add]
        rw [List.take_append, List.take_of_length_le (Nat.le_add_right _ _),
          Nat.add_sub_cancel_left, hlen]
        simp only [Packer.laidOut, Packer.blocks, List.flatMap_nil, List.append_nil,
          List.append_assoc]
        rfl

/-- The cursors move with the last byte of a header. -/
theorem cursors_writeHeader_error {e : WireError} (h : p.writeHeader b row = (b', .error e)) :
    b'.tail = b.tail ∧ b'.headTail = b.headTail ∧ b'.rowNum = b.rowNum := by
  obtain ⟨n, hn⟩ := ensure_data b (p.headerLen row + Payload.dataLenWidth) p.extendStep
  simp only [Packer.writeHeader, hn] at h
  split at h
  · cases h
    exact ⟨rfl, rfl, rfl⟩
  · cases h

theorem capacity_le_writeHeader (p : Packer) (b : PayloadBuffer) (row : List CellValue) :
    b.capacity ≤ (p.writeHeader b row).1.capacity := by
  obtain ⟨n, hn⟩ := ensure_data b (p.headerLen row + Payload.dataLenWidth) p.extendStep
  have hgrown : b.capacity ≤ (b.data ++ zeros n).length := by
    rw [List.length_append]
    exact Nat.le_add_right _ _
  simp only [Packer.writeHeader, hn]
  split <;> exact Nat.le_trans hgrown (capacity_le_write { b with data := b.data ++ zeros n } 0 _)

theorem appends_writeRow (hcap : b.tail ≤ b.capacity) (ha : p.Arity row)
    (h : p.writeRow b row = (b', .ok ())) : p.Takes row ∧ b.Appends (p.block row) b' := by
  have hroom := le_capacity_ensure b (b.tail + Payload.rowLenWidth + p.rowLen row) p.extendStep
  have hgrown := keeps_ensure hcap (b.tail + Payload.rowLenWidth + p.rowLen row) p.extendStep
  obtain ⟨n, hn⟩ := ensure_data b (b.tail + Payload.rowLenWidth + p.rowLen row) p.extendStep
  rw [hn] at hroom hgrown
  cases hblock : p.rowBlock row b.rowNum
      ((b.ensure (b.tail + Payload.rowLenWidth + p.rowLen row) p.extendStep).capacity - b.tail) with
  | mk laid outcome =>
    rw [hn] at hblock
    simp only [Packer.writeRow, hn, hblock] at h
    cases outcome with
    | error e => cases h
    | ok done =>
      cases h
      obtain ⟨htakes, rfl⟩ := Packer.rowBlock_ok ha hblock
      have hlen := Packer.length_block ha
      change _ ≤ (b.data ++ zeros n).length at hroom
      have hfits : b.tail + (p.block row).length ≤ (b.data ++ zeros n).length := by
        rw [hlen]
        omega
      refine ⟨htakes, hgrown.appends ⟨?_, rfl, rfl, rfl, ?_, ?_⟩⟩
      · exact take_overwrite (Nat.le_trans (Nat.le_add_right _ _) hfits) _
      · exact capacity_le_write { b with data := b.data ++ zeros n } b.tail _
      · rw [capacity]
        simp only [write]
        rw [length_overwrite hfits]
        exact hfits

/-- A row that could not be written leaves the others and the cursors alone. -/
theorem keeps_writeRow_error {e : WireError} (hcap : b.tail ≤ b.capacity)
    (h : p.writeRow b row = (b', .error e)) : b.Keeps b' := by
  have hgrown := keeps_ensure hcap (b.tail + Payload.rowLenWidth + p.rowLen row) p.extendStep
  obtain ⟨n, hn⟩ := ensure_data b (b.tail + Payload.rowLenWidth + p.rowLen row) p.extendStep
  rw [hn] at hgrown
  cases hblock : p.rowBlock row b.rowNum
      ((b.ensure (b.tail + Payload.rowLenWidth + p.rowLen row) p.extendStep).capacity - b.tail) with
  | mk laid outcome =>
    rw [hn] at hblock
    simp only [Packer.writeRow, hn, hblock] at h
    cases outcome with
    | error e' =>
      cases h
      exact hgrown.trans (keeps_write_tail (hgrown.le_capacity hcap) laid)
    | ok done => cases h

theorem Headed.appends (hb : b.Headed p first rows) (htakes : p.Takes row)
    (h : b.Appends (p.block row) b') : b'.Headed p first (rows ++ [row]) := by
  obtain ⟨count, dataLen, hcount, hdata, hbytes⟩ := hb.bytes
  refine ⟨hb.opens, ?_, ?_, h.headTail.trans hb.headTail, h.le_capacity,
    count, dataLen, hcount, hdata, ?_⟩
  · intro row' hrow'
    rw [List.mem_append, List.mem_singleton] at hrow'
    rcases hrow' with hrow' | rfl
    · exact hb.takes row' hrow'
    · exact htakes
  · rw [h.rowNum, List.length_append, List.length_singleton, hb.rowNum]
  · rw [h.bytes, hbytes]
    simp only [Packer.laidOut, Packer.blocks, List.flatMap_append, List.flatMap_cons,
      List.flatMap_nil, List.append_nil, List.append_assoc]

end PayloadBuffer

namespace Packer

/-- The buffer that a row is written to: a new header comes first if there is
none. -/
def opened (p : Packer) (b : PayloadBuffer) (row : List CellValue) :
    PayloadBuffer × Except WireError Unit :=
  if b.hasHeader then (b, .ok ()) else p.writeHeader b row

variable {p : Packer} {b b' : PayloadBuffer} {row : List CellValue}

theorem fillRow_of_not_arity (ha : ¬p.Arity row) :
    p.fillRow b row =
      (b, .error (.malformed (.row (.arity row.length p.layout.columns.length)))) :=
  if_pos ha

theorem fillRow_eq (ha : p.Arity row) :
    p.fillRow b row =
      match p.opened b row with
      | (headed, .error e) => (headed, .error e)
      | (headed, .ok ()) =>
        match p.writeRow headed row with
        | (filled, .ok ()) => (filled, .ok ())
        | (filled, .error e) =>
          ({ filled with tail := b.tail, headTail := b.headTail }, .error e) := by
  have ha' : ¬row.length ≠ p.layout.columns.length := Classical.not_not.2 ha
  rw [fillRow, if_neg ha', ← opened]
  cases p.opened b row with
  | mk headed outcome => cases outcome <;> rfl

theorem fillRow_ok (h : p.fillRow b row = (b', .ok ())) :
    p.Arity row ∧ ∃ headed, p.opened b row = (headed, .ok ()) ∧
      p.writeRow headed row = (b', .ok ()) := by
  by_cases ha : p.Arity row
  · rw [fillRow_eq ha] at h
    refine ⟨ha, ?_⟩
    split at h
    next => cases h
    next headed hopened =>
      split at h
      next filled hrow =>
        cases h
        exact ⟨headed, hopened, hrow⟩
      next => cases h
  · rw [fillRow_of_not_arity ha] at h
    cases h

/-- A row fails for the number of its values, in the header, or behind it. -/
theorem fillRow_error {e : WireError} (h : p.fillRow b row = (b', .error e)) :
    (¬p.Arity row ∧ b' = b) ∨
      (p.Arity row ∧ p.opened b row = (b', .error e)) ∨
      (p.Arity row ∧ ∃ headed filled, p.opened b row = (headed, .ok ()) ∧
        p.writeRow headed row = (filled, .error e) ∧
        b' = { filled with tail := b.tail, headTail := b.headTail }) := by
  by_cases ha : p.Arity row
  · rw [fillRow_eq ha] at h
    refine .inr ?_
    split at h
    next hopened =>
      cases h
      exact .inl ⟨ha, hopened⟩
    next headed hopened =>
      split at h
      next => cases h
      next filled _ hrow =>
        cases h
        exact .inr ⟨ha, headed, filled, hopened, hrow, rfl⟩
  · rw [fillRow_of_not_arity ha] at h
    cases h
    exact .inl ⟨ha, rfl⟩

end Packer

namespace PayloadBuffer

variable {b b' : PayloadBuffer} {p : Packer} {first row : List CellValue}
  {rows : List (List CellValue)}

theorem holds_fillRow_ok (hb : b.Holds p rows) (h : p.fillRow b row = (b', .ok ())) :
    b'.Holds p (rows ++ [row]) := by
  obtain ⟨ha, headed, hopened, hrow⟩ := Packer.fillRow_ok h
  rw [Packer.opened, hb.hasHeader] at hopened
  cases rows with
  | nil =>
    have hheaded := headed_writeHeader hb.rowNum ha hopened
    obtain ⟨htakes, hrow⟩ := appends_writeRow hheaded.le_capacity ha hrow
    exact hheaded.appends htakes hrow
  | cons first rest =>
    cases hopened
    obtain ⟨htakes, hrow⟩ := appends_writeRow (Headed.le_capacity hb) ha hrow
    exact Headed.appends hb htakes hrow

/-- A row that is rejected leaves the others as they were. -/
theorem holds_fillRow_error {e : WireError} (hb : b.Holds p rows)
    (h : p.fillRow b row = (b', .error e)) : b'.Holds p rows := by
  rcases Packer.fillRow_error h with ⟨-, rfl⟩ | ⟨ha, hopened⟩ |
    ⟨ha, headed, filled, hopened, hrow, rfl⟩
  · exact hb
  · rw [Packer.opened, hb.hasHeader] at hopened
    cases rows with
    | nil =>
      obtain ⟨htail, hhead, hnum⟩ := cursors_writeHeader_error hopened
      exact ⟨hhead.trans hb.1, htail.trans hb.2.1, hnum.trans hb.2.2⟩
    | cons first rest => cases hopened
  · rw [Packer.opened, hb.hasHeader] at hopened
    cases rows with
    | nil =>
      have hheaded := headed_writeHeader hb.rowNum ha hopened
      have hkeeps := keeps_writeRow_error hheaded.le_capacity hrow
      exact ⟨hb.1, hb.2.1, hkeeps.rowNum.trans hheaded.rowNum⟩
    | cons first rest =>
      cases hopened
      have hkeeps := keeps_writeRow_error (Headed.le_capacity hb) hrow
      have hheld := Headed.keeps hb hkeeps
      rw [← hkeeps.tail, ← hkeeps.headTail]
      exact hheld

/-! ## Sealing -/

theorem Headed.tail (h : b.Headed p first rows) :
    b.tail = b.headTail + Payload.dataLenWidth + (p.blocks rows).length := by
  obtain ⟨count, dataLen, hcount, hlen, hbytes⟩ := h.bytes
  have htail : b.bytes.length = b.tail := by
    rw [PayloadBuffer.bytes, List.length_take]
    exact Nat.min_eq_left h.le_capacity
  rw [← htail, hbytes, h.headTail]
  simp only [Packer.laidOut, List.length_append, PayloadHeader.length_bytes,
    PayloadHeader.identityLen, Payload.dataLenWidth, hcount, hlen]
  omega

theorem Headed.dataLen (h : b.Headed p first rows) : b.dataLen = (p.blocks rows).length := by
  rw [PayloadBuffer.dataLen, h.tail]
  omega

/-- Four bytes keep of a number of rows what the count keeps of it. -/
theorem ofNatLE_rowCount (b : PayloadBuffer) : ofNatLE 4 b.rowCount.toNat = ofNatLE 4 b.rowNum := by
  have hcount : b.rowCount.toNat = toNatLE (ofNatLE 4 b.rowNum) := by
    rw [toNatLE_ofNatLE]
    exact UInt32.toNat_ofNat
  have hback := ofNatLE_toNatLE (ofNatLE 4 b.rowNum)
  rw [length_ofNatLE] at hback
  rw [hcount, hback]

/-- Stamping makes the row count and the data length right and changes nothing
else. -/
theorem Headed.stamp (h : b.Headed p first rows) (hstamp : b.stamp = .ok b') :
    b'.Headed p first rows ∧
      b'.bytes = p.laidOut (ofNatLE 4 rows.length) first
        (ofNatLE Payload.dataLenWidth (p.blocks rows).length) rows ∧
      (p.blocks rows).length < space Payload.dataLenWidth := by
  rw [PayloadBuffer.stamp, h.hasHeader, h.dataLen] at hstamp
  simp only [Bool.not_true, Bool.false_eq_true, if_false] at hstamp
  split at hstamp
  · cases hstamp
  next hlt =>
    have hcap : b.tail ≤ b.data.length := h.le_capacity
    have htail := h.tail
    rw [h.headTail, show Payload.dataLenWidth = 4 from rfl] at htail
    have hcounted : PayloadHeader.identityLen + (ofNatLE 4 b.rowCount.toNat).length ≤ b.tail := by
      rw [PayloadHeader.identityLen, length_ofNatLE]
      omega
    have hmeasured : 42 + (p.headRest first).length +
        (ofNatLE Payload.dataLenWidth (p.blocks rows).length).length ≤ b.tail := by
      rw [length_ofNatLE, Payload.dataLenWidth]
      omega
    have hwide : (overwrite b.data PayloadHeader.identityLen (ofNatLE 4 b.rowCount.toNat)).length =
        b.data.length := length_overwrite (Nat.le_trans hcounted hcap)
    obtain ⟨count, dataLen, hcount, hlen, hbytes⟩ := h.bytes
    have hstamped : b'.bytes = p.laidOut (ofNatLE 4 rows.length) first
        (ofNatLE Payload.dataLenWidth (p.blocks rows).length) rows := by
      cases hstamp
      rw [PayloadBuffer.bytes] at hbytes ⊢
      simp only [PayloadBuffer.write, h.headTail]
      rw [take_overwrite_comm hmeasured (by omega), take_overwrite_comm hcounted hcap, hbytes,
        Packer.overwrite_laidOut_count (by rw [length_ofNatLE, hcount]),
        Packer.overwrite_laidOut_dataLen (length_ofNatLE _ _) (by rw [length_ofNatLE, hlen]; rfl),
        ofNatLE_rowCount, h.rowNum]
    refine ⟨⟨h.opens, h.takes, ?_, ?_, ?_, _, _, length_ofNatLE _ _, length_ofNatLE _ _, hstamped⟩,
      hstamped, Nat.lt_of_not_le hlt⟩
    · cases hstamp
      exact h.rowNum
    · cases hstamp
      exact h.headTail
    · cases hstamp
      show b.tail ≤ (overwrite (overwrite b.data _ _) b.headTail _).length
      rw [h.headTail, length_overwrite (by omega), hwide]
      exact hcap

theorem Holds.stamp (h : b.Holds p rows) (hstamp : b.stamp = .ok b') :
    rows ≠ [] ∧ b'.Holds p rows ∧ b'.bytes = p.payload rows ∧
      (p.blocks rows).length < space Payload.dataLenWidth := by
  cases rows with
  | nil =>
    rw [PayloadBuffer.stamp, h.hasHeader] at hstamp
    cases hstamp
  | cons first rest =>
    obtain ⟨hheld, hbytes, hlt⟩ := Headed.stamp h hstamp
    exact ⟨List.cons_ne_nil first rest, hheld, hbytes, hlt⟩

/-- A buffer that was reset holds nothing, whatever is left over in it. -/
theorem holds_reset (b : PayloadBuffer) (p : Packer) : b.reset.Holds p [] := ⟨rfl, rfl, rfl⟩

end PayloadBuffer
end SeriesWire
