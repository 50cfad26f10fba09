/-
Buffers and what was done to them.  A `BufferRun` is a buffer that any operations
led to, in any order and with a packer of its own for each row, together with the
rows that it accepted since it was last rewound.  These rows alone decide where the
cursors stand (`Inv`): a buffer without rows has no header, and one with rows has the
header of the first of them and their blocks behind it.  A row that is rejected has no
part in this, wherever it fails (`keeps_fillRow_error`).
-/
import SeriesWire.Proofs.Payload.Reuse
import SeriesWire.Proofs.Payload.RoundTrip
import SeriesWire.Proofs.Payload.Tiling

namespace SeriesWire

open Bytes

theorem Shape.le_varStart (s : Shape) : 49 ≤ s.varStart := by
  rw [Shape.varStart, Shape.tagStart, Payload.tagStart, Payload.headLen, Payload.primaryLenWidth,
    Payload.tagLenWidth]
  omega

theorem RowView.length_flatMap_block (rows : List RowView) :
    (rows.flatMap block).length =
      totalLen (rows.map fun row => Payload.rowLenWidth + row.bytes.length) := by
  induction rows with
  | nil => rfl
  | cons row rows ih =>
    rw [List.flatMap_cons, List.length_append, row.length_block, List.map_cons, totalLen_cons, ih]

namespace PayloadBuffer

variable {b b' : PayloadBuffer} {p : Packer} {first row : List CellValue} {rows : List RowView}

/-! ## Cursors -/

/-- The cursors of a buffer without a header. -/
structure Blank (b : PayloadBuffer) : Prop where
  headTail : b.headTail = 0
  tail : b.tail = 0
  rowNum : b.rowNum = 0

/-- `b` has the header that `first` opened, and behind it the blocks of `rows`. -/
structure Shows (b : PayloadBuffer) (p : Packer) (first : List CellValue) (rows : List RowView) :
    Prop where
  headTail : b.headTail = p.layout.varStart + (p.tagView first).entries.length
  tail : b.tail = b.headTail + Payload.dataLenWidth + (rows.flatMap RowView.block).length
  le_capacity : b.tail ≤ b.capacity
  rowNum : b.rowNum = rows.length
  data : b.bytes.drop (b.headTail + Payload.dataLenWidth) = rows.flatMap RowView.block
  length_lt : ∀ row ∈ rows, row.bytes.length < space Payload.rowLenWidth

/-- What every operation relies on: a buffer has a header exactly if it has rows, and
shows bytes only where it has some. -/
structure Sound (b : PayloadBuffer) : Prop where
  hasHeader_iff : b.hasHeader = true ↔ b.rowNum ≠ 0
  tail_eq_zero : b.hasHeader = false → b.tail = 0
  le_capacity : b.tail ≤ b.capacity

theorem Sound.rowNum_eq_zero (hb : b.Sound) (h : ¬b.hasHeader = true) : b.rowNum = 0 :=
  Classical.not_not.1 fun hrows => h (hb.hasHeader_iff.2 hrows)

theorem Blank.hasHeader (h : b.Blank) : b.hasHeader = false := by
  rw [PayloadBuffer.hasHeader, h.headTail]
  rfl

theorem Blank.sound (h : b.Blank) : b.Sound where
  hasHeader_iff := by
    rw [h.hasHeader, h.rowNum]
    decide
  tail_eq_zero _ := h.tail
  le_capacity := by
    rw [h.tail]
    exact Nat.zero_le _

theorem Shows.le_headTail (h : b.Shows p first rows) : 49 ≤ b.headTail := by
  have hle := p.layout.le_varStart
  rw [h.headTail]
  omega

theorem Shows.hasHeader (h : b.Shows p first rows) : b.hasHeader = true := by
  have hle := h.le_headTail
  rw [PayloadBuffer.hasHeader, bne_iff_ne]
  omega

theorem Shows.sound (h : b.Shows p first rows) (hrows : rows ≠ []) : b.Sound where
  hasHeader_iff := by
    rw [h.rowNum]
    exact ⟨fun _ hnone => hrows (List.eq_nil_of_length_eq_zero hnone), fun _ => h.hasHeader⟩
  tail_eq_zero hnone := by
    rw [h.hasHeader] at hnone
    cases hnone
  le_capacity := h.le_capacity

theorem length_bytes_of_le (hcap : b.tail ≤ b.capacity) : b.bytes.length = b.tail := by
  rw [PayloadBuffer.bytes, List.length_take]
  exact Nat.min_eq_left hcap

theorem Keeps.contents (h : b.Keeps b') : b'.contents = b.contents := by
  rw [PayloadBuffer.contents, PayloadBuffer.contents, h.bytes, h.headTail, h.tail, h.rowNum]

/-! ## Operations -/

theorem Blank.keeps (h : b.Blank) (hkeeps : b.Keeps b') : b'.Blank :=
  ⟨hkeeps.headTail.trans h.headTail, hkeeps.tail.trans h.tail, hkeeps.rowNum.trans h.rowNum⟩

theorem Shows.keeps (h : b.Shows p first rows) (hkeeps : b.Keeps b') : b'.Shows p first rows where
  headTail := hkeeps.headTail.trans h.headTail
  tail := by rw [hkeeps.tail, hkeeps.headTail, h.tail]
  le_capacity := hkeeps.le_capacity h.le_capacity
  rowNum := hkeeps.rowNum.trans h.rowNum
  data := by rw [hkeeps.bytes, hkeeps.headTail, h.data]
  length_lt := h.length_lt

theorem Shows.appends {view : RowView} (h : b.Shows p first rows)
    (hlt : view.bytes.length < space Payload.rowLenWidth) (happ : b.Appends view.block b') :
    b'.Shows p first (rows ++ [view]) where
  headTail := happ.headTail.trans h.headTail
  tail := by
    have htail := h.tail
    rw [happ.tail, happ.headTail, List.flatMap_append, List.length_append, List.flatMap_singleton]
    omega
  le_capacity := happ.le_capacity
  rowNum := by rw [happ.rowNum, h.rowNum, List.length_append, List.length_singleton]
  data := by
    have hlen := length_bytes_of_le h.le_capacity
    have htail := h.tail
    rw [happ.bytes, happ.headTail, List.drop_append_of_le_length (by omega), h.data,
      List.flatMap_append, List.flatMap_singleton]
  length_lt := by
    intro row hrow
    rw [List.mem_append, List.mem_singleton] at hrow
    rcases hrow with hrow | rfl
    · exact h.length_lt row hrow
    · exact hlt

/-- A new header shows no rows yet. -/
theorem Headed.shows (h : b.Headed p row []) : b.Shows p row [] where
  headTail := by rw [h.headTail, Packer.length_headRest h.opens.arity, Packer.headerLen_eq]
  tail := h.tail
  le_capacity := h.le_capacity
  rowNum := h.rowNum
  data := by
    have htail : b.tail = b.headTail + Payload.dataLenWidth := h.tail
    rw [List.flatMap_nil, ← htail]
    exact List.drop_of_length_le (Nat.le_of_eq (length_bytes_of_le h.le_capacity))
  length_lt := fun row hrow => absurd hrow List.not_mem_nil

/-- What is written in front of a position leaves alone what stands behind it. -/
theorem drop_bytes_write {n : Nat} (hcap : b.tail ≤ b.capacity) (hn : n ≤ b.tail) (start : Nat)
    (block : Bytes) (h : start + block.length ≤ n) :
    (b.write start block).capacity = b.capacity ∧
      (b.write start block).bytes.drop n = b.bytes.drop n := by
  rw [capacity] at hcap
  constructor
  · exact length_overwrite (by omega)
  · rw [PayloadBuffer.bytes, PayloadBuffer.bytes, List.drop_take, List.drop_take]
    simp only [write]
    rw [drop_overwrite (by omega) h]

/-- A stamp changes only the count in the head and the length in front of the rows. -/
theorem Shows.stamp (h : b.Shows p first rows) (hstamp : b.stamp = .ok b') :
    b'.Shows p first rows ∧ b'.capacity = b.capacity := by
  rw [PayloadBuffer.stamp, h.hasHeader] at hstamp
  simp only [Bool.not_true, Bool.false_eq_true, if_false] at hstamp
  split at hstamp
  · cases hstamp
  next =>
    cases hstamp
    have hle := h.le_headTail
    have hn : b.headTail + Payload.dataLenWidth ≤ b.tail := by
      rw [h.tail]
      exact Nat.le_add_right _ _
    obtain ⟨hcount, hcounted⟩ := drop_bytes_write h.le_capacity hn PayloadHeader.identityLen
      (ofNatLE 4 b.rowCount.toNat) (by rw [length_ofNatLE, PayloadHeader.identityLen]; omega)
    have hheld : (b.write PayloadHeader.identityLen (ofNatLE 4 b.rowCount.toNat)).tail ≤
        (b.write PayloadHeader.identityLen (ofNatLE 4 b.rowCount.toNat)).capacity :=
      hcount ▸ h.le_capacity
    obtain ⟨hlen, hmeasured⟩ := drop_bytes_write hheld hn b.headTail
      (ofNatLE Payload.dataLenWidth b.dataLen) (Nat.le_of_eq (by rw [length_ofNatLE]))
    have hcap := hlen.trans hcount
    exact ⟨⟨h.headTail, h.tail, hcap ▸ h.le_capacity, h.rowNum,
      (hmeasured.trans hcounted).trans h.data, h.length_lt⟩, hcap⟩

/-! ## Rows -/

/-- A rejected row leaves no trace, wherever it failed. -/
theorem keeps_fillRow_error {e : WireError} (hb : b.Sound) (h : p.fillRow b row = (b', .error e)) :
    b.Keeps b' := by
  rcases Packer.fillRow_error h with ⟨-, rfl⟩ | ⟨-, hopened⟩ |
    ⟨ha, headed, filled, hopened, hrow, rfl⟩
  · exact .refl _
  · rw [Packer.opened] at hopened
    split at hopened
    next => cases hopened
    next hnone =>
      obtain ⟨htail, hheadTail, hrowNum⟩ := cursors_writeHeader_error hopened
      have hzero := hb.tail_eq_zero (Bool.eq_false_iff.2 hnone)
      have hcap := capacity_le_writeHeader p b row
      rw [hopened] at hcap
      refine ⟨?_, hheadTail, htail, hrowNum, hcap⟩
      rw [PayloadBuffer.bytes, PayloadBuffer.bytes, htail, hzero, List.take_zero, List.take_zero]
  · rw [Packer.opened] at hopened
    split at hopened
    next =>
      cases hopened
      have hkeeps := keeps_writeRow_error hb.le_capacity hrow
      rw [← hkeeps.tail, ← hkeeps.headTail]
      exact hkeeps
    next hnone =>
      -- The header was written, but the cursors go back in front of it.
      have hzero := hb.tail_eq_zero (Bool.eq_false_iff.2 hnone)
      have hrows := hb.rowNum_eq_zero hnone
      have hheaded := headed_writeHeader hrows ha hopened
      have hkeeps := keeps_writeRow_error hheaded.le_capacity hrow
      have hcap := capacity_le_writeHeader p b row
      rw [hopened] at hcap
      refine ⟨?_, rfl, rfl, ?_, Nat.le_trans hcap hkeeps.capacity⟩
      · rw [PayloadBuffer.bytes, PayloadBuffer.bytes]
        simp only [hzero, List.take_zero]
      · show filled.rowNum = b.rowNum
        rw [hkeeps.rowNum, hheaded.rowNum, hrows]
        rfl

/-- An accepted row comes behind the others. -/
theorem appends_fillRow (hb : b.Sound) (hheader : b.hasHeader = true)
    (h : p.fillRow b row = (b', .ok ())) : p.Takes row ∧ b.Appends (p.block row) b' := by
  obtain ⟨ha, headed, hopened, hrow⟩ := Packer.fillRow_ok h
  rw [Packer.opened, if_pos hheader] at hopened
  cases hopened
  exact appends_writeRow hb.le_capacity ha hrow

/-- The first row comes behind a header of its own. -/
theorem Blank.fillRow (hb : b.Blank) (h : p.fillRow b row = (b', .ok ())) :
    b'.Shows p row [p.fieldView row] := by
  obtain ⟨ha, headed, hopened, hrow⟩ := Packer.fillRow_ok h
  rw [Packer.opened, hb.hasHeader] at hopened
  have hheaded := headed_writeHeader hb.rowNum ha hopened
  obtain ⟨htakes, happ⟩ := appends_writeRow hheaded.le_capacity ha hrow
  exact hheaded.shows.appends htakes.length_lt happ

theorem capacity_le_fillRow (hb : b.Sound) (p : Packer) (row : List CellValue) :
    b.capacity ≤ (p.fillRow b row).1.capacity := by
  cases hfill : p.fillRow b row with
  | mk b' outcome =>
    cases outcome with
    | error e => exact (keeps_fillRow_error hb hfill).capacity
    | ok done =>
      obtain ⟨ha, headed, hopened, hrow⟩ := Packer.fillRow_ok hfill
      rw [Packer.opened] at hopened
      split at hopened
      next =>
        cases hopened
        exact (appends_writeRow hb.le_capacity ha hrow).2.capacity
      next hnone =>
        have hrows := hb.rowNum_eq_zero hnone
        have hheaded := headed_writeHeader hrows ha hopened
        have hcap := capacity_le_writeHeader p b row
        rw [hopened] at hcap
        exact Nat.le_trans hcap (appends_writeRow hheaded.le_capacity ha hrow).2.capacity

end PayloadBuffer

/-! ## Runs -/

/-- An operation on a buffer.  Each row can have a packer of its own. -/
inductive BufferOp
  | fill (p : Packer) (row : List CellValue)
  | ensure (needed step : Nat)
  | extend (size : Nat)
  | stamp
  | reset

/-- A buffer, and the rows that it accepted since it was last rewound. -/
structure BufferRun where
  buffer : PayloadBuffer
  accepted : List (Packer × List CellValue) := []

namespace BufferRun

def start (capacity : Nat) : BufferRun := { buffer := .withCapacity capacity }

def step (r : BufferRun) : BufferOp → BufferRun
  | .fill p row =>
    match p.fillRow r.buffer row with
    | (buffer, .ok ()) => ⟨buffer, r.accepted ++ [(p, row)]⟩
    | (buffer, .error _) => { r with buffer }
  | .ensure needed step => { r with buffer := r.buffer.ensure needed step }
  | .extend size => { r with buffer := r.buffer.extend size }
  | .stamp =>
    match r.buffer.stamp with
    | .ok buffer => { r with buffer }
    | .error _ => r
  | .reset => { buffer := r.buffer.reset }

def run (r : BufferRun) (ops : List BufferOp) : BufferRun := ops.foldl step r

/-- The accepted rows as they stand in the buffer. -/
def views (r : BufferRun) : List RowView := r.accepted.map fun (p, row) => p.fieldView row

/-- The accepted rows decide about the cursors. -/
def Inv (r : BufferRun) : Prop :=
  match r.accepted with
  | [] => r.buffer.Blank
  | (p, first) :: _ => r.buffer.Shows p first r.views

variable {r : BufferRun}

theorem Inv.sound (h : r.Inv) : r.buffer.Sound := by
  obtain ⟨buffer, accepted⟩ := r
  cases accepted with
  | nil => exact PayloadBuffer.Blank.sound h
  | cons opening rest => exact PayloadBuffer.Shows.sound h (List.cons_ne_nil _ _)

theorem Inv.keeps {buffer : PayloadBuffer} (h : r.Inv) (hkeeps : r.buffer.Keeps buffer) :
    Inv { r with buffer } := by
  obtain ⟨b, accepted⟩ := r
  cases accepted with
  | nil => exact PayloadBuffer.Blank.keeps h hkeeps
  | cons opening rest => exact PayloadBuffer.Shows.keeps h hkeeps

theorem Inv.fill {p : Packer} {row : List CellValue} {buffer : PayloadBuffer} (h : r.Inv)
    (hfill : p.fillRow r.buffer row = (buffer, .ok ())) :
    Inv ⟨buffer, r.accepted ++ [(p, row)]⟩ := by
  obtain ⟨b, accepted⟩ := r
  cases accepted with
  | nil => exact PayloadBuffer.Blank.fillRow h hfill
  | cons opening rest =>
    have hshows : b.Shows opening.1 opening.2 (views ⟨b, opening :: rest⟩) := h
    obtain ⟨htakes, happ⟩ := PayloadBuffer.appends_fillRow h.sound hshows.hasHeader hfill
    have hnext := hshows.appends htakes.length_lt happ
    have hviews : views ⟨buffer, opening :: rest ++ [(p, row)]⟩ =
        views ⟨b, opening :: rest⟩ ++ [p.fieldView row] := List.map_append
    rw [← hviews] at hnext
    exact hnext

theorem inv_start (capacity : Nat) : (start capacity).Inv := ⟨rfl, rfl, rfl⟩

theorem inv_step (h : r.Inv) (op : BufferOp) : (r.step op).Inv := by
  cases op with
  | fill p row =>
    simp only [step]
    split
    next hfill => exact h.fill hfill
    next hfill => exact h.keeps (PayloadBuffer.keeps_fillRow_error h.sound hfill)
  | ensure needed step => exact h.keeps (PayloadBuffer.keeps_ensure h.sound.le_capacity needed step)
  | extend size => exact h.keeps (PayloadBuffer.keeps_extend h.sound.le_capacity size)
  | stamp =>
    simp only [step]
    split
    next buffer hstamp =>
      obtain ⟨b, accepted⟩ := r
      cases accepted with
      | nil =>
        rw [PayloadBuffer.stamp, PayloadBuffer.Blank.hasHeader h] at hstamp
        cases hstamp
      | cons opening rest => exact (PayloadBuffer.Shows.stamp h hstamp).1
    next => exact h
  | reset => exact ⟨rfl, rfl, rfl⟩

theorem inv_run (h : r.Inv) (ops : List BufferOp) : (r.run ops).Inv := by
  induction ops generalizing r with
  | nil => exact h
  | cons op ops ih => exact ih (inv_step h op)

/-- A buffer never gives room back. -/
theorem capacity_le_step (h : r.Inv) (op : BufferOp) :
    r.buffer.capacity ≤ (r.step op).buffer.capacity := by
  cases op with
  | fill p row =>
    have hcap := PayloadBuffer.capacity_le_fillRow h.sound p row
    simp only [step]
    split
    next hfill => rwa [hfill] at hcap
    next hfill => rwa [hfill] at hcap
  | ensure needed step =>
    exact (PayloadBuffer.keeps_ensure h.sound.le_capacity needed step).capacity
  | extend size => exact (PayloadBuffer.keeps_extend h.sound.le_capacity size).capacity
  | stamp =>
    simp only [step]
    split
    next buffer hstamp =>
      obtain ⟨b, accepted⟩ := r
      cases accepted with
      | nil =>
        rw [PayloadBuffer.stamp, PayloadBuffer.Blank.hasHeader h] at hstamp
        cases hstamp
      | cons opening rest => exact Nat.le_of_eq (PayloadBuffer.Shows.stamp h hstamp).2.symm
    next => exact Nat.le_refl _
  | reset => exact Nat.le_refl _

end BufferRun

namespace PayloadBuffer

/-- Operations led to it from a new buffer. -/
def Reached (b : PayloadBuffer) : Prop :=
  ∃ capacity ops, ((BufferRun.start capacity).run ops).buffer = b

variable {b b' : PayloadBuffer}

theorem Reached.sound (h : b.Reached) : b.Sound := by
  obtain ⟨capacity, ops, rfl⟩ := h
  exact (BufferRun.inv_run (BufferRun.inv_start capacity) ops).sound

theorem reached_withCapacity (capacity : Nat) : (withCapacity capacity).Reached :=
  ⟨capacity, [], rfl⟩

/-- One more operation. -/
theorem Reached.step (h : b.Reached) (op : BufferOp)
    (hstep : ∀ r : BufferRun, r.buffer = b → (r.step op).buffer = b') : b'.Reached := by
  obtain ⟨capacity, ops, hb⟩ := h
  refine ⟨capacity, ops ++ [op], ?_⟩
  rw [BufferRun.run, List.foldl_append]
  exact hstep _ hb

theorem Reached.fillRow (h : b.Reached) (p : Packer) (row : List CellValue) :
    (p.fillRow b row).1.Reached := by
  refine h.step (.fill p row) fun r hr => ?_
  rw [← hr]
  simp only [BufferRun.step]
  split
  next hfill => rw [hfill]
  next hfill => rw [hfill]

theorem Reached.stamp (h : b.Reached) (hstamp : b.stamp = .ok b') : b'.Reached := by
  refine h.step .stamp fun r hr => ?_
  simp only [BufferRun.step, hr, hstamp]

theorem Reached.reset (h : b.Reached) : b.reset.Reached :=
  h.step .reset fun _ hr => congrArg PayloadBuffer.reset hr

/-- Whatever was done to a buffer before: a row that is rejected leaves all that can be
seen of it as it was, and one that is accepted behind others only adds its block and
counts as one more. -/
theorem all_or_nothing (capacity : Nat) (ops : List BufferOp) (p : Packer) (row : List CellValue) :
    let b := ((BufferRun.start capacity).run ops).buffer
    (∀ b' e, p.fillRow b row = (b', .error e) → b'.contents = b.contents) ∧
      ∀ b', b.hasHeader = true → p.fillRow b row = (b', .ok ()) →
        b'.bytes = b.bytes ++ p.block row ∧ b'.headTail = b.headTail ∧
          b'.rowNum = b.rowNum + 1 ∧ b'.rowCount = b.rowCount + 1 := by
  intro b
  have hsound : b.Sound := (BufferRun.inv_run (BufferRun.inv_start capacity) ops).sound
  constructor
  · intro b' e hfill
    exact (keeps_fillRow_error hsound hfill).contents
  · intro b' hheader hfill
    obtain ⟨-, happ⟩ := appends_fillRow hsound hheader hfill
    exact ⟨happ.bytes, happ.headTail, happ.rowNum, happ.rowCount⟩

/-- A note that is a number is rejected behind the header that its row would have
opened, and again behind another row; the row that comes next is appended. -/
theorem untouched_meterRows :
    let row := meterRows.getD 0 []
    let wrong := meterRows.getD 1 []
    let next := meterRows.getD 2 []
    let empty := ((BufferRun.start 0).run []).buffer
    let b := ((BufferRun.start 0).run [.fill meterPacker row]).buffer
    (meterPacker.opened empty wrong).2.isOk = true ∧
      (meterPacker.fillRow empty wrong).1.contents = empty.contents ∧
      (meterPacker.fillRow b wrong).1.contents = b.contents ∧
      (meterPacker.fillRow b next).1.bytes = b.bytes ++ meterPacker.block next ∧
      (meterPacker.fillRow b next).1.rowNum = b.rowNum + 1 ∧
      (meterPacker.fillRow b next).1.rowCount = b.rowCount + 1 := by
  intro row wrong next empty b
  have hfails : ∀ b' row', (meterPacker.fillRow b' row').2.isOk = false →
      ∃ e, meterPacker.fillRow b' row' = ((meterPacker.fillRow b' row').1, .error e) := by
    intro b' row' hfail
    obtain ⟨e, hfail⟩ := Outcome.exists_of_not_isOk hfail
    exact ⟨e, Prod.ext rfl hfail⟩
  have hworks : ∀ b' row', (meterPacker.fillRow b' row').2.isOk = true →
      meterPacker.fillRow b' row' = ((meterPacker.fillRow b' row').1, .ok ()) := by
    intro b' row' hok
    obtain ⟨done, hok⟩ := Outcome.exists_of_isOk hok
    exact Prod.ext rfl hok
  obtain ⟨e, hfirst⟩ := hfails empty wrong (by decide +kernel)
  obtain ⟨e', hwrong⟩ := hfails b wrong (by decide +kernel)
  have hnext := hworks b next (by decide +kernel)
  obtain ⟨hempty, -⟩ := all_or_nothing 0 [] meterPacker wrong
  obtain ⟨hrejected, -⟩ := all_or_nothing 0 [.fill meterPacker row] meterPacker wrong
  obtain ⟨-, haccepted⟩ := all_or_nothing 0 [.fill meterPacker row] meterPacker next
  obtain ⟨happends, -, hcount⟩ := haccepted _ (by decide +kernel) hnext
  exact ⟨by decide +kernel, hempty _ e hfirst, hrejected _ e' hwrong, happends, hcount⟩

end PayloadBuffer
end SeriesWire
