/-
The two lengths in a header.  The primary tag bytes are counted in two bytes and the
tag section in four.  A layout is refused if the first count does not fit, and nothing
looks at the second, so a header has it only up to `2 ^ 32` (`header_lengths`).  Both
counts stand in the header from its first row on, whatever is done to the buffer
(`States`), and a reader that is given the same layout objects to them exactly if they
do not fit.
-/
import SeriesWire.Proofs.Payload.Acceptance
import SeriesWire.Proofs.Payload.History

namespace SeriesWire

open Bytes

/-! ## Reading -/

/-- A reader found a length in front of the tags to be another than the layout's. -/
def WireError.isHeaderLength : WireError → Bool
  | .malformed (.payload (.primaryLength ..)) => true
  | .malformed (.payload (.tagLength ..)) => true
  | _ => false

/-- `x` fails, if at all, for other reasons than the lengths in front of the tags. -/
def SparesLengths {α : Type} (x : Except WireError α) : Prop :=
  ∀ e, x = .error e → e.isHeaderLength = false

namespace SparesLengths

variable {α β : Type} {x : Except WireError α}

theorem ok (a : α) : SparesLengths (.ok a) := by
  intro e he
  cases he

theorem error {e : WireError} (h : e.isHeaderLength = false) :
    SparesLengths (.error e : Except WireError α) := by
  rintro e' ⟨⟩
  exact h

theorem bind {f : α → Except WireError β} (hx : SparesLengths x)
    (hf : ∀ a, x = .ok a → SparesLengths (f a)) : SparesLengths (x >>= f) := by
  intro e he
  cases x with
  | error e' =>
    cases he
    exact hx e rfl
  | ok a => exact hf a rfl e he

theorem check {c : Prop} [Decidable c] {e : WireError} {rest : PUnit → Except WireError α}
    (he : c → e.isHeaderLength = false) (hrest : SparesLengths (rest ⟨⟩)) :
    SparesLengths (if c then throw e >>= rest else rest ⟨⟩) := by
  split
  next hc => exact error (he hc)
  next => exact hrest

theorem inCell (row column : Nat) (x : Except WireError α) :
    SparesLengths (WireError.inCell row column x) := by
  intro e he
  cases x with
  | error e' =>
    cases he
    rfl
  | ok a => cases he

theorem take (c : PayloadCursor) (what : String) (len : Nat) : SparesLengths (c.take what len) := by
  simp only [PayloadCursor.take]
  split
  · exact error rfl
  · exact ok _

theorem takeAt (region : Bytes) (what : String) (start len : Nat) :
    SparesLengths (takeAt region what start len) := by
  rw [SeriesWire.takeAt]
  split
  · exact error rfl
  · exact ok _

theorem readEntry (region : Bytes) (offset : Nat) : SparesLengths (readEntry region offset) :=
  bind (takeAt _ _ _ _) fun _ _ => check (fun _ => rfl) (bind (takeAt _ _ _ _) fun _ _ => ok _)

theorem foldlM {σ : Type} {f : σ → α → Except WireError σ} (hf : ∀ s a, SparesLengths (f s a))
    (s : σ) (l : List α) : SparesLengths (l.foldlM f s) := by
  induction l generalizing s with
  | nil => exact ok s
  | cons a l ih => exact bind (hf s a) fun s' _ => ih s'

theorem entriesEnd (s : Shape) (bitmap slots region : Bytes) :
    SparesLengths (PayloadView.entriesEnd s bitmap slots region) := by
  refine foldlM (fun furthest tag => ?_) 0 _
  dsimp only
  split
  · exact bind (readEntry _ _) fun _ _ => ok _
  · exact ok _

theorem readRows (s : Shape) (row : Nat) (done : List RowView) (count : Nat) (c : PayloadCursor) :
    SparesLengths (PayloadView.readRows s row done count c) := by
  induction count generalizing row done c with
  | zero => exact ok _
  | succ count ih =>
    exact bind (take _ _ _) fun _ _ => bind (inCell _ _ _) fun _ _ =>
      check (fun _ => rfl) (ih _ _ _)

theorem header (payload : Bytes) : SparesLengths (PayloadHeader.read payload) := by
  rw [PayloadHeader.read]
  split
  · exact error rfl
  · exact ok _

theorem rowType (b : UInt8) : SparesLengths (RowType.ofByte b) := by
  rw [RowType.ofByte]
  split
  · exact ok _
  · exact error rfl

/-- A reader objects to a length in front of the tags only if another one stands there
than the layout has. -/
theorem parse {l : Layout} {payload : Bytes}
    (hprimary : PayloadHeader.number payload 43 2 = l.primaryLen)
    (htags : PayloadHeader.number payload (45 + l.primaryLen) 4 = l.tagSectionLen) :
    SparesLengths (PayloadView.parse l payload) := by
  rw [PayloadView.parse]
  refine bind (header payload) fun _ _ => bind (rowType _) fun _ _ =>
    bind (take _ _ _) fun first hfirst => ?_
  obtain ⟨hfound, hrest⟩ := PayloadCursor.take_ok hfirst
  have hlen : first.1.toNatLE = l.primaryLen := by
    rw [hfound]
    exact hprimary
  refine check (fun hne => absurd hlen hne) (bind (take _ _ _) fun tag htag =>
    bind (take _ _ _) fun second hsecond => ?_)
  obtain ⟨-, hrest'⟩ := PayloadCursor.take_ok htag
  obtain ⟨hfound', -⟩ := PayloadCursor.take_ok hsecond
  have hlen' : second.1.toNatLE = l.tagSectionLen := by
    rw [hfound', hrest', hrest, hlen, List.drop_drop, List.drop_drop, ← Nat.add_assoc]
    exact htags
  exact check (fun hne => absurd hlen' hne) <| bind (take _ _ _) fun _ _ =>
    bind (take _ _ _) fun _ _ => bind (entriesEnd _ _ _ _) fun _ _ => bind (take _ _ _) fun _ _ =>
    bind (take _ _ _) fun _ _ => check (fun _ => rfl) <| bind (readRows _ _ _ _ _) fun _ _ =>
    check (fun _ => rfl) (ok _)

end SparesLengths

/-! ## Writing -/

namespace Packer

variable {p : Packer} {first : List CellValue}

/-- What stands between the number of the rows and the tags. -/
def lead (p : Packer) (first : List CellValue) : Bytes :=
  [(rowType (p.tagPlacements first)).byte] ++
    (ofNatLE Payload.primaryLenWidth p.layout.primaryLen ++
      (p.primaryTag first ++ ofNatLE Payload.tagLenWidth p.layout.tagSectionLen))

theorem headRest_eq (p : Packer) (first : List CellValue) :
    p.headRest first = p.lead first ++ (p.tagView first).bytes := by
  simp only [headRest, lead, List.append_assoc]

theorem length_lead (p : Packer) (first : List CellValue) :
    42 + (p.lead first).length = p.layout.tagStart := by
  simp only [lead, List.length_append, List.length_singleton, length_ofNatLE, length_primaryTag,
    Shape.tagStart, Payload.tagStart, Payload.headLen]
  omega

end Packer

namespace PayloadBuffer

variable {b b' : PayloadBuffer} {p : Packer} {first : List CellValue}
  {rows : List (List CellValue)} {views : List RowView} {block : Bytes}

/-- `b` has the lengths of the layout of `p` in its header. -/
def States (b : PayloadBuffer) (p : Packer) (first : List CellValue) : Prop :=
  (b.bytes.take p.layout.tagStart).drop 42 = p.lead first

theorem Headed.states (h : b.Headed p first rows) : b.States p first := by
  obtain ⟨count, dataLen, hcount, -, hbytes⟩ := h.bytes
  have hfront : (p.header.bytes ++ count).length = 42 := by
    rw [List.length_append, PayloadHeader.length_bytes, hcount]
    rfl
  rw [States, hbytes, Packer.laidOut, Packer.headRest_eq, ← p.length_lead first, ← hfront]
  rw [← List.append_assoc, List.append_assoc (p.lead first), ← List.append_assoc,
    ← List.length_append, List.take_left, List.drop_left]

theorem Shows.tagStart_le (h : b.Shows p first views) :
    p.layout.tagStart ≤ b.headTail ∧ b.headTail ≤ b.tail := by
  have htail := h.tail
  rw [h.headTail, Shape.varStart] at *
  omega

theorem States.keeps (h : b.States p first) (hkeeps : b.Keeps b') : b'.States p first := by
  rw [States, hkeeps.bytes]
  exact h

theorem States.appends (h : b.States p first) (hshows : b.Shows p first views)
    (happ : b.Appends block b') : b'.States p first := by
  obtain ⟨hstart, htail⟩ := hshows.tagStart_le
  have hlen := length_bytes_of_le hshows.le_capacity
  rw [States, happ.bytes, List.take_append_of_le_length (by omega)]
  exact h

/-- The count of the rows stands in front of the lengths, and the length of the data
behind them. -/
theorem States.stamp (h : b.States p first) (hshows : b.Shows p first views)
    (hstamp : b.stamp = .ok b') : b'.States p first := by
  obtain ⟨hstart, htail⟩ := hshows.tagStart_le
  have hcap := hshows.le_capacity
  rw [PayloadBuffer.stamp, hshows.hasHeader] at hstamp
  simp only [Bool.not_true, Bool.false_eq_true, if_false] at hstamp
  split at hstamp
  next => cases hstamp
  next =>
    cases hstamp
    have hle := hshows.le_headTail
    rw [capacity] at hcap
    have hlen : (overwrite b.data PayloadHeader.identityLen (ofNatLE 4 b.rowCount.toNat)).length =
        b.data.length := length_overwrite (by
      rw [length_ofNatLE, PayloadHeader.identityLen]
      omega)
    have hseen : min p.layout.tagStart b.tail = p.layout.tagStart := Nat.min_eq_left (by omega)
    rw [States, PayloadBuffer.bytes] at h ⊢
    simp only [write]
    rw [List.take_take, hseen] at h ⊢
    rw [take_overwrite_of_le hstart (by omega), List.drop_take,
      drop_overwrite (by rw [PayloadHeader.identityLen]; omega)
        (by rw [length_ofNatLE]; exact Nat.le_refl _), ← List.drop_take]
    exact h

end PayloadBuffer

namespace BufferRun

variable {r : BufferRun}

/-- A buffer that has rows has the lengths of the layout that its first row came with. -/
def Stated (r : BufferRun) : Prop :=
  match r.accepted with
  | [] => True
  | (p, first) :: _ => r.buffer.States p first

theorem Stated.keeps {buffer : PayloadBuffer} (h : r.Stated) (hkeeps : r.buffer.Keeps buffer) :
    Stated { r with buffer } := by
  obtain ⟨b, accepted⟩ := r
  cases accepted with
  | nil => trivial
  | cons opening rest => exact PayloadBuffer.States.keeps h hkeeps

theorem Stated.fill {p : Packer} {row : List CellValue} {buffer : PayloadBuffer} (h : r.Stated)
    (hinv : r.Inv) (hfill : p.fillRow r.buffer row = (buffer, .ok ())) :
    Stated ⟨buffer, r.accepted ++ [(p, row)]⟩ := by
  obtain ⟨b, accepted⟩ := r
  cases accepted with
  | nil =>
    obtain ⟨ha, headed, hopened, hrow⟩ := Packer.fillRow_ok hfill
    rw [Packer.opened, PayloadBuffer.Blank.hasHeader hinv] at hopened
    have hheaded := PayloadBuffer.headed_writeHeader (PayloadBuffer.Blank.rowNum hinv) ha hopened
    obtain ⟨-, happ⟩ := PayloadBuffer.appends_writeRow hheaded.le_capacity ha hrow
    exact hheaded.states.appends hheaded.shows happ
  | cons opening rest =>
    have hshows : b.Shows opening.1 opening.2 (views ⟨b, opening :: rest⟩) := hinv
    obtain ⟨-, happ⟩ := PayloadBuffer.appends_fillRow hinv.sound hshows.hasHeader hfill
    exact PayloadBuffer.States.appends h hshows happ

theorem stated_step (h : r.Stated) (hinv : r.Inv) (op : BufferOp) : (r.step op).Stated := by
  cases op with
  | fill p row =>
    simp only [step]
    split
    next hfill => exact h.fill hinv hfill
    next hfill => exact h.keeps (PayloadBuffer.keeps_fillRow_error hinv.sound hfill)
  | ensure needed step =>
    exact h.keeps (PayloadBuffer.keeps_ensure hinv.sound.le_capacity needed step)
  | extend size => exact h.keeps (PayloadBuffer.keeps_extend hinv.sound.le_capacity size)
  | stamp =>
    simp only [step]
    split
    next buffer hstamp =>
      obtain ⟨b, accepted⟩ := r
      cases accepted with
      | nil => trivial
      | cons opening rest => exact PayloadBuffer.States.stamp h hinv hstamp
    next => exact h
  | reset => trivial

theorem stated_run (h : r.Stated) (hinv : r.Inv) (ops : List BufferOp) : (r.run ops).Stated := by
  induction ops generalizing r with
  | nil => exact h
  | cons op ops ih => exact ih (stated_step h hinv op) (inv_step hinv op)

theorem accepted_fill (r : BufferRun) (p : Packer) (row : List CellValue) :
    (r.step (.fill p row)).accepted =
      r.accepted ++ if (p.fillRow r.buffer row).2.isOk then [(p, row)] else [] := by
  simp only [step]
  split
  next hfill =>
    rw [hfill]
    rfl
  next hfill =>
    rw [hfill]
    exact (List.append_nil _).symm

theorem accepted_stamp (r : BufferRun) : (r.step .stamp).accepted = r.accepted := by
  simp only [step]
  split <;> rfl

end BufferRun

/-! ## What a reader finds -/

namespace Packer

variable {p : Packer} {first : List CellValue} {front behind : Bytes}

theorem split_lead {payload : Bytes}
    (h : (payload.take p.layout.tagStart).drop 42 = p.lead first) :
    ∃ front behind, front.length = 42 ∧ payload = front ++ (p.lead first ++ behind) := by
  have hlead := p.length_lead first
  have hpos : 0 < (p.lead first).length := Nat.zero_lt_succ _
  have hlong := congrArg List.length h
  rw [List.length_drop, List.length_take] at hlong
  refine ⟨(payload.take p.layout.tagStart).take 42, payload.drop p.layout.tagStart, ?_, ?_⟩
  · rw [List.length_take, List.length_take]
    omega
  · rw [← h, ← List.append_assoc, List.take_append_drop, List.take_append_drop]

theorem lead_append (p : Packer) (first : List CellValue) (behind : Bytes) :
    p.lead first ++ behind = (rowType (p.tagPlacements first)).byte ::
      (ofNatLE Payload.primaryLenWidth p.layout.primaryLen ++ (p.primaryTag first ++
        (ofNatLE Payload.tagLenWidth p.layout.tagSectionLen ++ behind))) := by
  simp only [lead, List.append_assoc, List.cons_append, List.nil_append]

/-- A payload from behind the type of its rows on. -/
theorem drop_lead (hfront : front.length = 42) :
    (front ++ (p.lead first ++ behind)).drop Payload.headLen =
      ofNatLE Payload.primaryLenWidth p.layout.primaryLen ++ (p.primaryTag first ++
        (ofNatLE Payload.tagLenWidth p.layout.tagSectionLen ++ behind)) := by
  rw [lead_append, ← List.singleton_append, ← List.append_assoc]
  apply List.drop_left'
  rw [List.length_append, hfront]
  rfl

theorem number_primaryLen (hfront : front.length = 42) :
    PayloadHeader.number (front ++ (p.lead first ++ behind)) 43 2 = p.layout.primaryLen := by
  rw [PayloadHeader.number, slice, ← Payload.headLen, drop_lead hfront]
  exact (congrArg toNatLE (List.take_left' (length_ofNatLE _ _))).trans
    (toNatLE_ofNatLE_of_lt (primaryLen_lt p.layout))

theorem number_tagLen (hfront : front.length = 42) :
    PayloadHeader.number (front ++ (p.lead first ++ behind)) (45 + p.layout.primaryLen) 4 =
      p.layout.tagSectionLen % space Payload.tagLenWidth := by
  have hstart : 45 + p.layout.primaryLen =
      Payload.headLen + (Payload.primaryLenWidth + p.layout.primaryLen) := by
    rw [← Nat.add_assoc]
    rfl
  rw [PayloadHeader.number, slice, hstart, ← List.drop_drop, ← List.drop_drop, drop_lead hfront,
    List.drop_left' (length_ofNatLE _ _), List.drop_left' (p.length_primaryTag first)]
  exact (congrArg toNatLE (List.take_left' (length_ofNatLE _ _))).trans (toNatLE_ofNatLE _ _)

/-- A reader objects to a tag section whose length was cut down. -/
theorem parse_wide (hfront : front.length = 42)
    (hwide : space Payload.tagLenWidth ≤ p.layout.tagSectionLen) :
    PayloadView.parse p.layout (front ++ (p.lead first ++ behind)) =
      .error (.malformed (.payload (.tagLength
        (p.layout.tagSectionLen % space Payload.tagLenWidth) p.layout.tagSectionLen))) := by
  have hlong : ¬(front ++ (p.lead first ++ behind)).length < Payload.headLen := by
    rw [lead_append, List.length_append, List.length_cons, hfront, Payload.headLen]
    omega
  have htype : (front ++ (p.lead first ++ behind)).getD (Payload.headLen - 1) 0 =
      (rowType (p.tagPlacements first)).byte := by
    rw [lead_append, List.getD_append_right _ _ _ _ (by rw [hfront]; decide), hfront]
    rfl
  have hcut : p.layout.tagSectionLen % space Payload.tagLenWidth ≠ p.layout.tagSectionLen := by
    have hlt := Nat.mod_lt p.layout.tagSectionLen (space_pos Payload.tagLenWidth)
    omega
  have hprimary := toNatLE_ofNatLE_of_lt (primaryLen_lt p.layout)
  simp only [PayloadView.parse, PayloadHeader.read, if_neg hlong, htype, RowType.ofByte_byte,
    Outcome.ok_bind, drop_lead hfront]
  rw [PayloadCursor.take_append (length_ofNatLE _ _)]
  simp only [Outcome.ok_bind, hprimary, if_false, ne_eq, not_true_eq_false]
  rw [PayloadCursor.take_append (p.length_primaryTag first)]
  simp only [Outcome.ok_bind]
  rw [PayloadCursor.take_append (length_ofNatLE _ _)]
  simp only [Outcome.ok_bind, toNatLE_ofNatLE]
  rw [if_pos hcut]
  rfl

end Packer

namespace PayloadBuffer

/-- The lengths in the header of a buffer, whatever was done to it and whether or not it
was stamped.  The first is always the layout's, and a reader that has the same layout
objects to none of them as long as the tag section is shorter than `2 ^ 32`.  Behind that
the second is cut down, and the reader refuses the payload for it. -/
theorem header_lengths (capacity : Nat) (ops : List BufferOp) {p : Packer}
    {first : List CellValue} {rest : List (Packer × List CellValue)}
    (h : ((BufferRun.start capacity).run ops).accepted = (p, first) :: rest) :
    let payload := ((BufferRun.start capacity).run ops).buffer.bytes
    let tagLen := p.layout.tagSectionLen
    p.layout.primaryLen < Nat.pow 2 16 ∧
    PayloadHeader.number payload 43 2 = p.layout.primaryLen ∧
    PayloadHeader.number payload (45 + p.layout.primaryLen) 4 = tagLen % Nat.pow 2 32 ∧
    (tagLen < Nat.pow 2 32 →
      PayloadHeader.number payload (45 + p.layout.primaryLen) 4 = tagLen ∧
        ∀ e, PayloadView.parse p.layout payload = .error e → e.isHeaderLength = false) ∧
    (Nat.pow 2 32 ≤ tagLen →
      PayloadView.parse p.layout payload =
        .error (.malformed (.payload (.tagLength (tagLen % Nat.pow 2 32) tagLen)))) := by
  intro payload tagLen
  have hinv := BufferRun.inv_start capacity
  have hstated := BufferRun.stated_run (r := .start capacity) trivial hinv ops
  rw [BufferRun.Stated, h] at hstated
  obtain ⟨front, behind, hfront, hsplit⟩ := Packer.split_lead hstated
  have hpayload : payload = front ++ (p.lead first ++ behind) := hsplit
  have hprimary : PayloadHeader.number payload 43 2 = p.layout.primaryLen := by
    rw [hpayload]
    exact Packer.number_primaryLen hfront
  have htags : PayloadHeader.number payload (45 + p.layout.primaryLen) 4 =
      tagLen % space Payload.tagLenWidth := by
    rw [hpayload]
    exact Packer.number_tagLen hfront
  refine ⟨Packer.primaryLen_lt p.layout, hprimary, htags, fun hlt => ?_, fun hwide => ?_⟩
  · have hwhole : tagLen % space Payload.tagLenWidth = tagLen := Nat.mod_eq_of_lt hlt
    exact ⟨htags.trans hwhole, SparesLengths.parse hprimary (htags.trans hwhole)⟩
  · rw [hpayload]
    exact Packer.parse_wide hfront hwide

/-- Between two rows that are accepted the buffer is stamped and a row is rejected. -/
theorem header_lengths_meterRows :
    let row := meterRows.getD 0 []
    let ops : List BufferOp := [.fill meterPacker row, .stamp,
      .fill meterPacker (meterRows.getD 1 []), .fill meterPacker (meterRows.getD 2 [])]
    let run := (BufferRun.start 0).run ops
    run.accepted = [(meterPacker, row), (meterPacker, meterRows.getD 2 [])] ∧
      PayloadHeader.number run.buffer.bytes 43 2 = 4 ∧
      PayloadHeader.number run.buffer.bytes 49 4 = 15 := by
  intro row ops run
  have haccepted : run.accepted = [(meterPacker, row), (meterPacker, meterRows.getD 2 [])] := by
    simp only [run, ops, row, BufferRun.run, List.foldl_cons, List.foldl_nil]
    rw [BufferRun.accepted_fill, if_pos (by decide +kernel), BufferRun.accepted_fill,
      if_neg (by decide +kernel), BufferRun.accepted_stamp, BufferRun.accepted_fill,
      if_pos (by decide +kernel)]
    rfl
  obtain ⟨-, hprimary, -, hfits, -⟩ := header_lengths 0 ops haccepted
  exact ⟨haccepted, hprimary, (hfits (by decide)).1⟩

def wideShape : Shape :=
  { fields := [], tags := [⟨.bpchar, 4294967295⟩], primaryTags := [] }

def widePacker : Packer := Packer.make ⟨wideShape, by decide⟩ {} 1

/-- One tag of the largest width that can be declared.  With its bitmap it is one byte too
long, and the payload of its rows is refused. -/
theorem wide_tags_refused :
    Layout.ofColumns [1042] [4294967295] 0 [] = .ok widePacker.layout ∧
      widePacker.layout.primaryLen < Nat.pow 2 16 ∧
      ¬widePacker.layout.tagSectionLen < Nat.pow 2 32 ∧
      ∃ b, widePacker.fillRow (withCapacity 0) [.null] = (b, .ok ()) ∧
        PayloadView.parse widePacker.layout b.bytes =
          .error (.malformed (.payload (.tagLength 0 4294967296))) := by
  have hverdict : widePacker.verdict 0 [.null] = .ok () := by
    rw [Packer.verdict_eq]
    rfl
  have houtcome := widePacker.outcome_fillRow (holds_reset (withCapacity 0) widePacker) [.null]
  obtain ⟨b, hfill⟩ : ∃ b, widePacker.fillRow (withCapacity 0) [.null] = (b, .ok ()) :=
    ⟨_, Prod.ext rfl (houtcome.trans hverdict)⟩
  have hstated : b.States widePacker [.null] :=
    BufferRun.Stated.fill (r := .start 0) trivial (BufferRun.inv_start 0) hfill
  obtain ⟨front, behind, hfront, hsplit⟩ := Packer.split_lead hstated
  refine ⟨rfl, by decide, by decide, b, hfill, ?_⟩
  rw [hsplit]
  exact Packer.parse_wide hfront (by decide)

end PayloadBuffer

end SeriesWire
