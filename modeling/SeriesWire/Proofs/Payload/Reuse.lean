/-
Buffers that are used again.  A buffer is neither cleared when it is reset nor
grown at fixed moments, yet none of this can be seen: `review` computes the
outcomes of rows, and which of them are kept, from the rows alone, and
`sealedContents` computes from the kept rows what the stamped buffer shows.
`sealed_alike` compares two runs through these two functions.
-/
import SeriesWire.Proofs.Payload.Verdict

namespace SeriesWire

open Bytes

/-- What can be seen of a buffer: the bytes in front of its tail, and its
cursors. -/
structure PayloadContents where
  bytes : Bytes
  headTail : Nat
  tail : Nat
  rowNum : Nat
  deriving DecidableEq, Repr

def PayloadBuffer.contents (b : PayloadBuffer) : PayloadContents :=
  { bytes := b.bytes, headTail := b.headTail, tail := b.tail, rowNum := b.rowNum }

namespace Packer

/-! ## Runs -/

/-- Offer rows one after the other to a buffer; the second part is what became of
each of them. -/
def offerAll (p : Packer) (b : PayloadBuffer) :
    List (List CellValue) → PayloadBuffer × List (Except WireError Unit)
  | [] => (b, [])
  | row :: rest =>
    let (filled, outcome) := p.fillRow b row
    let (filled, outcomes) := p.offerAll filled rest
    (filled, outcome :: outcomes)

/-- The outcomes of rows that are offered behind `held` others, and the rows that
are kept. -/
def review (p : Packer) (held : Nat) :
    List (List CellValue) → List (Except WireError Unit) × List (List CellValue)
  | [] => ([], [])
  | row :: rest =>
    match p.verdict held row with
    | .ok () =>
      let (outcomes, kept) := p.review (held + 1) rest
      (.ok () :: outcomes, row :: kept)
    | .error e =>
      let (outcomes, kept) := p.review held rest
      (.error e :: outcomes, kept)

/-- What a stamped buffer shows that holds `rows`. -/
def sealedContents (p : Packer) : List (List CellValue) → Except WireError PayloadContents
  | [] => .error (.malformed (.payload .noHeader))
  | first :: rest =>
    let dataLen := (p.blocks (first :: rest)).length
    let headTail := 42 + (p.headRest first).length
    if space Payload.dataLenWidth ≤ dataLen then .error (.range "payload" (.dataLength dataLen))
    else
      .ok
        { bytes := p.payload (first :: rest)
          headTail
          tail := headTail + Payload.dataLenWidth + dataLen
          rowNum := (first :: rest).length }

variable {p : Packer} {b : PayloadBuffer} {held : List (List CellValue)}

theorem offerAll_review (hb : b.Holds p held) (rows : List (List CellValue)) :
    (p.offerAll b rows).1.Holds p (held ++ (p.review held.length rows).2) ∧
      (p.offerAll b rows).2 = (p.review held.length rows).1 := by
  induction rows generalizing b held with
  | nil =>
    refine ⟨?_, rfl⟩
    show b.Holds p (held ++ [])
    rwa [List.append_nil]
  | cons row rest ih =>
    have hout := outcome_fillRow hb row
    cases hrow : p.fillRow b row with
    | mk filled outcome =>
      rw [hrow] at hout
      change outcome = _ at hout
      cases outcome with
      | error e =>
        obtain ⟨hheld, houtcomes⟩ := ih (PayloadBuffer.holds_fillRow_error hb hrow)
        simp only [offerAll, review, hrow, ← hout]
        exact ⟨hheld, congrArg _ houtcomes⟩
      | ok done =>
        obtain ⟨hheld, houtcomes⟩ := ih (PayloadBuffer.holds_fillRow_ok hb hrow)
        rw [List.append_assoc, List.length_append, List.length_singleton] at hheld
        rw [List.length_append, List.length_singleton] at houtcomes
        simp only [offerAll, review, hrow, ← hout]
        exact ⟨hheld, congrArg _ houtcomes⟩

end Packer

theorem PayloadBuffer.Holds.sealedContents {p : Packer} {b : PayloadBuffer}
    {rows : List (List CellValue)} (h : b.Holds p rows) :
    b.stamp.map contents = p.sealedContents rows := by
  cases rows with
  | nil =>
    rw [PayloadBuffer.stamp, h.hasHeader]
    rfl
  | cons first rest =>
    have hheaded : b.Headed p first (first :: rest) := h
    cases hstamp : b.stamp with
    | error e =>
      rw [PayloadBuffer.stamp, hheaded.hasHeader, hheaded.dataLen] at hstamp
      simp only [Bool.not_true, Bool.false_eq_true, if_false] at hstamp
      split at hstamp
      next hlong =>
        cases hstamp
        rw [Packer.sealedContents, if_pos hlong]
        rfl
      next => cases hstamp
    | ok b' =>
      obtain ⟨hheld, hbytes, hlt⟩ := hheaded.stamp hstamp
      rw [Packer.sealedContents, if_neg (Nat.not_le_of_lt hlt)]
      show Except.ok b'.contents = _
      rw [PayloadBuffer.contents, hbytes, hheld.tail, hheld.headTail, hheld.rowNum]
      rfl

/-! ## Growth -/

namespace Packer

variable (layout : Layout) (header : PayloadHeader) (step step' : Nat)

theorem primaryBytes_step (row : List CellValue) (index : Nat) (done : Bytes)
    (numbers : List Nat) :
    primaryBytes ⟨layout, header, step⟩ row index done numbers =
      primaryBytes ⟨layout, header, step'⟩ row index done numbers := by
  induction numbers generalizing done with
  | nil => rfl
  | cons number rest ih => simp only [primaryBytes, ih]

/-- How much a buffer grows by has no part in what becomes of a row. -/
theorem verdict_step (held : Nat) (row : List CellValue) :
    verdict ⟨layout, header, step⟩ held row = verdict ⟨layout, header, step'⟩ held row := by
  have hheader : ∀ capacity,
      (headerBlock ⟨layout, header, step⟩ row 0 capacity).2 =
        (headerBlock ⟨layout, header, step'⟩ row 0 capacity).2 := by
    intro capacity
    simp only [headerBlock]
    rw [primaryBytes_step layout header step step']
    rfl
  simp only [verdict]
  rw [hheader]
  rfl

theorem review_step (held : Nat) (rows : List (List CellValue)) :
    review ⟨layout, header, step⟩ held rows = review ⟨layout, header, step'⟩ held rows := by
  induction rows generalizing held with
  | nil => rfl
  | cons row rest ih => simp only [review, verdict_step layout header step step', ih]

theorem sealedContents_step (rows : List (List CellValue)) :
    sealedContents ⟨layout, header, step⟩ rows = sealedContents ⟨layout, header, step'⟩ rows := by
  cases rows <;> rfl

end Packer

/-- Offer the same rows to two empty buffers, whatever is left over in them and
whatever they grow by: each row comes to the same, and the stamped buffers show
the same. -/
theorem PayloadBuffer.sealed_alike (layout : Layout) (header : PayloadHeader) (step step' : Nat)
    (b c : PayloadBuffer) (rows : List (List CellValue)) :
    (Packer.offerAll ⟨layout, header, step⟩ b.reset rows).2 =
        (Packer.offerAll ⟨layout, header, step'⟩ c.reset rows).2 ∧
      (Packer.offerAll ⟨layout, header, step⟩ b.reset rows).1.stamp.map contents =
        (Packer.offerAll ⟨layout, header, step'⟩ c.reset rows).1.stamp.map contents := by
  obtain ⟨hb, houtb⟩ :=
    Packer.offerAll_review (holds_reset b ⟨layout, header, step⟩) rows
  obtain ⟨hc, houtc⟩ :=
    Packer.offerAll_review (holds_reset c ⟨layout, header, step'⟩) rows
  have hreview := Packer.review_step layout header step step' 0 rows
  constructor
  · rw [houtb, houtc]
    exact congrArg Prod.fst hreview
  · rw [hb.sealedContents, hc.sealedContents, List.length_nil, hreview,
      Packer.sealedContents_step layout header step step']

/-- A new buffer counts as one that was reset. -/
example (n : Nat) : (PayloadBuffer.withCapacity n).reset = PayloadBuffer.withCapacity n := rfl

end SeriesWire
