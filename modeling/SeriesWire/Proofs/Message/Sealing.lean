/-
What a seal meets.  Rows, seals and resets reach the buffer of a group through its own
operations, and so does everyone who takes the buffer out of a batch and puts it back
(`Handled`).  Its cursors are those of the rows it accepted, so a group with rows has a
header to stamp.
-/
import SeriesWire.Proofs.Message.BatchBind
import SeriesWire.Proofs.Payload.History

namespace SeriesWire

open Bytes

/-! ## Buffers of groups -/

namespace BatchBind

/-- Rows, seals and resets led to it, and changes of the buffers of its groups. -/
inductive Handled : BatchBind → Prop
  | start (portal statement : String) : Handled { portal, statement }
  | push {b : BatchBind} (p : Packer) (row : List CellValue) : Handled b → Handled (b.push p row).1
  | close {b : BatchBind} : Handled b → Handled b.close.1
  | reset {b : BatchBind} : Handled b → Handled b.reset
  | setPayload {b : BatchBind} (key : String) {buffer : PayloadBuffer} :
    buffer.Reached → Handled b → Handled (b.setPayload key buffer)

variable {b : BatchBind} {gs : List Group}

theorem nodup_fillGroup (h : (gs.map (·.key)).Nodup) (p : Packer) (row : List CellValue)
    (key : String) : ((fillGroup p row key gs).1.map (·.key)).Nodup := by
  rw [map_key_fillGroup]
  split
  next => exact h
  next hnew =>
    rw [List.nodup_append]
    refine ⟨h, List.nodup_cons.2 ⟨List.not_mem_nil, List.nodup_nil⟩, ?_⟩
    intro old hold key' hkey' hsame
    rw [List.mem_singleton] at hkey'
    exact hnew (hkey' ▸ hsame ▸ hold)

theorem reached_fillGroup (hnodup : (gs.map (·.key)).Nodup)
    (h : ∀ g ∈ gs, g.buffer.Reached) (p : Packer) (row : List CellValue) (key : String) :
    ∀ g ∈ (fillGroup p row key gs).1, g.buffer.Reached := by
  intro g hg
  rcases mem_fillGroup hnodup hg with ⟨hold, -⟩ | ⟨-, buffer, hbuffer, hfill⟩
  · exact h g hold
  · have hreached : buffer.Reached := by
      rcases hbuffer with ⟨old, hold, -, rfl⟩ | ⟨-, rfl⟩
      · exact h old hold
      · exact PayloadBuffer.reached_withCapacity _
    have hnext := hreached.fillRow p row
    rw [hfill] at hnext
    exact hnext

theorem reached_stampAll (h : ∀ g ∈ gs, g.buffer.Reached) :
    ∀ g ∈ (stampAll gs).1, g.buffer.Reached := by
  intro g hg
  obtain ⟨old, hold, -, rfl | hstamp, -⟩ := mem_stampAll hg
  · exact h old hold
  · exact (h old hold).stamp hstamp

theorem groups_close (b : BatchBind) : b.close.1.groups = (stampAll b.groups).1 := by
  rw [close]
  cases stampAll b.groups with
  | mk groups outcome => cases outcome <;> rfl

theorem Handled.groups (h : b.Handled) :
    (b.groups.map (·.key)).Nodup ∧ ∀ g ∈ b.groups, g.buffer.Reached := by
  induction h with
  | start => exact ⟨List.nodup_nil, fun _ hg => absurd hg List.not_mem_nil⟩
  | @push b p row _ ih =>
    obtain ⟨hnodup, hreached⟩ := ih
    rw [BatchBind.push]
    cases GroupKey.ofRow p.layout.toShape row with
    | error e => exact ⟨hnodup, hreached⟩
    | ok key =>
      exact ⟨nodup_fillGroup hnodup p row key, reached_fillGroup hnodup hreached p row key⟩
  | @close b _ ih =>
    obtain ⟨hnodup, hreached⟩ := ih
    rw [groups_close, map_key_stampAll]
    exact ⟨hnodup, reached_stampAll hreached⟩
  | @reset b _ ih =>
    obtain ⟨hnodup, hreached⟩ := ih
    refine ⟨by rwa [map_key_reset], fun g hg => ?_⟩
    obtain ⟨old, hold, rfl⟩ := List.mem_map.1 hg
    exact (hreached old hold).reset
  | @setPayload b key buffer hbuffer _ ih =>
    obtain ⟨hnodup, hreached⟩ := ih
    constructor
    · have hkeys : (b.setPayload key buffer).groups.map (·.key) = b.groups.map (·.key) := by
        rw [BatchBind.setPayload, List.map_map]
        apply List.map_congr_left
        intro g _
        simp only [Function.comp_apply]
        split <;> rfl
      rwa [hkeys]
    · intro g hg
      obtain ⟨old, hold, rfl⟩ := List.mem_map.1 hg
      split
      · exact hbuffer
      · exact hreached old hold

/-! ## Seals -/

/-- Where groups with rows have headers, a seal fails only for the length of the data. -/
theorem stampAll_outcome
    (h : ∀ g ∈ gs, g.buffer.isEmpty = false → g.buffer.hasHeader = true) :
    (stampAll gs).2 = .ok () ∨
      ∃ n, (stampAll gs).2 = .error (.range "payload" (.dataLength n)) := by
  induction gs with
  | nil => exact .inl rfl
  | cons g gs ih =>
    obtain ⟨hg, hgs⟩ := List.forall_mem_cons.1 h
    rw [stampAll]
    by_cases hempty : g.buffer.isEmpty = true
    · rw [if_pos hempty]
      exact ih hgs
    · rw [if_neg hempty, PayloadBuffer.stamp, hg (Bool.eq_false_iff.2 hempty)]
      simp only [Bool.not_true, Bool.false_eq_true, if_false]
      split
      next hstamp =>
        split at hstamp
        · cases hstamp
          exact .inr ⟨_, rfl⟩
        · cases hstamp
      next => exact ih hgs

theorem outcome_close (b : BatchBind) : b.close.2 = (stampAll b.groups).2 := by
  rw [close]
  cases stampAll b.groups with
  | mk groups outcome => cases outcome <;> rfl

end BatchBind

/-! ## Cursors -/

/-- Rows have headers in front of them, and this is how far the cursors stand apart
whatever was done to a buffer: it is as it was made, or it has the header of the first
row it accepted, and behind the length of the data a block for each of its rows.  It
never gives room back, and a seal finds a header wherever there are rows. -/
theorem BufferRun.cursors :
    (∀ (capacity : Nat) (ops : List BufferOp),
      let r := (start capacity).run ops
      let b := r.buffer
      ((b.headTail = 0 ∧ b.tail = 0 ∧ b.rowNum = 0) ∨
        (1 ≤ b.rowNum ∧ b.rowNum = r.views.length ∧
          (∃ p first rest, r.accepted = (p, first) :: rest ∧
            b.headTail = p.layout.varStart + (p.tagView first).entries.length) ∧
          49 ≤ b.headTail ∧ b.headTail + Payload.dataLenWidth ≤ b.tail ∧ b.tail ≤ b.capacity ∧
          b.bytes.drop (b.headTail + Payload.dataLenWidth) = r.views.flatMap RowView.block ∧
          (∀ row ∈ r.views, row.bytes.length < space Payload.rowLenWidth) ∧
          b.tail - b.headTail - Payload.dataLenWidth =
            totalLen (r.views.map fun row => Payload.rowLenWidth + row.bytes.length))) ∧
      (b.hasHeader = true ↔ 0 < b.rowNum) ∧
      (b.hasHeader = true → b.headTail + Payload.dataLenWidth ≤ b.tail) ∧
      ∀ op, b.capacity ≤ (r.step op).buffer.capacity) ∧
    ∀ batch : BatchBind, batch.Handled →
      (∀ g ∈ batch.groups, g.buffer.isEmpty = false → g.buffer.hasHeader = true) ∧
      (batch.close.2 = .ok () ∨
        ∃ n, batch.close.2 = .error (.range "payload" (.dataLength n))) := by
  constructor
  · intro capacity ops r b
    have hinv : r.Inv := inv_run (inv_start capacity) ops
    have hsound : b.Sound := hinv.sound
    have hcases : b.Blank ∨ ∃ p first rest, r.accepted = (p, first) :: rest ∧
        b.Shows p first r.views := by
      rw [Inv] at hinv
      split at hinv
      next => exact .inl hinv
      next p first rest haccepted => exact .inr ⟨p, first, rest, haccepted, hinv⟩
    have hheaded : b.hasHeader = true → b.headTail + Payload.dataLenWidth ≤ b.tail := by
      intro hheader
      rcases hcases with hblank | ⟨p, first, rest, -, hshows⟩
      · rw [hblank.hasHeader] at hheader
        cases hheader
      · rw [hshows.tail]
        exact Nat.le_add_right _ _
    refine ⟨?_, ?_, hheaded, capacity_le_step hinv⟩
    · rcases hcases with hblank | ⟨p, first, rest, haccepted, hshows⟩
      · exact .inl ⟨hblank.headTail, hblank.tail, hblank.rowNum⟩
      · have hrows : 1 ≤ r.views.length := by
          rw [views, haccepted, List.map_cons, List.length_cons]
          exact Nat.le_add_left _ _
        have hdata : b.tail - b.headTail - Payload.dataLenWidth =
            (r.views.flatMap RowView.block).length := by
          rw [hshows.tail]
          omega
        rw [RowView.length_flatMap_block] at hdata
        exact .inr ⟨hshows.rowNum ▸ hrows, hshows.rowNum,
          ⟨p, first, rest, haccepted, hshows.headTail⟩, hshows.le_headTail,
          hheaded hshows.hasHeader, hshows.le_capacity, hshows.data, hshows.length_lt, hdata⟩
    · rw [hsound.hasHeader_iff, Nat.pos_iff_ne_zero]
  · intro batch hbatch
    have hheaders : ∀ g ∈ batch.groups, g.buffer.isEmpty = false → g.buffer.hasHeader = true := by
      intro g hg hrows
      rw [PayloadBuffer.isEmpty, beq_eq_false_iff_ne] at hrows
      exact (hbatch.groups.2 g hg).sound.hasHeader_iff.2 hrows
    rw [BatchBind.outcome_close]
    exact ⟨hheaders, BatchBind.stampAll_outcome hheaders⟩

/-- The first row of a batch, if it is accepted, opens a group. -/
theorem BatchBind.groups_push_first {p : Packer} {row : List CellValue} {key : String}
    (hkey : GroupKey.ofRow p.layout.toShape row = .ok key)
    (hverdict : (p.verdict 0 row).isOk = true) (portal statement : String) :
    ∃ g, (({ portal, statement } : BatchBind).push p row).1.groups = [g] ∧
      g.buffer.isEmpty = false := by
  have hblank := PayloadBuffer.holds_reset freshBuffer p
  obtain ⟨done, hok⟩ := Outcome.exists_of_isOk hverdict
  have hfill := (Packer.outcome_fillRow hblank row).trans hok
  refine ⟨⟨key, (p.fillRow freshBuffer row).1⟩, ?_, ?_⟩
  · rw [push, hkey]
    rfl
  · exact (PayloadBuffer.holds_fillRow_ok hblank (Prod.ext rfl hfill)).isEmpty

/-- Three rows, the second of which is rejected, between two stamps; and the first of
them in a batch. -/
theorem BufferRun.cursors_meterRows :
    let row := PayloadBuffer.meterRows.getD 0 []
    let ops := PayloadBuffer.meterRows.map (BufferOp.fill PayloadBuffer.meterPacker)
    let b := ((start 0).run (.stamp :: ops ++ [.stamp])).buffer
    let batch := (({ portal := "", statement := "" } : BatchBind).push
      PayloadBuffer.meterPacker row).1
    b.rowNum = 2 ∧ b.headTail = 74 ∧ b.headTail + Payload.dataLenWidth ≤ b.tail ∧
      ∃ g, batch.groups = [g] ∧ g.buffer.isEmpty = false ∧ g.buffer.hasHeader = true := by
  intro row ops b batch
  obtain ⟨hbuffers, hbatches⟩ := cursors
  obtain ⟨-, -, hroom, -⟩ := hbuffers 0 (.stamp :: ops ++ [.stamp])
  obtain ⟨hheaders, -⟩ := hbatches batch (.push _ _ (.start "" ""))
  have hkey : GroupKey.ofRow PayloadBuffer.meterPacker.layout.toShape row = .ok "a" := rfl
  obtain ⟨g, hgroups, hrows⟩ := BatchBind.groups_push_first hkey (by decide +kernel) "" ""
  rw [hgroups] at hheaders
  exact ⟨by decide +kernel, by decide +kernel, hroom (by decide +kernel),
    g, hgroups, hrows, hheaders g List.mem_cons_self hrows⟩

end SeriesWire
