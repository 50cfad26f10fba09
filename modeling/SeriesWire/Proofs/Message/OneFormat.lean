/-
Batches and what is received of them are one format.  A batch that rows, seals and
resets led to is named by keys of rows, which have no NUL in them (`Reachable.keys`),
so only what its groups hold decides whether it can be sent, and it is sent as the
frame of these groups.
-/
import SeriesWire.Proofs.GroupKey.Control
import SeriesWire.Proofs.Message.TagGroups

namespace SeriesWire

open Bytes

namespace BatchBind

/-! ## Keys of groups -/

/-- Rows, seals and resets led to it.  Each row can have a packer of its own. -/
inductive Reachable : BatchBind → Prop
  | start (portal statement : String) : Reachable { portal, statement }
  | push {b : BatchBind} (p : Packer) (row : List CellValue) :
    Reachable b → Reachable (b.push p row).1
  | close {b : BatchBind} : Reachable b → Reachable b.close.1
  | reset {b : BatchBind} : Reachable b → Reachable b.reset

variable {b : BatchBind}

theorem mem_key_push {p : Packer} {row : List CellValue} {key : String}
    (h : key ∈ (b.push p row).1.groups.map (·.key)) :
    key ∈ b.groups.map (·.key) ∨ GroupKey.ofRow p.layout.toShape row = .ok key := by
  rw [push] at h
  cases hkey : GroupKey.ofRow p.layout.toShape row with
  | error e =>
    rw [hkey] at h
    exact .inl h
  | ok key' =>
    rw [hkey] at h
    change key ∈ (fillGroup p row key' b.groups).1.map (·.key) at h
    rw [map_key_fillGroup] at h
    split at h
    · exact .inl h
    · rw [List.mem_append, List.mem_singleton] at h
      rcases h with h | rfl
      · exact .inl h
      · exact .inr rfl

theorem map_key_close (b : BatchBind) : b.close.1.groups.map (·.key) = b.groups.map (·.key) := by
  rw [← map_key_stampAll b.groups, close]
  cases stampAll b.groups with
  | mk groups outcome => cases outcome <;> rfl

theorem Reachable.keys (h : b.Reachable) : ∀ key ∈ b.groups.map (·.key), Utf8.NulFree key := by
  induction h with
  | start => exact fun _ hkey => absurd hkey List.not_mem_nil
  | push p row _ ih =>
    intro key hkey
    rcases mem_key_push hkey with hold | hnew
    · exact ih key hold
    · exact GroupKey.nulFree_ofRow hnew
  | close _ ih =>
    rw [map_key_close]
    exact ih
  | reset _ ih =>
    rw [map_key_reset]
    exact ih

/-! ## Sending -/

theorem exists_encode_iff {dst : Bytes} :
    (∃ dst', b.encode dst = .ok () dst') ↔ b.isSealed = true ∧ b.frame.Fits := by
  rw [encode]
  by_cases hsealed : b.isSealed = true
  · rw [if_pos hsealed, and_iff_right hsealed]
    exact BatchBindFrame.exists_encode_iff
  · rw [if_neg hsealed]
    constructor
    · rintro ⟨_, h⟩
      cases h
    · exact fun h => absurd h.1 hsealed

theorem Reachable.fits_frame (h : b.Reachable) :
    b.frame.Fits ↔ Utf8.NulFree b.portal ∧ Utf8.NulFree b.statement ∧ b.filled.length ≤ 32767 ∧
      ∀ g ∈ b.filled, g.buffer.bytes.length ≤ 2147483647 := by
  have hkeys : ∀ g ∈ b.filled, Utf8.NulFree g.key := by
    intro g hg
    exact h.keys _ (List.mem_map_of_mem (List.mem_filter.1 hg).1)
  constructor
  · intro hfits
    have hcount := hfits.count
    rw [frame, List.length_map] at hcount
    exact ⟨hfits.portal, hfits.statement, hcount,
      fun g hg => (hfits.payloads _ (List.mem_map_of_mem hg)).2⟩
  · rintro ⟨hportal, hstatement, hcount, hlen⟩
    refine ⟨hportal, hstatement, ?_, ?_⟩
    · rw [frame, List.length_map]
      exact hcount
    · intro kp hkp
      obtain ⟨g, hg, rfl⟩ := List.mem_map.1 hkp
      exact ⟨hkeys g hg, hlen g hg⟩

/-- What is sent of a batch is its frame. -/
theorem encode_frame {dst dst' : Bytes} (h : b.encode dst = .ok () dst') :
    b.frame.encode dst = .ok () dst' := by
  rw [encode] at h
  split at h
  next => exact h
  next => cases h

end BatchBind

/-- Frames that fit their fields can be sent, and sending and reading them undo each
other.  A batch is sent as the frame of the groups that hold rows, and whether it
can be sent does not depend on their keys. -/
theorem inverse_batchBind :
    (∀ (f : BatchBindFrame) (dst : Bytes), (∃ dst', f.encode dst = .ok () dst') ↔ f.Fits) ∧
    Inverse BatchBindFrame.Fits BatchBindFrame.tag BatchBindFrame.encode BatchBindFrame.decode ∧
    ∀ b : BatchBind, b.Reachable → ∀ dst,
      ((∃ dst', b.encode dst = .ok () dst') ↔
        b.isSealed = true ∧ Utf8.NulFree b.portal ∧ Utf8.NulFree b.statement ∧
          b.filled.length ≤ 32767 ∧ ∀ g ∈ b.filled, g.buffer.bytes.length ≤ 2147483647) ∧
      ∀ dst', b.encode dst = .ok () dst' →
        ∃ body f, dst' = dst ++ Frame.bytes ⟨BatchBindFrame.tag, body⟩ ∧
          BatchBindFrame.decode body = .ok f ∧
          f = ⟨b.portal, b.statement, b.filled.map fun g => (g.key, g.buffer.bytes)⟩ ∧
          f.encode dst = .ok () dst' := by
  refine ⟨fun _ _ => BatchBindFrame.exists_encode_iff, BatchBindFrame.inverse_frame, ?_⟩
  intro b hb dst
  refine ⟨BatchBind.exists_encode_iff.trans (and_congr_right fun _ => hb.fits_frame), ?_⟩
  intro dst' h
  have hframe := BatchBind.encode_frame h
  obtain ⟨body, hbody, hdst⟩ := send_ok hframe
  exact ⟨body, b.frame, hdst, BatchBindFrame.decode_of_encodeAll hbody, rfl, hframe⟩

namespace BatchRun

variable {p : Packer} {r : BatchRun}

theorem reachable_step (h : r.batch.Reachable) (op : BatchOp) : (r.step p op).batch.Reachable := by
  cases op with
  | push row =>
    have hbatch : (r.step p (.push row)).batch = (r.batch.push p row).1 := by
      simp only [step]
      cases GroupKey.ofRow p.layout.toShape row <;> rfl
    rw [hbatch]
    exact .push p row h
  | close => exact .close h
  | reset => exact .reset h
  | encode => exact h

/-- Rows that all go through one packer lead to such a batch. -/
theorem reachable_run (h : r.batch.Reachable) (ops : List BatchOp) :
    (r.run p ops).batch.Reachable := by
  induction ops generalizing r with
  | nil => exact h
  | cons op ops ih => exact ih (reachable_step h op)

/-- A note with a NUL at its end is sent under a key without one. -/
theorem sent_escaped_key :
    ∃ body f, paddedRun.batch.encode [] = .ok () (Frame.bytes ⟨BatchBindFrame.tag, body⟩) ∧
      BatchBindFrame.decode body = .ok f ∧ f.payloads.map (·.1) = ["d", "d\\x00"] := by
  obtain ⟨dst', hsent⟩ := sent_paddedRun
  have hreach : paddedRun.batch.Reachable := reachable_run (.start "" "") _
  obtain ⟨hiff, hreads⟩ := inverse_batchBind.2.2 paddedRun.batch hreach []
  obtain ⟨hsealed, -⟩ := hiff.1 ⟨dst', hsent⟩
  have hkeys : paddedRun.batch.frame.payloads.map (·.1) = ["d", "d\\x00"] := by
    rw [payloads_frame inv_paddedRun hsealed, ledger_paddedRun]
    decide +kernel
  obtain ⟨body, f, rfl, hread, rfl, -⟩ := hreads dst' hsent
  exact ⟨body, _, hsent, hread, hkeys⟩

end BatchRun
end SeriesWire
