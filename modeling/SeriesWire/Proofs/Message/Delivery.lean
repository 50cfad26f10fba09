/-
What comes out of a batch.  Whatever was done to it, what is sent can be read back as
the rows that it accepted, each in the payload of its group, and a batch that has not
been sealed since it changed sends nothing (`encode_run`).
-/
import SeriesWire.Proofs.Message.Ledger
import SeriesWire.Proofs.Payload.RoundTrip

namespace SeriesWire

open Bytes

namespace BatchRun

variable {p : Packer} {portal statement : String} {r : BatchRun}

theorem length_accepted_run_le (p : Packer) (r : BatchRun) (ops : List BatchOp) :
    (r.run p ops).accepted.length ≤ r.accepted.length + ops.countP BatchOp.isPush := by
  induction ops generalizing r with
  | nil => exact Nat.le_refl _
  | cons op ops ih =>
    have hstep : (r.step p op).accepted.length ≤
        r.accepted.length + if op.isPush = true then 1 else 0 := by
      cases op with
      | push row =>
        show _ ≤ r.accepted.length + 1
        simp only [step]
        cases GroupKey.ofRow p.layout.toShape row with
        | error e => exact Nat.le_succ _
        | ok key =>
          show (if _ then r.accepted ++ [_] else r.accepted).length ≤ r.accepted.length + 1
          split
          · exact Nat.le_of_eq List.length_append
          · exact Nat.le_succ _
      | close => exact Nat.le_refl _
      | reset => exact Nat.zero_le _
      | encode => exact Nat.le_refl _
    have hrest := ih (r.step p op)
    show ((r.step p op).run p ops).accepted.length ≤ _
    rw [List.countP_cons]
    omega

theorem rows_ne_nil_iff (h : r.Inv p portal statement) {g : Group} (hg : g ∈ r.batch.groups) :
    g.buffer.isEmpty = false ↔ rowsOf g.key r.accepted ≠ [] := by
  rw [(h.holds g hg).isEmpty, Bool.eq_false_iff, ne_eq, List.isEmpty_iff]

theorem map_fst_frame (b : BatchBind) : b.frame.payloads.map (·.1) = b.filled.map (·.key) := by
  rw [BatchBind.frame, List.map_map]
  rfl

theorem mem_keys_frame (h : r.Inv p portal statement) (key : String) :
    key ∈ r.batch.frame.payloads.map (·.1) ↔ ∃ row, (key, row) ∈ r.accepted := by
  rw [map_fst_frame, List.mem_map]
  constructor
  · rintro ⟨g, hg, rfl⟩
    rw [BatchBind.filled, List.mem_filter, Bool.not_eq_true'] at hg
    obtain ⟨hmem, hrows⟩ := hg
    obtain ⟨row, hrow⟩ := List.exists_mem_of_ne_nil _ ((rows_ne_nil_iff h hmem).1 hrows)
    exact ⟨row, mem_rowsOf.1 hrow⟩
  · rintro ⟨row, hrow⟩
    obtain ⟨g, hg, rfl⟩ := List.mem_map.1 (h.known _ hrow)
    refine ⟨g, ?_, rfl⟩
    rw [BatchBind.filled, List.mem_filter, Bool.not_eq_true']
    exact ⟨hg, (rows_ne_nil_iff h hg).2 (List.ne_nil_of_mem (mem_rowsOf.2 hrow))⟩

theorem filled_ne_nil (h : r.Inv p portal statement) (hrows : r.accepted ≠ []) :
    r.batch.filled ≠ [] := by
  obtain ⟨⟨key, row⟩, hmem⟩ := List.exists_mem_of_ne_nil _ hrows
  have hkey := (mem_keys_frame h key).2 ⟨row, hmem⟩
  intro hnone
  rw [map_fst_frame, hnone] at hkey
  cases hkey

/-- A row that gets as far as its group makes the batch stale, accepted or not. -/
theorem stale_push {row : List CellValue} {key : String}
    (hkey : GroupKey.ofRow p.layout.toShape row = .ok key) :
    (r.step p (.push row)).stale = true := by
  simp only [step, hkey]

/-- `f` carries the accepted rows of a run, each group in a payload of its own. -/
structure Sends (p : Packer) (portal statement : String) (r : BatchRun) (f : BatchBindFrame) :
    Prop where
  portal : f.portal = portal
  statement : f.statement = statement
  nodup : (f.payloads.map (·.1)).Nodup
  keys : ∀ key, key ∈ f.payloads.map (·.1) ↔ ∃ row, (key, row) ∈ r.accepted
  payloads : ∀ kp ∈ f.payloads, ∃ v first, (rowsOf kp.1 r.accepted).head? = some first ∧
    PayloadView.parse p.layout kp.2 = .ok v ∧ v.Shows p first (rowsOf kp.1 r.accepted)

theorem sends_frame (h : r.Inv p portal statement) (hsealed : r.batch.isSealed = true)
    (htags : p.layout.tagSectionLen < space Payload.tagLenWidth)
    (hrows : r.accepted.length < space 4) : r.Sends p portal statement r.batch.frame := by
  refine ⟨h.portal, h.statement, ?_, mem_keys_frame h, ?_⟩
  · rw [map_fst_frame]
    exact List.Nodup.sublist (List.Sublist.map _ List.filter_sublist) h.nodup
  · rintro ⟨key, bytes⟩ hkp
    obtain ⟨g, hg, hpair⟩ := List.mem_map.1 hkp
    cases hpair
    rw [BatchBind.filled, List.mem_filter, Bool.not_eq_true'] at hg
    obtain ⟨hmem, hfilled⟩ := hg
    obtain ⟨hbytes, hlt⟩ := h.sealed hsealed hmem hfilled
    have hheld := h.holds g hmem
    have hcount := Nat.lt_of_le_of_lt (length_rowsOf_le g.key r.accepted) hrows
    have hne := (rows_ne_nil_iff h hmem).1 hfilled
    show ∃ v first, (rowsOf g.key r.accepted).head? = some first ∧
      PayloadView.parse p.layout g.buffer.bytes = .ok v ∧ v.Shows p first (rowsOf g.key r.accepted)
    rw [hbytes]
    generalize rowsOf g.key r.accepted = rows at hheld hcount hne hlt
    cases rows with
    | nil => exact absurd rfl hne
    | cons first rest =>
      exact ⟨p.viewOf first (first :: rest), first, rfl,
        Packer.parse_laidOut hheld.opens hheld.takes htags hcount hlt,
        Packer.shows_viewOf hheld.opens hheld.takes htags⟩

/-- Whatever was done to a batch, it is sent only as its accepted rows, every
row once, in a payload under its key; and it is not sent at all if rows came, or
it was reset, after it was last sealed. -/
theorem encode_run (portal statement : String) (htags : p.layout.tagSectionLen < space 4)
    (ops : List BatchOp) (hrows : ops.countP BatchOp.isPush < space 4) (dst : Bytes) :
    (∀ dst', ((start portal statement).run p ops).batch.encode dst = .ok () dst' →
      ∃ f, dst'.take dst.length = dst ∧
        BatchBindFrame.decode (dst'.drop (dst.length + Frame.headLen)) = .ok f ∧
        ((start portal statement).run p ops).Sends p portal statement f) ∧
      (((start portal statement).run p ops).batch.filled ≠ [] →
        ((start portal statement).run p ops).stale = true →
        ((start portal statement).run p ops).batch.encode dst =
          .error (.malformed (.batchBind .unsealed)) dst) := by
  have hinv := inv_run (inv_start p portal statement) ops
  have hcount : ((start portal statement).run p ops).accepted.length < space 4 := by
    have hle := length_accepted_run_le p (start portal statement) ops
    rw [start, List.length_nil, Nat.zero_add] at hle
    exact Nat.lt_of_le_of_lt hle hrows
  generalize (start portal statement).run p ops = r at hinv hcount
  constructor
  · intro dst' hsent
    rw [BatchBind.encode] at hsent
    by_cases hsealed : r.batch.isSealed = true
    · rw [if_pos hsealed] at hsent
      obtain ⟨hkept, hbody⟩ := send_ok_parts hsent
      exact ⟨r.batch.frame, hkept, BatchBindFrame.decode_of_encodeAll hbody,
        sends_frame hinv hsealed htags hcount⟩
    · rw [if_neg hsealed] at hsent
      cases hsent
  · intro hfilled hstale
    have hsealed : ¬r.batch.isSealed = true := by
      rw [BatchBind.isSealed, hinv.stale hstale, Bool.false_or, List.isEmpty_iff]
      exact hfilled
    rw [BatchBind.encode, if_neg hsealed]
    rfl

/-- A note that is a number. -/
def misfit : List CellValue := [.timestamp 0, .int 1, .null, .bytes [98], .null, .null]

/-- A row of the first group, one that is rejected, and after a reset a row of each group. -/
def meterOps : List BatchOp :=
  [.push [.timestamp 1999, .bytes [104, 105], .null, .bytes [97], .bytes [98, 0, 99], .null],
    .push misfit, .close, .encode, .reset,
    .push [.null, .null, .bytes [107, 87, 104, 33], .bytes [98], .null, .int 7],
    .push [.timestamp 3, .null, .null, .bytes [97], .null, .int 1]]

/-- Both groups are to be sent. -/
def meterRun : BatchRun := (start "" "s").run PayloadBuffer.meterPacker (meterOps ++ [.close])

/-- One more row, though it is rejected. -/
def lateRun : BatchRun := meterRun.step PayloadBuffer.meterPacker (.push misfit)

theorem encode_meterOps :
    (∃ out f, meterRun.batch.encode [7] = .ok () out ∧ out.take 1 = [7] ∧
      BatchBindFrame.decode (out.drop 6) = .ok f ∧
      meterRun.Sends PayloadBuffer.meterPacker "" "s" f ∧
      "a" ∈ f.payloads.map (·.1) ∧ "b" ∈ f.payloads.map (·.1)) ∧
    lateRun.batch.filled ≠ [] ∧ lateRun.stale = true ∧
      lateRun.batch.encode [7] = .error (.malformed (.batchBind .unsealed)) [7] := by
  have htags : PayloadBuffer.meterPacker.layout.tagSectionLen < space 4 := by decide
  have haccepted : meterRun.accepted = [
      ("b", [.null, .null, .bytes [107, 87, 104, 33], .bytes [98], .null, .int 7]),
      ("a", [.timestamp 3, .null, .null, .bytes [97], .null, .int 1])] := by
    rw [meterRun, accepted_run]
    decide +kernel
  refine ⟨?_, ?_⟩
  · obtain ⟨out, hsent⟩ := exists_sent PayloadBuffer.meterPacker "" "s" meterOps
      (by decide +kernel) (by decide +kernel) (by decide +kernel) [7]
    obtain ⟨hsends, -⟩ := encode_run "" "s" htags (meterOps ++ [.close]) (by decide) [7]
    obtain ⟨f, hkept, hdecode, hf⟩ := hsends out hsent
    have hkeys := hf.keys
    rw [← meterRun, haccepted] at hkeys
    exact ⟨out, f, hsent, hkept, hdecode, hf,
      (hkeys "a").2 ⟨_, List.mem_cons_of_mem _ List.mem_cons_self⟩,
      (hkeys "b").2 ⟨_, List.mem_cons_self⟩⟩
  · have hrun : lateRun = (start "" "s").run PayloadBuffer.meterPacker
        (meterOps ++ [.close] ++ [.push misfit]) := (run_concat _ _ _ _).symm
    have hstale : lateRun.stale = true := stale_push rfl
    have hfilled : lateRun.batch.filled ≠ [] := by
      rw [hrun]
      refine filled_ne_nil (inv_run (inv_start PayloadBuffer.meterPacker "" "s") _) ?_
      rw [accepted_run]
      decide +kernel
    obtain ⟨-, hunsent⟩ := encode_run "" "s" htags (meterOps ++ [.close] ++ [.push misfit])
      (by decide) [7]
    rw [← hrun] at hunsent
    exact ⟨hfilled, hstale, hunsent hfilled hstale⟩

end BatchRun
end SeriesWire
