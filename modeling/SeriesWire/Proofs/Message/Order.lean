/-
The order of a message.  Batches with the same rows send the same payloads, but in
the order in which each met its groups, and a group counts as met also by a row that
was rejected and by rows that a reset took away.  `same_bytes_iff` says when two
messages are the same, and `order_remembered` that a batch that was used before can
send its rows in another order than a new one.
-/
import SeriesWire.Proofs.Message.TagGroups

namespace SeriesWire

open Bytes

namespace Ledger

variable {p : Packer} {l l' : Ledger}

/-- Rows determine the keys that they stand under. -/
theorem Sound.accepted_eq (h : l.Sound p) (h' : l'.Sound p)
    (hrows : l.accepted.map (·.2) = l'.accepted.map (·.2)) : l.accepted = l'.accepted := by
  have hkeyed := h.keyed
  have hkeyed' := h'.keyed
  generalize l.accepted = accepted at hrows hkeyed
  generalize l'.accepted = accepted' at hrows hkeyed'
  induction accepted generalizing accepted' with
  | nil => exact (List.map_eq_nil_iff.1 hrows.symm).symm
  | cons a rest ih =>
    cases accepted' with
    | nil => cases hrows
    | cons a' rest' =>
      obtain ⟨hrow, hrest⟩ := List.cons.inj hrows
      obtain ⟨ha, hkeyed⟩ := List.forall_mem_cons.1 hkeyed
      obtain ⟨ha', hkeyed'⟩ := List.forall_mem_cons.1 hkeyed'
      have hkey : a.1 = a'.1 := by
        change a.2 = a'.2 at hrow
        rw [hrow, ha'] at ha
        exact (Except.ok.inj ha).symm
      rw [Prod.ext hkey hrow, ih hkeyed _ hrest hkeyed']

theorem Sound.perm_filled (h : l.Sound p) (h' : l'.Sound p) (hrows : l.accepted = l'.accepted) :
    l.filled.Perm l'.filled := by
  apply (List.perm_ext_iff_of_nodup h.nodup_filled h'.nodup_filled).2
  intro key
  rw [BatchRun.mem_filled h.known, BatchRun.mem_filled h'.known, hrows]

theorem payloads_eq_iff (hrows : l.accepted = l'.accepted) :
    l.payloads p = l'.payloads p ↔ l.filled = l'.filled := by
  constructor
  · intro h
    have hkeys : ∀ l : Ledger, (l.payloads p).map (·.1) = l.filled := by
      intro l
      rw [payloads, List.map_map]
      exact List.map_id _
    rw [← hkeys l, ← hkeys l', h]
  · intro h
    rw [payloads, payloads, h, hrows]

/-! ## Batches that keep every row -/

/-- The keys of rows in the order in which they come. -/
def firstSeen (accepted : List (String × List CellValue)) : List String :=
  accepted.foldl (fun keys a => if a.1 ∈ keys then keys else keys ++ [a.1]) []

/-- After `pushes` rows, the keys are in the order of the rows unless one of these
is missing. -/
structure Counted (pushes : Nat) (l : Ledger) : Prop where
  length_le : l.accepted.length ≤ pushes
  keys_eq : l.accepted.length = pushes → l.keys = firstSeen l.accepted

variable {pushes : Nat}

theorem Counted.push (h : l.Counted pushes) (row : List CellValue) :
    (l.push p row).1.Counted (pushes + 1) := by
  have hle := h.length_le
  rw [Ledger.push]
  cases hkey : GroupKey.ofRow p.layout.toShape row with
  | error e =>
    refine ⟨Nat.le_succ_of_le hle, fun hall => ?_⟩
    change l.accepted.length = pushes + 1 at hall
    omega
  | ok key =>
    cases hok : (p.verdict (rowsOf key l.accepted).length row).isOk with
    | false =>
      simp only [hok, if_false, Bool.false_eq_true]
      exact ⟨Nat.le_succ_of_le hle, fun hall => by change l.accepted.length = _ at hall; omega⟩
    | true =>
      simp only [hok, if_true]
      refine ⟨?_, fun hall => ?_⟩
      · rw [List.length_append]
        exact Nat.succ_le_succ hle
      · rw [List.length_append] at hall
        rw [firstSeen, List.foldl_append, ← firstSeen, ← h.keys_eq (Nat.succ.inj hall)]
        rfl

theorem Counted.run (h : l.Counted pushes) (ops : List BatchOp) :
    (l.run p ops).Counted (pushes + ops.countP BatchOp.isPush) := by
  induction ops generalizing l pushes with
  | nil => exact h
  | cons op ops ih =>
    change ((l.step p op).run p ops).Counted _
    cases op with
    | push row =>
      rw [List.countP_cons_of_pos rfl, Nat.add_comm _ 1, ← Nat.add_assoc]
      exact ih (h.push row)
    | reset =>
      rw [List.countP_cons_of_neg Bool.false_ne_true]
      -- Only if no row was pushed so far is none missing now, and then there are no keys.
      refine ih ⟨Nat.zero_le _, fun hnone => ?_⟩
      change 0 = pushes at hnone
      subst hnone
      have hempty := List.length_eq_zero_iff.1 (Nat.le_zero.1 h.length_le)
      show l.keys = firstSeen []
      rw [h.keys_eq (by rw [hempty]; rfl), hempty]
    | close => exact ih h
    | encode => exact ih h

theorem counted_run (p : Packer) (ops : List BatchOp) :
    (({} : Ledger).run p ops).Counted (ops.countP BatchOp.isPush) := by
  have hnew : ({} : Ledger).Counted 0 := ⟨Nat.le_refl 0, fun _ => rfl⟩
  have hrun : (({} : Ledger).run p ops).Counted (0 + ops.countP BatchOp.isPush) := hnew.run ops
  rwa [Nat.zero_add] at hrun

end Ledger

namespace BatchRun

variable {p : Packer} {portal statement : String} {r r' : BatchRun}

theorem sent_eq_iff (h : r.Inv p portal statement) (h' : r'.Inv p portal statement)
    (haccepted : r.ledger.accepted = r'.ledger.accepted) {dst dst' out out' : Bytes}
    (hsent : r.batch.encode dst = .ok () out) (hsent' : r'.batch.encode dst' = .ok () out') :
    out.drop dst.length = out'.drop dst'.length ↔ r.ledger.filled = r'.ledger.filled := by
  rw [← Ledger.payloads_eq_iff (p := p) haccepted]
  obtain ⟨body, hbody, rfl⟩ := encode_ok h hsent
  obtain ⟨body', hbody', rfl⟩ := encode_ok h' hsent'
  rw [List.drop_left, List.drop_left]
  constructor
  · -- Equal messages are read back as equal payloads.
    intro hsame
    have hbodies := congrArg (List.drop Frame.headLen) hsame
    rw [Frame.drop_bytes, Frame.drop_bytes] at hbodies
    change body = body' at hbodies
    have hdecode := BatchBindFrame.decode_of_encodeAll hbody
    rw [hbodies, BatchBindFrame.decode_of_encodeAll hbody'] at hdecode
    exact (congrArg BatchBindFrame.payloads (Except.ok.inj hdecode)).symm
  · intro hsame
    rw [hsame, hbody'] at hbody
    rw [Except.ok.inj hbody]

/-- Batches with the same rows send the same payloads.  They send the same bytes if
their groups stand in the same order, and these do if both batches still have every
row that was pushed to them. -/
theorem same_bytes_iff (p : Packer) (portal statement : String) {ops ops' : List BatchOp}
    {dst dst' out out' : Bytes}
    (hrows : ((start portal statement).run p ops).accepted.map (·.2) =
      ((start portal statement).run p ops').accepted.map (·.2))
    (hsent : ((start portal statement).run p ops).batch.encode dst = .ok () out)
    (hsent' : ((start portal statement).run p ops').batch.encode dst' = .ok () out') :
    (∃ payloads payloads', payloads.Perm payloads' ∧
      BatchBindFrame.decode (out.drop (dst.length + Frame.headLen)) =
        .ok ⟨portal, statement, payloads⟩ ∧
      BatchBindFrame.decode (out'.drop (dst'.length + Frame.headLen)) =
        .ok ⟨portal, statement, payloads'⟩) ∧
      (out.drop dst.length = out'.drop dst'.length ↔
        (({} : Ledger).run p ops).filled = (({} : Ledger).run p ops').filled) ∧
      (((start portal statement).run p ops).accepted.length = ops.countP BatchOp.isPush →
        ((start portal statement).run p ops').accepted.length = ops'.countP BatchOp.isPush →
        out.drop dst.length = out'.drop dst'.length) := by
  have hinv := inv_run (inv_start p portal statement) ops
  have hinv' := inv_run (inv_start p portal statement) ops'
  have hsound := sound_ledger p portal statement ops
  have hsound' := sound_ledger p portal statement ops'
  have hcounted := Ledger.counted_run p ops
  have hcounted' := Ledger.counted_run p ops'
  rw [← ledger_start p portal statement] at hcounted hcounted'
  rw [← ledger_start p portal statement, ← ledger_start p portal statement]
  generalize (start portal statement).run p ops = r at *
  generalize (start portal statement).run p ops' = r' at *
  have haccepted : r.ledger.accepted = r'.ledger.accepted := hsound.accepted_eq hsound' hrows
  have hbytes := sent_eq_iff hinv hinv' haccepted hsent hsent'
  refine ⟨?_, hbytes, fun hall hall' => hbytes.2 ?_⟩
  · refine ⟨_, _, ?_, (decode_sent hinv hsent).2, (decode_sent hinv' hsent').2⟩
    rw [Ledger.payloads, Ledger.payloads, haccepted]
    exact (hsound.perm_filled hsound' haccepted).map _
  · rw [Ledger.filled, Ledger.filled, hcounted.keys_eq hall, hcounted'.keys_eq hall', haccepted]

/-- Two notes in two groups. -/
def noteOps : List BatchOp := [.push [.int 1, .bytes [97]], .push [.int 2, .bytes [98]]]

theorem sent_noteOps :
    ∃ out, ((start "" "").run notePacker (noteOps ++ [.close])).batch.encode [] = .ok () out :=
  exists_sent notePacker "" "" noteOps (by decide +kernel) (by decide +kernel)
    (by decide +kernel) []

/-- Sealing and sending a batch halfway is not seen in the end. -/
theorem same_bytes_noteOps :
    ∃ out out',
      ((start "" "").run notePacker (noteOps ++ [.close])).batch.encode [] = .ok () out ∧
      ((start "" "").run notePacker
        ([.push [.int 1, .bytes [97]], .close, .encode, .push [.int 2, .bytes [98]]] ++
          [.close])).batch.encode [] = .ok () out' ∧ out = out' := by
  obtain ⟨out, hsent⟩ := sent_noteOps
  obtain ⟨out', hsent'⟩ := exists_sent notePacker "" ""
    [.push [.int 1, .bytes [97]], .close, .encode, .push [.int 2, .bytes [98]]]
    (by decide +kernel) (by decide +kernel) (by decide +kernel) []
  refine ⟨out, out', hsent, hsent', ?_⟩
  refine (same_bytes_iff notePacker "" "" ?_ hsent hsent').2.2 ?_ ?_
  · rw [accepted_run, accepted_run]
    decide +kernel
  · rw [accepted_run]
    decide +kernel
  · rw [accepted_run]
    decide +kernel

/-- The notes are all that is accepted behind `before`, but they are sent in other
bytes than without it. -/
def Reorders (before : List BatchOp) : Prop :=
  ((start "" "").run notePacker (before ++ noteOps ++ [.close])).accepted =
      ((start "" "").run notePacker (noteOps ++ [.close])).accepted ∧
    ∃ out out',
      ((start "" "").run notePacker (noteOps ++ [.close])).batch.encode [] = .ok () out ∧
      ((start "" "").run notePacker (before ++ noteOps ++ [.close])).batch.encode [] =
        .ok () out' ∧ out ≠ out'

theorem reorders_of_filled {before : List BatchOp}
    (haccepted : (({} : Ledger).run notePacker (before ++ noteOps ++ [.close])).accepted =
      (({} : Ledger).run notePacker (noteOps ++ [.close])).accepted)
    (hsendable : (({} : Ledger).run notePacker (before ++ noteOps)).Sendable notePacker)
    (hfilled : (({} : Ledger).run notePacker (noteOps ++ [.close])).filled ≠
      (({} : Ledger).run notePacker (before ++ noteOps ++ [.close])).filled) :
    Reorders before := by
  obtain ⟨out, hsent⟩ := sent_noteOps
  obtain ⟨out', hsent'⟩ := exists_sent notePacker "" "" (before ++ noteOps) (by decide +kernel)
    (by decide +kernel) hsendable []
  have hinv := inv_run (inv_start notePacker "" "")
  have hledgers := ledger_start notePacker "" ""
  have hiff := sent_eq_iff (hinv (noteOps ++ [BatchOp.close]))
    (hinv (before ++ noteOps ++ [BatchOp.close]))
    (by rw [hledgers, hledgers]; exact haccepted.symm) hsent hsent'
  rw [hledgers, hledgers] at hiff
  refine ⟨?_, out, out', hsent, hsent', fun hsame => hfilled (hiff.1 (by rw [hsame]))⟩
  rw [accepted_run, accepted_run]
  exact haccepted

/-- A group that lost its rows to a reset, and one that was met by a rejected row,
keep their places. -/
theorem order_remembered :
    Reorders [.push [.int 2, .bytes [98]], .reset] ∧ Reorders [.push [.bytes [], .bytes [98]]] := by
  constructor
  · exact reorders_of_filled (by decide +kernel) (by decide +kernel) (by decide +kernel)
  · exact reorders_of_filled (by decide +kernel) (by decide +kernel) (by decide +kernel)

end BatchRun
end SeriesWire
