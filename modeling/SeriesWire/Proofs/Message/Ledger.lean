/-
What a batch remembers.  A `Ledger` is a batch without its buffers: the keys that
it met since it was created, in the order in which they came, and the rows that it
accepted since it was last reset.  A ledger goes through the operations of a batch
on its own, and `ledger_run` says that the two stay together.  So whether a row is
accepted, and what a sealed batch sends, can be read off the operations
(`outcome_push`, `payloads_frame`).
-/
import SeriesWire.Proofs.Message.BatchBind
import SeriesWire.Proofs.Message.BatchBindFrame
import SeriesWire.Proofs.Payload.Verdict
import SeriesWire.Proofs.Wire.Frame

namespace SeriesWire

open Bytes

structure Ledger where
  keys : List String := []
  /-- The accepted rows, each under the key of its group. -/
  accepted : List (String × List CellValue) := []
  deriving DecidableEq, Repr

namespace Ledger

def push (p : Packer) (l : Ledger) (row : List CellValue) : Ledger × Except WireError Unit :=
  match GroupKey.ofRow p.layout.toShape row with
  | .error e => (l, .error e)
  | .ok key =>
    let outcome := p.verdict (rowsOf key l.accepted).length row
    ({ keys := if key ∈ l.keys then l.keys else l.keys ++ [key]
       accepted := if outcome.isOk then l.accepted ++ [(key, row)] else l.accepted }, outcome)

/-- Sealing and sending leave no trace, and a reset forgets the rows but not the
keys. -/
def step (p : Packer) (l : Ledger) : BatchOp → Ledger
  | .push row => (l.push p row).1
  | .reset => { l with accepted := [] }
  | .close | .encode => l

def run (p : Packer) (l : Ledger) (ops : List BatchOp) : Ledger := ops.foldl (step p) l

/-- The keys under which there are rows. -/
def filled (l : Ledger) : List String := l.keys.filter fun key => !(rowsOf key l.accepted).isEmpty

def payloads (p : Packer) (l : Ledger) : List (String × Bytes) :=
  l.filled.map fun key => (key, p.payload (rowsOf key l.accepted))

/-- Nothing is too long for a message, and no key has a NUL. -/
def Sendable (p : Packer) (l : Ledger) : Prop :=
  (∀ key ∈ l.keys, (p.blocks (rowsOf key l.accepted)).length < space Payload.dataLenWidth) ∧
    (l.payloads p).length ≤ BatchBindFrame.payloadLimit ∧
    ∀ kp ∈ l.payloads p, 0 ∉ Utf8.encode kp.1 ∧ kp.2.length ≤ Field.lengthLimit

instance (p : Packer) (l : Ledger) : Decidable (l.Sendable p) :=
  inferInstanceAs (Decidable (_ ∧ _))

/-! ## What a ledger keeps to -/

/-- Rows stand under their own keys, and the first of a key can open a payload. -/
structure Sound (p : Packer) (l : Ledger) : Prop where
  nodup : l.keys.Nodup
  known : ∀ a ∈ l.accepted, a.1 ∈ l.keys
  keyed : ∀ a ∈ l.accepted, GroupKey.ofRow p.layout.toShape a.2 = .ok a.1
  admits : ∀ key first, (rowsOf key l.accepted).head? = some first → p.Admits first

variable {p : Packer} {l : Ledger}

theorem sound_empty (p : Packer) : ({} : Ledger).Sound p where
  nodup := List.nodup_nil
  known _ ha := absurd ha List.not_mem_nil
  keyed _ ha := absurd ha List.not_mem_nil
  admits _ _ h := by cases h

theorem Sound.push (h : l.Sound p) (row : List CellValue) : (l.push p row).1.Sound p := by
  rw [Ledger.push]
  cases hkey : GroupKey.ofRow p.layout.toShape row with
  | error e => exact h
  | ok key =>
    have hmem : key ∈ (if key ∈ l.keys then l.keys else l.keys ++ [key]) := by
      split
      next hold => exact hold
      next => exact List.mem_append_right _ (List.mem_singleton.2 rfl)
    have hkept : ∀ key' ∈ l.keys, key' ∈ (if key ∈ l.keys then l.keys else l.keys ++ [key]) := by
      intro key' hkey'
      split
      · exact hkey'
      · exact List.mem_append_left _ hkey'
    have hnodup : (if key ∈ l.keys then l.keys else l.keys ++ [key]).Nodup := by
      split
      next => exact h.nodup
      next hnew =>
        rw [List.nodup_append]
        refine ⟨h.nodup, List.nodup_cons.2 ⟨List.not_mem_nil, List.nodup_nil⟩, ?_⟩
        rintro a ha b hb rfl
        exact hnew (List.mem_singleton.1 hb ▸ ha)
    cases hout : p.verdict (rowsOf key l.accepted).length row with
    | error e =>
      simp only [hout]
      exact ⟨hnodup, fun a ha => hkept _ (h.known a ha), h.keyed, h.admits⟩
    | ok done =>
      simp only [hout]
      have hlast : ∀ a ∈ l.accepted ++ [(key, row)], a ∈ l.accepted ∨ a = (key, row) := by
        intro a ha
        rwa [List.mem_append, List.mem_singleton] at ha
      refine ⟨hnodup, ?_, ?_, ?_⟩
      · intro a ha
        rcases hlast a ha with ha | rfl
        · exact hkept _ (h.known a ha)
        · exact hmem
      · intro a ha
        rcases hlast a ha with ha | rfl
        · exact h.keyed a ha
        · exact hkey
      · intro key' first hfirst
        by_cases hsame : key' = key
        · -- Only a row that opens its group is looked at, and it stays the first.
          subst hsame
          change (rowsOf key' (l.accepted ++ [(key', row)])).head? = some first at hfirst
          rw [rowsOf_append_self] at hfirst
          cases hrows : rowsOf key' l.accepted with
          | nil =>
            rw [hrows] at hout hfirst
            cases hfirst
            exact Packer.admits_of_verdict hout
          | cons opening rest =>
            rw [hrows] at hfirst
            cases hfirst
            exact h.admits key' first (by rw [hrows]; rfl)
        · change (rowsOf key' (l.accepted ++ [(key, row)])).head? = some first at hfirst
          rw [rowsOf_append_of_ne (Ne.symm hsame)] at hfirst
          exact h.admits key' first hfirst

theorem Sound.step (h : l.Sound p) (op : BatchOp) : (l.step p op).Sound p := by
  cases op with
  | push row => exact h.push row
  | close => exact h
  | reset =>
    exact ⟨h.nodup, fun _ ha => absurd ha List.not_mem_nil,
      fun _ ha => absurd ha List.not_mem_nil, fun _ _ hfirst => by cases hfirst⟩
  | encode => exact h

theorem Sound.run (h : l.Sound p) (ops : List BatchOp) : (l.run p ops).Sound p := by
  induction ops generalizing l with
  | nil => exact h
  | cons op ops ih => exact ih (h.step op)

end Ledger

namespace BatchRun

variable {p : Packer} {portal statement : String} {r : BatchRun}

def ledger (r : BatchRun) : Ledger := ⟨r.batch.groups.map (·.key), r.accepted⟩

/-! ## Staying together -/

theorem outcome_fillGroup (row : List CellValue) (key : String) {gs : List Group}
    {accepted : List (String × List CellValue)}
    (hholds : ∀ g ∈ gs, g.buffer.Holds p (rowsOf g.key accepted))
    (hnone : key ∉ gs.map (·.key) → rowsOf key accepted = []) :
    (BatchBind.fillGroup p row key gs).2 = p.verdict (rowsOf key accepted).length row := by
  induction gs with
  | nil =>
    rw [hnone List.not_mem_nil]
    exact Packer.outcome_fillRow (PayloadBuffer.holds_reset BatchBind.freshBuffer p) row
  | cons g gs ih =>
    obtain ⟨hg, hgs⟩ := List.forall_mem_cons.1 hholds
    rw [BatchBind.fillGroup]
    split
    next hkey =>
      rw [hkey] at hg
      exact Packer.outcome_fillRow hg row
    next hkey =>
      refine ih hgs fun hnot => hnone ?_
      rw [List.map_cons, List.mem_cons, not_or]
      exact ⟨Ne.symm hkey, hnot⟩

theorem Inv.rowsOf_eq_nil (h : r.Inv p portal statement) {key : String}
    (hkey : key ∉ r.batch.groups.map (·.key)) : rowsOf key r.accepted = [] := by
  apply List.eq_nil_iff_forall_not_mem.2
  intro row hrow
  exact hkey (h.known _ (mem_rowsOf.1 hrow))

/-- A batch accepts a row exactly if its ledger does. -/
theorem outcome_push (h : r.Inv p portal statement) (row : List CellValue) :
    (r.batch.push p row).2 = (r.ledger.push p row).2 := by
  rw [BatchBind.push, Ledger.push]
  cases GroupKey.ofRow p.layout.toShape row with
  | error e => rfl
  | ok key => exact outcome_fillGroup row key h.holds h.rowsOf_eq_nil

theorem ledger_step (h : r.Inv p portal statement) (op : BatchOp) :
    (r.step p op).ledger = r.ledger.step p op := by
  cases op with
  | push row =>
    cases hkey : GroupKey.ofRow p.layout.toShape row with
    | error e => simp only [step, Ledger.step, BatchBind.push, Ledger.push, hkey]
    | ok key =>
      have hout := outcome_fillGroup row key h.holds h.rowsOf_eq_nil
      have hkeys := BatchBind.map_key_fillGroup p row key r.batch.groups
      simp only [step, Ledger.step, BatchBind.push, Ledger.push, hkey, hout]
      rw [ledger, hkeys]
      rfl
  | close =>
    show Ledger.mk (r.batch.close.1.groups.map (·.key)) r.accepted = r.ledger
    have hkeys := BatchBind.map_key_stampAll r.batch.groups
    rw [BatchBind.close]
    split <;> (next hstamp => rw [hstamp] at hkeys; rw [ledger, ← hkeys])
  | reset =>
    show Ledger.mk (r.batch.reset.groups.map (·.key)) [] = _
    simp only [BatchBind.reset, List.map_map]
    rfl
  | encode => rfl

theorem ledger_run (h : r.Inv p portal statement) (ops : List BatchOp) :
    (r.run p ops).ledger = r.ledger.run p ops := by
  induction ops generalizing r with
  | nil => rfl
  | cons op ops ih =>
    show ((r.step p op).run p ops).ledger = (r.ledger.step p op).run p ops
    rw [← ledger_step h op, ih (inv_step h op)]

theorem ledger_start (p : Packer) (portal statement : String) (ops : List BatchOp) :
    ((start portal statement).run p ops).ledger = ({} : Ledger).run p ops :=
  ledger_run (inv_start p portal statement) ops

theorem accepted_run (p : Packer) (portal statement : String) (ops : List BatchOp) :
    ((start portal statement).run p ops).accepted = (({} : Ledger).run p ops).accepted :=
  congrArg Ledger.accepted (ledger_start p portal statement ops)

/-! ## Groups -/

/-- The group of a key that the batch met holds its rows. -/
theorem Inv.holds_payload? (h : r.Inv p portal statement) {key : String}
    (hkey : key ∈ r.ledger.keys) :
    ∃ buffer, r.batch.payload? key = some buffer ∧ buffer.Holds p (rowsOf key r.accepted) := by
  obtain ⟨g, hg, rfl⟩ := List.mem_map.1 hkey
  cases hfound : r.batch.groups.find? (·.key == g.key) with
  | none => exact absurd (beq_self_eq_true _) (List.find?_eq_none.1 hfound g hg)
  | some g' =>
    have hmatch := List.find?_some hfound
    have hsame : g'.key = g.key := eq_of_beq hmatch
    refine ⟨g'.buffer, ?_, ?_⟩
    · rw [BatchBind.payload?, hfound]
      rfl
    · rw [← hsame]
      exact h.holds g' (List.mem_of_find?_eq_some hfound)

/-! ## Sealing -/

theorem exists_stamp {b : PayloadBuffer} {rows : List (List CellValue)} (h : b.Holds p rows)
    (hrows : b.isEmpty = false) (hlen : (p.blocks rows).length < space Payload.dataLenWidth) :
    ∃ b', b.stamp = .ok b' := by
  cases rows with
  | nil =>
    rw [h.isEmpty] at hrows
    cases hrows
  | cons first rest =>
    rw [PayloadBuffer.stamp, h.hasHeader, PayloadBuffer.Headed.dataLen h,
      if_neg (Nat.not_le_of_lt hlen)]
    exact ⟨_, rfl⟩

theorem stampAll_ok {gs : List Group}
    (h : ∀ g ∈ gs, g.buffer.isEmpty = false → ∃ b', g.buffer.stamp = .ok b') :
    (BatchBind.stampAll gs).2 = .ok () := by
  induction gs with
  | nil => rfl
  | cons g gs ih =>
    obtain ⟨hg, hgs⟩ := List.forall_mem_cons.1 h
    rw [BatchBind.stampAll]
    split
    next => exact ih hgs
    next hrows =>
      obtain ⟨b', hstamp⟩ := hg (Bool.eq_false_iff.2 hrows)
      rw [hstamp]
      exact ih hgs

/-- A batch can be sealed unless the rows of a group are too long together. -/
theorem close_ok (h : r.Inv p portal statement)
    (hlen : ∀ key ∈ r.ledger.keys,
      (p.blocks (rowsOf key r.accepted)).length < space Payload.dataLenWidth) :
    r.batch.close.2 = .ok () := by
  have hstamp : (BatchBind.stampAll r.batch.groups).2 = .ok () :=
    stampAll_ok fun g hg hrows =>
      exists_stamp (h.holds g hg) hrows (hlen g.key (List.mem_map_of_mem hg))
  rw [BatchBind.close]
  split
  · rfl
  next he => rw [he] at hstamp; exact hstamp

theorem isSealed_of_close {b : BatchBind} (h : b.close.2 = .ok ()) : b.close.1.isSealed = true := by
  rw [BatchBind.close] at h ⊢
  split
  · rfl
  next hstamp =>
    rw [hstamp] at h
    cases h

/-! ## What is sent -/

theorem mem_filled {l : Ledger} (hknown : ∀ a ∈ l.accepted, a.1 ∈ l.keys) {key : String} :
    key ∈ l.filled ↔ ∃ row, (key, row) ∈ l.accepted := by
  rw [Ledger.filled, List.mem_filter, Bool.not_eq_true', List.isEmpty_eq_false_iff_exists_mem]
  simp only [mem_rowsOf]
  exact ⟨fun h => h.2, fun ⟨row, hrow⟩ => ⟨hknown _ hrow, row, hrow⟩⟩

/-- In a batch that may be sent, each group with rows has its stamps. -/
theorem Inv.sealed (h : r.Inv p portal statement) (hsealed : r.batch.isSealed = true) {g : Group}
    (hg : g ∈ r.batch.groups) (hrows : g.buffer.isEmpty = false) :
    g.buffer.bytes = p.payload (rowsOf g.key r.accepted) ∧
      (p.blocks (rowsOf g.key r.accepted)).length < space Payload.dataLenWidth := by
  rw [BatchBind.isSealed, Bool.or_eq_true, List.isEmpty_iff] at hsealed
  rcases hsealed with hstamped | hnone
  · exact h.stamped hstamped g hg hrows
  · have hmem : g ∈ r.batch.filled := List.mem_filter.2 ⟨hg, by rw [hrows]; rfl⟩
    rw [hnone] at hmem
    cases hmem

theorem payloads_frame (h : r.Inv p portal statement) (hsealed : r.batch.isSealed = true) :
    r.batch.frame = ⟨portal, statement, r.ledger.payloads p⟩ := by
  have hpayloads : r.batch.frame.payloads = r.ledger.payloads p := by
    simp only [BatchBind.frame, BatchBind.filled, Ledger.payloads, Ledger.filled, ledger,
      List.filter_map, List.map_map]
    have hempty : r.batch.groups.filter (fun g => !g.buffer.isEmpty) =
        r.batch.groups.filter ((fun key => !(rowsOf key r.accepted).isEmpty) ∘ (·.key)) := by
      apply List.filter_congr
      intro g hg
      rw [Function.comp_apply, (h.holds g hg).isEmpty]
    rw [← hempty]
    apply List.map_congr_left
    intro g hg
    rw [List.mem_filter, Bool.not_eq_true'] at hg
    rw [Function.comp_apply, (h.sealed hsealed hg.1 hg.2).1]
  rw [← h.portal, ← h.statement, ← hpayloads]
  rfl

theorem encode_ok (h : r.Inv p portal statement) {dst dst' : Bytes}
    (hsent : r.batch.encode dst = .ok () dst') :
    ∃ body, Field.encodeAll (BatchBindFrame.mk portal statement (r.ledger.payloads p)).fields =
        .ok body ∧ dst' = dst ++ Frame.bytes ⟨BatchBindFrame.tag, body⟩ := by
  rw [BatchBind.encode] at hsent
  split at hsent
  next hsealed =>
    rw [payloads_frame h hsealed] at hsent
    exact send_ok hsent
  next => cases hsent

/-- What is sent is read back as the ledger. -/
theorem decode_sent (h : r.Inv p portal statement) {dst dst' : Bytes}
    (hsent : r.batch.encode dst = .ok () dst') :
    dst'.take dst.length = dst ∧
      BatchBindFrame.decode (dst'.drop (dst.length + Frame.headLen)) =
        .ok ⟨portal, statement, r.ledger.payloads p⟩ := by
  obtain ⟨body, hbody, rfl⟩ := encode_ok h hsent
  rw [List.take_left, List.drop_length_add_append, Frame.drop_bytes]
  exact ⟨rfl, BatchBindFrame.decode_of_encodeAll hbody⟩

theorem run_concat (p : Packer) (r : BatchRun) (ops : List BatchOp) (op : BatchOp) :
    r.run p (ops ++ [op]) = (r.run p ops).step p op := by
  rw [run, List.foldl_append]
  rfl

/-- Any operations can be followed by sealing and sending, unless the message gets
too long. -/
theorem exists_sent (p : Packer) (portal statement : String) (ops : List BatchOp)
    (hportal : 0 ∉ Utf8.encode portal) (hstatement : 0 ∉ Utf8.encode statement)
    (h : (({} : Ledger).run p ops).Sendable p) (dst : Bytes) :
    ∃ dst', ((start portal statement).run p (ops ++ [.close])).batch.encode dst = .ok () dst' := by
  have hinv := inv_run (inv_start p portal statement) ops
  rw [← ledger_start p portal statement] at h
  rw [run_concat]
  generalize (start portal statement).run p ops = r at hinv h
  obtain ⟨hblocks, hcount, hpayloads⟩ := h
  have hsealed : (r.step p .close).batch.isSealed = true :=
    isSealed_of_close (close_ok hinv hblocks)
  have hledger : (r.step p .close).ledger = r.ledger := ledger_step hinv .close
  have hframe := payloads_frame (inv_step hinv .close) hsealed
  rw [hledger] at hframe
  obtain ⟨body, hbody⟩ := BatchBindFrame.exists_encodeAll
    (f := ⟨portal, statement, r.ledger.payloads p⟩) hportal hstatement hcount hpayloads
  rw [BatchBind.encode, if_pos hsealed, hframe, BatchBindFrame.encode, send_of_ok hbody]
  exact ⟨_, rfl⟩

end BatchRun
end SeriesWire
