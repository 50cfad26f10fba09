/-
Batches and their history.  A `BatchRun` is a batch together with the rows that
it accepted since it was last reset, each under the key of its group.
`BatchRun.Inv` ties the two together: every group holds the rows of its key, and
as long as the batch counts as sealed every group has its stamps.  Each operation
keeps it (`inv_run`).
-/
import SeriesWire.Message.BatchBind
import SeriesWire.Proofs.Payload.Filling

namespace SeriesWire

open Bytes

/-! ## What the operations do to the groups -/

namespace BatchBind

variable {p : Packer} {row : List CellValue} {key : String} {gs : List Group} {g g' : Group}

theorem map_key_fillGroup (p : Packer) (row : List CellValue) (key : String) (gs : List Group) :
    (fillGroup p row key gs).1.map (·.key) =
      if key ∈ gs.map (·.key) then gs.map (·.key) else gs.map (·.key) ++ [key] := by
  induction gs with
  | nil => rfl
  | cons g gs ih =>
    rw [fillGroup, List.map_cons]
    by_cases hg : g.key = key
    · rw [if_pos hg, if_pos (List.mem_cons.2 (.inl hg.symm))]
      rfl
    · rw [if_neg hg]
      show g.key :: (fillGroup p row key gs).1.map (·.key) = _
      rw [ih]
      by_cases hkey : key ∈ gs.map (·.key)
      · rw [if_pos hkey, if_pos (List.mem_cons_of_mem _ hkey)]
      · have hnew : key ∉ g.key :: gs.map (·.key) := by
          rw [List.mem_cons, not_or]
          exact ⟨Ne.symm hg, hkey⟩
        rw [if_neg hkey, if_neg hnew, List.cons_append]

/-- A row is packed into the buffer of its group, a fresh one if there is no such
group, and the other groups stay as they are. -/
theorem mem_fillGroup (hnodup : (gs.map (·.key)).Nodup) (h : g' ∈ (fillGroup p row key gs).1) :
    (g' ∈ gs ∧ g'.key ≠ key) ∨
      (g'.key = key ∧ ∃ buffer,
        ((∃ g ∈ gs, g.key = key ∧ g.buffer = buffer) ∨
          (key ∉ gs.map (·.key) ∧ buffer = freshBuffer)) ∧
        p.fillRow buffer row = (g'.buffer, (fillGroup p row key gs).2)) := by
  induction gs with
  | nil =>
    rw [fillGroup, List.mem_singleton] at h
    subst h
    exact .inr ⟨rfl, freshBuffer, .inr ⟨List.not_mem_nil, rfl⟩, rfl⟩
  | cons g gs ih =>
    rw [List.map_cons, List.nodup_cons] at hnodup
    obtain ⟨hnot, hnodup⟩ := hnodup
    rw [fillGroup] at h ⊢
    by_cases hg : g.key = key
    · rw [if_pos hg] at h ⊢
      rcases List.mem_cons.1 h with rfl | h
      · exact .inr ⟨hg, g.buffer, .inl ⟨g, List.mem_cons_self, hg, rfl⟩, rfl⟩
      · refine .inl ⟨List.mem_cons_of_mem _ h, fun hkey => hnot ?_⟩
        rw [hg, ← hkey]
        exact List.mem_map_of_mem h
    · rw [if_neg hg] at h ⊢
      rcases List.mem_cons.1 h with rfl | h
      · exact .inl ⟨List.mem_cons_self, hg⟩
      · rcases ih hnodup h with ⟨hmem, hkey⟩ | ⟨hkey, buffer, hbuffer, hfill⟩
        · exact .inl ⟨List.mem_cons_of_mem _ hmem, hkey⟩
        · refine .inr ⟨hkey, buffer, ?_, hfill⟩
          rcases hbuffer with ⟨g₀, hmem, hfound⟩ | ⟨hnew, hfresh⟩
          · exact .inl ⟨g₀, List.mem_cons_of_mem _ hmem, hfound⟩
          · refine .inr ⟨?_, hfresh⟩
            rw [List.map_cons, List.mem_cons, not_or]
            exact ⟨Ne.symm hg, hnew⟩

theorem map_key_stampAll (gs : List Group) :
    (stampAll gs).1.map (·.key) = gs.map (·.key) := by
  induction gs with
  | nil => rfl
  | cons g gs ih =>
    rw [stampAll]
    split
    · exact congrArg (g.key :: ·) ih
    · split
      · rfl
      · exact congrArg (g.key :: ·) ih

theorem map_key_reset (b : BatchBind) : b.reset.groups.map (·.key) = b.groups.map (·.key) := by
  rw [reset, List.map_map]
  rfl

theorem mem_stampAll (h : g' ∈ (stampAll gs).1) :
    ∃ g ∈ gs, g.key = g'.key ∧ (g = g' ∨ g.buffer.stamp = .ok g'.buffer) ∧
      ((stampAll gs).2 = .ok () → g'.buffer.isEmpty = true ∨ g.buffer.stamp = .ok g'.buffer) := by
  induction gs with
  | nil => cases h
  | cons g gs ih =>
    rw [stampAll] at h ⊢
    by_cases hempty : g.buffer.isEmpty = true
    · rw [if_pos hempty] at h ⊢
      rcases List.mem_cons.1 h with rfl | h
      · exact ⟨g', List.mem_cons_self, rfl, .inl rfl, fun _ => .inl hempty⟩
      · obtain ⟨g₀, hmem, hfound⟩ := ih h
        exact ⟨g₀, List.mem_cons_of_mem _ hmem, hfound⟩
    · rw [if_neg hempty] at h ⊢
      cases hstamp : g.buffer.stamp with
      | error e =>
        rw [hstamp] at h
        exact ⟨g', h, rfl, .inl rfl, nofun⟩
      | ok buffer =>
        rw [hstamp] at h
        rcases List.mem_cons.1 h with rfl | h
        · exact ⟨g, List.mem_cons_self, rfl, .inr hstamp, fun _ => .inr hstamp⟩
        · obtain ⟨g₀, hmem, hfound⟩ := ih h
          exact ⟨g₀, List.mem_cons_of_mem _ hmem, hfound⟩

end BatchBind

/-! ## Runs -/

inductive BatchOp
  | push (row : List CellValue)
  | close
  | reset
  | encode
  deriving DecidableEq, Repr

def BatchOp.isPush : BatchOp → Bool
  | push _ => true
  | _ => false

/-- A batch and its history. -/
structure BatchRun where
  batch : BatchBind
  /-- The rows accepted since the last reset, in the order in which they were
  pushed, each under the key of its group. -/
  accepted : List (String × List CellValue)
  /-- Whether a row reached its group, or the batch was reset, after the last
  seal. -/
  stale : Bool
  deriving DecidableEq, Repr

def rowsOf (key : String) (accepted : List (String × List CellValue)) : List (List CellValue) :=
  accepted.filterMap fun a => if a.1 = key then some a.2 else none

theorem rowsOf_append_self (key : String) (accepted : List (String × List CellValue))
    (row : List CellValue) :
    rowsOf key (accepted ++ [(key, row)]) = rowsOf key accepted ++ [row] := by
  have hlast : rowsOf key [(key, row)] = [row] := by
    rw [rowsOf, List.filterMap_cons, if_pos rfl, List.filterMap_nil]
  rw [← hlast]
  exact List.filterMap_append

theorem rowsOf_append_of_ne {key key' : String} (h : key' ≠ key)
    (accepted : List (String × List CellValue)) (row : List CellValue) :
    rowsOf key (accepted ++ [(key', row)]) = rowsOf key accepted := by
  have hlast : rowsOf key [(key', row)] = [] := by
    rw [rowsOf, List.filterMap_cons, if_neg h, List.filterMap_nil]
  rw [← List.append_nil (rowsOf key accepted), ← hlast]
  exact List.filterMap_append

theorem length_rowsOf_le (key : String) (accepted : List (String × List CellValue)) :
    (rowsOf key accepted).length ≤ accepted.length := List.length_filterMap_le _ _

theorem mem_rowsOf {key : String} {accepted : List (String × List CellValue)}
    {row : List CellValue} : row ∈ rowsOf key accepted ↔ (key, row) ∈ accepted := by
  rw [rowsOf, List.mem_filterMap]
  constructor
  · rintro ⟨⟨key', row'⟩, hmem, h⟩
    split at h
    next hkey =>
      cases h
      rw [← hkey]
      exact hmem
    next => cases h
  · intro h
    exact ⟨(key, row), h, if_pos rfl⟩

namespace BatchRun

def start (portal statement : String) : BatchRun :=
  { batch := { portal, statement }, accepted := [], stale := false }

def step (p : Packer) (r : BatchRun) : BatchOp → BatchRun
  | .push row =>
    let (batch, outcome) := r.batch.push p row
    match GroupKey.ofRow p.layout.toShape row with
    | .error _ => { r with batch }
    | .ok key =>
      { batch
        accepted := if outcome.isOk then r.accepted ++ [(key, row)] else r.accepted
        stale := true }
  | .close =>
    let (batch, outcome) := r.batch.close
    { r with batch, stale := r.stale && !outcome.isOk }
  | .reset => { batch := r.batch.reset, accepted := [], stale := true }
  | .encode => r

def run (p : Packer) (r : BatchRun) (ops : List BatchOp) : BatchRun := ops.foldl (step p) r

/-- The batch and its history agree. -/
structure Inv (p : Packer) (portal statement : String) (r : BatchRun) : Prop where
  portal : r.batch.portal = portal
  statement : r.batch.statement = statement
  nodup : (r.batch.groups.map (·.key)).Nodup
  holds : ∀ g ∈ r.batch.groups, g.buffer.Holds p (rowsOf g.key r.accepted)
  known : ∀ a ∈ r.accepted, a.1 ∈ r.batch.groups.map (·.key)
  stamped : r.batch.stamped = true → ∀ g ∈ r.batch.groups, g.buffer.isEmpty = false →
    g.buffer.bytes = p.payload (rowsOf g.key r.accepted) ∧
      (p.blocks (rowsOf g.key r.accepted)).length < space Payload.dataLenWidth
  stale : r.stale = true → r.batch.stamped = false

variable {p : Packer} {portal statement : String} {r : BatchRun}

theorem inv_start (p : Packer) (portal statement : String) :
    (start portal statement).Inv p portal statement where
  portal := rfl
  statement := rfl
  nodup := List.nodup_nil
  holds _ hg := absurd hg List.not_mem_nil
  known _ ha := absurd ha List.not_mem_nil
  stamped _ _ hg := absurd hg List.not_mem_nil
  stale h := by cases h

theorem holds_fillGroup {gs groups : List Group} {accepted : List (String × List CellValue)}
    {row : List CellValue} {key : String} {outcome : Except WireError Unit}
    (hnodup : (gs.map (·.key)).Nodup) (hholds : ∀ g ∈ gs, g.buffer.Holds p (rowsOf g.key accepted))
    (hknown : ∀ a ∈ accepted, a.1 ∈ gs.map (·.key))
    (hfill : BatchBind.fillGroup p row key gs = (groups, outcome)) :
    ∀ g ∈ groups, g.buffer.Holds p
      (rowsOf g.key (if outcome.isOk then accepted ++ [(key, row)] else accepted)) := by
  intro g hg
  have hmem : g ∈ (BatchBind.fillGroup p row key gs).1 := by rw [hfill]; exact hg
  rcases BatchBind.mem_fillGroup hnodup hmem with ⟨hsame, hne⟩ | ⟨rfl, buffer, hbuffer, hrow⟩
  · cases outcome with
    | error e => exact hholds g hsame
    | ok done =>
      show g.buffer.Holds p (rowsOf g.key (accepted ++ [(key, row)]))
      rw [rowsOf_append_of_ne (Ne.symm hne)]
      exact hholds g hsame
  · have hheld : buffer.Holds p (rowsOf g.key accepted) := by
      rcases hbuffer with ⟨g₀, hg₀, hkey, rfl⟩ | ⟨hnew, rfl⟩
      · rw [← hkey]
        exact hholds g₀ hg₀
      · have hnone : rowsOf g.key accepted = [] := by
          apply List.eq_nil_iff_forall_not_mem.2
          intro row' hrow'
          exact hnew (hknown _ (mem_rowsOf.1 hrow'))
        rw [hnone]
        exact PayloadBuffer.holds_reset BatchBind.freshBuffer p
    rw [hfill] at hrow
    cases outcome with
    | error e => exact PayloadBuffer.holds_fillRow_error hheld hrow
    | ok done =>
      show g.buffer.Holds p (rowsOf g.key (accepted ++ [(g.key, row)]))
      rw [rowsOf_append_self]
      exact PayloadBuffer.holds_fillRow_ok hheld hrow

/-- A row without a group changes nothing, any other row makes the batch stale
and joins its group if it can be packed. -/
theorem inv_push (h : r.Inv p portal statement) (row : List CellValue) :
    (r.step p (.push row)).Inv p portal statement := by
  cases hkey : GroupKey.ofRow p.layout.toShape row with
  | error e =>
    have hsame : r.step p (.push row) = r := by
      simp only [step, BatchBind.push, hkey]
    rw [hsame]
    exact h
  | ok key =>
    have hkeys := BatchBind.map_key_fillGroup p row key r.batch.groups
    cases hfill : BatchBind.fillGroup p row key r.batch.groups with
    | mk groups outcome =>
      simp only [step, BatchBind.push, hkey, hfill]
      rw [hfill] at hkeys
      have hmem : ∀ key', key' ∈ groups.map (·.key) ↔
          key' = key ∨ key' ∈ r.batch.groups.map (·.key) := by
        intro key'
        rw [hkeys]
        split
        next hold =>
          constructor
          · exact .inr
          · rintro (rfl | hkey')
            · exact hold
            · exact hkey'
        next =>
          rw [List.mem_append, List.mem_singleton]
          exact or_comm
      refine ⟨h.portal, h.statement, ?_, ?_, ?_, nofun, fun _ => rfl⟩
      · show (groups.map (·.key)).Nodup
        rw [hkeys]
        split
        next => exact h.nodup
        next hnew =>
          rw [List.nodup_append]
          refine ⟨h.nodup, List.nodup_cons.2 ⟨List.not_mem_nil, List.nodup_nil⟩, ?_⟩
          rintro a ha b hb rfl
          rw [List.mem_singleton] at hb
          exact hnew (hb ▸ ha)
      · exact holds_fillGroup h.nodup h.holds h.known hfill
      · intro a ha
        apply (hmem a.1).2
        cases outcome with
        | error e => exact .inr (h.known a ha)
        | ok done =>
          change a ∈ r.accepted ++ [(key, row)] at ha
          rcases List.mem_append.1 ha with ha | ha
          · exact .inr (h.known a ha)
          · rw [List.mem_singleton.1 ha]
            exact .inl rfl

/-- Sealing stamps the groups in order; if it stops, the groups behind it are as
they were. -/
theorem inv_close (h : r.Inv p portal statement) : (r.step p .close).Inv p portal statement := by
  have hkeys := BatchBind.map_key_stampAll r.batch.groups
  have hmem := fun g' (hg : g' ∈ (BatchBind.stampAll r.batch.groups).1) =>
    BatchBind.mem_stampAll hg
  cases hstamp : BatchBind.stampAll r.batch.groups with
  | mk groups outcome =>
    rw [hstamp] at hkeys hmem
    have hholds : ∀ g ∈ groups, g.buffer.Holds p (rowsOf g.key r.accepted) := by
      intro g hg
      obtain ⟨g₀, hg₀, hkey, hbuffer, -⟩ := hmem g hg
      have hheld := h.holds g₀ hg₀
      rw [hkey] at hheld
      rcases hbuffer with rfl | hbuffer
      · exact hheld
      · exact (hheld.stamp hbuffer).2.1
    have hstamped : ∀ g₀ ∈ r.batch.groups, ∀ g : Group, g₀.key = g.key →
        g₀.buffer.stamp = .ok g.buffer →
        g.buffer.bytes = p.payload (rowsOf g.key r.accepted) ∧
          (p.blocks (rowsOf g.key r.accepted)).length < space Payload.dataLenWidth := by
      intro g₀ hg₀ g hkey hbuffer
      have hheld := h.holds g₀ hg₀
      rw [hkey] at hheld
      exact (hheld.stamp hbuffer).2.2
    have hnodup : (groups.map (·.key)).Nodup := by
      rw [hkeys]
      exact h.nodup
    have hknown : ∀ a ∈ r.accepted, a.1 ∈ groups.map (·.key) := by
      rw [hkeys]
      exact h.known
    cases outcome with
    | ok done =>
      simp only [step, BatchBind.close, hstamp]
      refine ⟨h.portal, h.statement, hnodup, hholds, hknown, ?_, ?_⟩
      · intro _ g hg hrows
        obtain ⟨g₀, hg₀, hkey, -, hdone⟩ := hmem g hg
        rcases hdone rfl with hempty | hbuffer
        · rw [hrows] at hempty
          cases hempty
        · exact hstamped g₀ hg₀ g hkey hbuffer
      · show (r.stale && false) = true → _
        rw [Bool.and_false]
        exact nofun
    | error e =>
      simp only [step, BatchBind.close, hstamp]
      refine ⟨h.portal, h.statement, hnodup, hholds, hknown, ?_, ?_⟩
      · intro hsealed g hg hrows
        obtain ⟨g₀, hg₀, hkey, hbuffer, -⟩ := hmem g hg
        rcases hbuffer with rfl | hbuffer
        · exact h.stamped hsealed g₀ hg₀ hrows
        · exact hstamped g₀ hg₀ g hkey hbuffer
      · show (r.stale && true) = true → _
        rw [Bool.and_true]
        exact h.stale

theorem inv_reset (h : r.Inv p portal statement) : (r.step p .reset).Inv p portal statement := by
  refine ⟨h.portal, h.statement, ?_, ?_, fun a ha => absurd ha List.not_mem_nil, nofun,
    fun _ => rfl⟩
  · show (r.batch.reset.groups.map (·.key)).Nodup
    rw [BatchBind.map_key_reset]
    exact h.nodup
  · intro g hg
    obtain ⟨g₀, -, rfl⟩ := List.mem_map.1 hg
    exact PayloadBuffer.holds_reset g₀.buffer p

theorem inv_step (h : r.Inv p portal statement) (op : BatchOp) :
    (r.step p op).Inv p portal statement := by
  cases op with
  | push row => exact inv_push h row
  | close => exact inv_close h
  | reset => exact inv_reset h
  | encode => exact h

theorem inv_run (h : r.Inv p portal statement) (ops : List BatchOp) :
    (r.run p ops).Inv p portal statement := by
  induction ops generalizing r with
  | nil => exact h
  | cons op ops ih => exact ih (inv_step h op)

end BatchRun
end SeriesWire
