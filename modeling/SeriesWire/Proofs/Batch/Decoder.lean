/-
Decoding any body.  `RowGrid.decode_body` says, for arbitrary bytes, when a plain
batch is decoded, what the grid shows, and otherwise which check fails: first the
shape of the body, then the blocks of the columns, then the widths of the cells.
-/
import SeriesWire.Proofs.Batch.Grid
import SeriesWire.Proofs.Message.RowBatch

namespace SeriesWire

open Bytes

namespace BatchBody

/-- The body is a plain batch of as many columns as there are `oids`. -/
structure Readable (oids : List UInt32) (body : Bytes) : Prop where
  shaped : Shaped body
  tag : tag body = 2
  oids : oids.length = colNum body

def Inside (body : Bytes) : Prop :=
  ∀ c < colNum body, offset body c < (payload body).length ∧
    offset body c + rowNum body * width body c ≤ (payload body).length

def NarrowAt (oids : List UInt32) (body : Bytes) (c : Nat) : Prop :=
  Narrow (oids.getD c 0) (width body c)

variable {body : Bytes} {oids : List UInt32} {compression : Compression}

theorem ofTag_eq_plain {n : Int} : Compression.ofTag n = .ok .plain ↔ n = 2 := by
  constructor
  · intro h
    unfold Compression.ofTag at h
    split at h
    next c hc =>
      cases h
      have htag := List.find?_some hc
      rw [beq_iff_eq] at htag
      exact htag.symm
    next => cases h
  · rintro rfl
    rfl

theorem exists_ofTag {n : Int} (h : ∃ c, Compression.ofTag n = .ok c) : n = 2 ∨ n = 3 ∨ n = 4 := by
  obtain ⟨c, hc⟩ := h
  unfold Compression.ofTag at hc
  split at hc
  next c' hc' =>
    have htag := List.find?_some hc'
    rw [beq_iff_eq] at htag
    subst htag
    cases c' with
    | plain => exact .inl rfl
    | block codec => cases codec <;> simp [Compression.tag]
  next => cases hc

theorem rowNum_batch (h : Shaped body) : (batch body compression).rowNum.toNat = rowNum body :=
  toNat_ofNat_slice (Nat.le_trans (by decide) h.counts)

theorem colNum_batch (h : Shaped body) : (batch body compression).colNum.toNat = colNum body :=
  toNat_colNum h.counts

theorem length_columns_batch (h : Shaped body) :
    (batch body compression).columns.length = (batch body compression).colNum.toNat := by
  rw [colNum_batch h, batch, List.length_map, List.length_range]

theorem column_batch (h : Shaped body) {c : Nat} (hc : c < colNum body) :
    ((batch body compression).columns.getD c default).storageLen.toNat = width body c ∧
      ((batch body compression).columns.getD c default).offset.toNat = offset body c := by
  have hroom : column c + 8 ≤ body.length := by
    have := h.metadata
    simp only [column] at this ⊢
    omega
  have hlen : c < (batch body compression).columns.length := by
    rwa [length_columns_batch h, colNum_batch h]
  rw [List.getD_eq_getElem _ _ hlen]
  simp only [batch, List.getElem_map, List.getElem_range]
  exact ⟨toNat_ofNat_slice (by omega), toNat_ofNat_slice (by omega)⟩

theorem inside_batch (h : Shaped body) :
    (∀ c ∈ (batch body compression).columns,
      c.Inside (batch body compression).rowNum.toNat (payload body)) ↔ Inside body := by
  have hlen := @length_columns_batch body compression h
  rw [colNum_batch h] at hlen
  rw [rowNum_batch h]
  constructor
  · intro hall c hc
    obtain ⟨hwidth, hoffset⟩ := @column_batch body compression h _ hc
    rw [← hwidth, ← hoffset]
    apply hall
    rw [List.getD_eq_getElem _ _ (by omega)]
    exact List.getElem_mem _
  · intro hall x hx
    obtain ⟨c, hc, rfl⟩ := List.getElem_of_mem hx
    obtain ⟨hwidth, hoffset⟩ := @column_batch body compression h _ (hlen ▸ hc)
    rw [List.getD_eq_getElem _ _ hc] at hwidth hoffset
    rw [ColumnBlock.Inside, hwidth, hoffset]
    exact hall c (hlen ▸ hc)

/-- Why a body is refused: first its shape is checked, then the blocks of its
columns, then the width of its cells. -/
structure Refused (oids : List UInt32) (body : Bytes) (e : WireError) : Prop where
  shape : ¬Readable oids body → ∃ cause, e = .malformed cause
  block : Readable oids body → ¬Inside body →
    (∃ cause, e = .bounds cause) ∧ e.isRecoverable = false
  width : Readable oids body → Inside body → ∃ c cause, c < colNum body ∧
    NarrowAt oids body c ∧ (∀ c' < c, ¬NarrowAt oids body c') ∧ e = .cell 0 c (.malformed cause)

theorem decode_of_not_readable (hplain : ¬(Shaped body ∧ (tag body = 3 ∨ tag body = 4)))
    (h : ¬Readable oids body) :
    ∃ cause, RowGrid.decode oids body = .error (.malformed cause) := by
  by_cases hshaped : Shaped body ∧ ∃ c, Compression.ofTag (tag body) = .ok c
  · obtain ⟨hshaped, htag⟩ := hshaped
    have htwo : tag body = 2 := by
      rcases exists_ofTag htag with htag | htag
      · exact htag
      · exact absurd ⟨hshaped, htag⟩ hplain
    have hoids : oids.length ≠ (batch body .plain).colNum.toNat := by
      intro hoids
      rw [colNum_batch hshaped] at hoids
      exact h ⟨hshaped, htwo, hoids⟩
    refine ⟨.batch (.registered oids.length (batch body .plain).colNum.toNat), ?_⟩
    rw [RowGrid.decode, decode_shaped hshaped (ofTag_eq_plain.2 htwo), Outcome.ok_bind,
      RowBatch.grid, if_pos hoids]
    rfl
  · obtain ⟨cause, hcause⟩ := decode_of_not_shaped hshaped
    refine ⟨cause, ?_⟩
    rw [RowGrid.decode, hcause]
    rfl

theorem decode_readable (h : Readable oids body) :
    RowGrid.decode oids body = (batch body .plain).grid oids := by
  rw [RowGrid.decode, decode_shaped h.shaped (ofTag_eq_plain.2 h.tag)]
  rfl

theorem Readable.length_oids (h : Readable oids body) :
    oids.length = (batch body compression).colNum.toNat := by
  rw [colNum_batch h.shaped, h.oids]

theorem narrow_batch (h : Shaped body) {c : Nat} (hc : c < colNum body) :
    Narrow (oids.getD c 0) ((batch body compression).columns.getD c default).storageLen.toNat ↔
      NarrowAt oids body c := by
  rw [(column_batch h hc).1]
  rfl

theorem decode_wide (h : Readable oids body) (hinside : Inside body)
    (hwide : ∀ c < colNum body, ¬NarrowAt oids body c) :
    ∃ g, RowGrid.decode oids body = .ok g ∧
      g.Shows oids (rowNum body) (colNum body) (rawCell body) := by
  obtain ⟨g, hg, hshows⟩ := RowBatch.grid_ok (b := batch body .plain) rfl h.length_oids
    (length_columns_batch h.shaped) ((inside_batch h.shaped).2 hinside) (fun c hc => by
      rw [colNum_batch h.shaped] at hc
      rw [narrow_batch h.shaped hc]
      exact hwide c hc)
  rw [rowNum_batch h.shaped, colNum_batch h.shaped] at hshows
  refine ⟨g, by rw [decode_readable h, hg], hshows.rows, hshows.cols, ?_, hshows.outside⟩
  intro r c hr hc
  obtain ⟨hwidth, hoffset⟩ := column_batch h.shaped hc
  have hcell := hshows.inside r c hr hc
  rw [ColumnBlock.rawCell, hwidth, hoffset] at hcell
  exact hcell

theorem decode_outside (h : Readable oids body) (houtside : ¬Inside body) :
    ∃ cause, RowGrid.decode oids body = .error (.bounds cause) := by
  rw [decode_readable h]
  apply RowBatch.grid_outside rfl h.length_oids
  intro hinside
  exact houtside ((inside_batch h.shaped).1 hinside)

theorem decode_narrow (h : Readable oids body) (hinside : Inside body)
    (hnarrow : ∃ c < colNum body, NarrowAt oids body c) :
    ∃ c cause, c < colNum body ∧ NarrowAt oids body c ∧
      (∀ c' < c, ¬NarrowAt oids body c') ∧
      RowGrid.decode oids body = .error (.cell 0 c (.malformed cause)) := by
  have hrows : 0 < (batch body .plain).rowNum.toNat := by
    have := h.shaped.rowNum
    rw [rowNum_batch h.shaped]
    omega
  obtain ⟨c, cause, hc, hfound, hfirst, herror⟩ := RowBatch.grid_narrow (b := batch body .plain)
    rfl h.length_oids (length_columns_batch h.shaped) hrows ((inside_batch h.shaped).2 hinside) (by
      obtain ⟨c, hc, hnarrow⟩ := hnarrow
      exact ⟨c, by rwa [colNum_batch h.shaped], (narrow_batch h.shaped hc).2 hnarrow⟩)
  rw [colNum_batch h.shaped] at hc
  refine ⟨c, cause, hc, (narrow_batch h.shaped hc).1 hfound, ?_, by rw [decode_readable h, herror]⟩
  intro c' hlt hnarrow
  exact hfirst c' hlt ((narrow_batch h.shaped (by omega)).2 hnarrow)

end BatchBody

/-- What becomes of a body that does not announce a compressed payload.  It is
decoded exactly if all three checks hold; the grid then shows the cells of the
payload, and otherwise the first check that fails is the one reported. -/
theorem RowGrid.decode_body {oids : List UInt32} {body : Bytes}
    (hplain : ¬(BatchBody.Shaped body ∧ (BatchBody.tag body = 3 ∨ BatchBody.tag body = 4))) :
    ((∃ g, RowGrid.decode oids body = .ok g) ↔ BatchBody.Readable oids body ∧
      BatchBody.Inside body ∧ ∀ c < BatchBody.colNum body, ¬BatchBody.NarrowAt oids body c) ∧
    (∀ g, RowGrid.decode oids body = .ok g →
      g.Shows oids (BatchBody.rowNum body) (BatchBody.colNum body) (BatchBody.rawCell body)) ∧
    (∀ e, RowGrid.decode oids body = .error e → BatchBody.Refused oids body e) := by
  by_cases hreadable : BatchBody.Readable oids body
  · by_cases hinside : BatchBody.Inside body
    · by_cases hwide : ∀ c < BatchBody.colNum body, ¬BatchBody.NarrowAt oids body c
      · obtain ⟨g, hg, hshows⟩ := BatchBody.decode_wide hreadable hinside hwide
        rw [hg]
        refine ⟨⟨fun _ => ⟨hreadable, hinside, hwide⟩, fun _ => ⟨g, rfl⟩⟩, ?_, nofun⟩
        intro g' hg'
        cases hg'
        exact hshows
      · have hnarrow : ∃ c < BatchBody.colNum body, BatchBody.NarrowAt oids body c := by
          simpa only [not_forall, not_not, exists_prop] using hwide
        obtain ⟨c, cause, hc, hfound, hfirst, herror⟩ :=
          BatchBody.decode_narrow hreadable hinside hnarrow
        rw [herror]
        refine ⟨⟨nofun, fun h => absurd h.2.2 hwide⟩, nofun, ?_⟩
        intro e he
        cases he
        exact ⟨fun h => absurd hreadable h, fun _ h => absurd hinside h,
          fun _ _ => ⟨c, cause, hc, hfound, hfirst, rfl⟩⟩
    · obtain ⟨cause, hcause⟩ := BatchBody.decode_outside hreadable hinside
      rw [hcause]
      refine ⟨⟨nofun, fun h => absurd h.2.1 hinside⟩, nofun, ?_⟩
      intro e he
      cases he
      exact ⟨fun h => absurd hreadable h, fun _ _ => ⟨⟨cause, rfl⟩, rfl⟩,
        fun _ h => absurd h hinside⟩
  · obtain ⟨cause, hcause⟩ := BatchBody.decode_of_not_readable hplain hreadable
    rw [hcause]
    refine ⟨⟨nofun, fun h => absurd h.1 hreadable⟩, nofun, ?_⟩
    intro e he
    cases he
    exact ⟨fun _ => ⟨cause, rfl⟩, fun h => absurd h hreadable, fun h => absurd h hreadable⟩

/-- Two rows of an `int4` and an `int2`; the block of the first column starts in
the middle of the second one's. -/
def BatchBody.crossed : Bytes :=
  [0, 0, 0, 2, 0, 2, 0, 0, 0, 6,
    0, 0, 0, 4, 0, 0, 0, 2, 0, 0, 0, 2, 0, 0, 0, 0,
    0, 0, 0, 2, 0, 2,
    1, 0, 2, 0, 0, 0, 3, 0, 0, 0]

theorem RowGrid.decode_crossed :
    ¬(BatchBody.Shaped BatchBody.crossed ∧
      (BatchBody.tag BatchBody.crossed = 3 ∨ BatchBody.tag BatchBody.crossed = 4)) ∧
    ∃ g, RowGrid.decode [23, 21] BatchBody.crossed = .ok g ∧
      g.Shows [23, 21] 2 2 (BatchBody.rawCell BatchBody.crossed) := by
  have hplain : ¬(BatchBody.Shaped BatchBody.crossed ∧
      (BatchBody.tag BatchBody.crossed = 3 ∨ BatchBody.tag BatchBody.crossed = 4)) := by
    rintro ⟨-, htag⟩
    revert htag
    decide
  have hreadable : BatchBody.Readable [23, 21] BatchBody.crossed :=
    ⟨⟨by decide, by decide, by decide, by decide, by decide⟩, by decide, by decide⟩
  have hinside : BatchBody.Inside BatchBody.crossed := by
    show ∀ c < 2, _
    decide
  have hwide : ∀ c < 2, ¬BatchBody.NarrowAt [23, 21] BatchBody.crossed c := by
    show ∀ c < 2, ¬Narrow _ _
    decide
  obtain ⟨hdecoded, hshows, -⟩ := RowGrid.decode_body hplain
  obtain ⟨g, hg⟩ := hdecoded.2 ⟨hreadable, hinside, hwide⟩
  exact ⟨hplain, g, hg, hshows g hg⟩

end SeriesWire
