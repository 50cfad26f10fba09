/-
Groups and primary tags.  A row finds its group by its key and nothing else is
compared.  `tags_apart` says when two payloads of a message can still carry the
same primary tag bytes, and `push_own_group` when a row is sure to join a group
that carries its own.
-/
import SeriesWire.Proofs.Message.Ledger

namespace SeriesWire

open Bytes

/-! ## One payload for each primary tag -/

namespace Ledger

variable {p : Packer} {l : Ledger}

theorem primaryTag_payload (p : Packer) {first : List CellValue} {rows : List (List CellValue)}
    (h : rows.head? = some first) :
    Payload.primaryTag p.layout.toShape (p.payload rows) = p.primaryTag first := by
  cases rows with
  | nil => cases h
  | cons row rest =>
    cases h
    exact Packer.primaryTag_laidOut (length_ofNatLE 4 _) p _ _ _

/-- Groups whose first rows have the same primary tag bytes differ in a value that
these do not keep. -/
theorem Sound.lostApart (h : l.Sound p) {key key' : String} {row row' : List CellValue}
    (hrow : (rowsOf key l.accepted).head? = some row)
    (hrow' : (rowsOf key' l.accepted).head? = some row') (hne : key ≠ key')
    (htag : p.primaryTag row = p.primaryTag row') :
    ∃ i ∈ p.layout.primaryTags,
      (row.getD i .null).LostApart (p.layout.column i).width (row'.getD i .null) := by
  have hkey := h.keyed _ (mem_rowsOf.1 (List.mem_of_head? hrow))
  have hkey' := h.keyed _ (mem_rowsOf.1 (List.mem_of_head? hrow'))
  have hadmits := h.admits key row hrow
  have hadmits' := h.admits key' row' hrow'
  apply Classical.byContradiction
  intro hnone
  refine hne ((GroupKey.ofRow_eq_iff hkey hkey').2 fun i hi => ?_)
  rcases CellValue.key_or_lostApart (hadmits i hi) (hadmits' i hi)
    ((p.primaryTag_eq_iff row row').1 htag i hi) with hsame | hlost
  · exact hsame
  · exact absurd ⟨i, hi, hlost⟩ hnone

theorem exists_head_of_filled {key : String} (h : key ∈ l.filled) :
    ∃ first, (rowsOf key l.accepted).head? = some first := by
  rw [filled, List.mem_filter, Bool.not_eq_true'] at h
  cases hrows : rowsOf key l.accepted with
  | nil =>
    rw [hrows] at h
    cases h.2
  | cons first rest => exact ⟨first, rfl⟩

theorem Sound.nodup_filled (h : l.Sound p) : l.filled.Nodup :=
  List.Nodup.sublist List.filter_sublist h.nodup

end Ledger

namespace BatchRun

variable {p : Packer} {portal statement : String} {r : BatchRun}

theorem sound_ledger (p : Packer) (portal statement : String) (ops : List BatchOp) :
    ((start portal statement).run p ops).ledger.Sound p := by
  rw [ledger_start]
  exact (Ledger.sound_empty p).run ops

/-- Different payloads of a message carry different primary tag bytes, but where
their first rows differ in a value that a slot does not keep. -/
theorem tags_apart (p : Packer) (portal statement : String) (ops : List BatchOp)
    {dst dst' : Bytes}
    (hsent : ((start portal statement).run p ops).batch.encode dst = .ok () dst') :
    ∃ f, dst'.take dst.length = dst ∧
      BatchBindFrame.decode (dst'.drop (dst.length + Frame.headLen)) = .ok f ∧
      (∀ kp ∈ f.payloads, ∀ v, PayloadView.parse p.layout kp.2 = .ok v →
        v.primaryTag = Payload.primaryTag p.layout.toShape kp.2) ∧
      f.payloads.Pairwise fun a b =>
        Payload.primaryTag p.layout.toShape a.2 = Payload.primaryTag p.layout.toShape b.2 →
          ∃ row row',
            (rowsOf a.1 ((start portal statement).run p ops).accepted).head? = some row ∧
            (rowsOf b.1 ((start portal statement).run p ops).accepted).head? = some row' ∧
            ∃ i ∈ p.layout.primaryTags,
              (row.getD i .null).LostApart (p.layout.column i).width (row'.getD i .null) := by
  have hinv := inv_run (inv_start p portal statement) ops
  have hsound := sound_ledger p portal statement ops
  generalize (start portal statement).run p ops = r at hinv hsound hsent
  obtain ⟨hkept, hdecode⟩ := decode_sent hinv hsent
  refine ⟨_, hkept, hdecode, fun kp _ v hv => PayloadView.primaryTag_of_parse hv, ?_⟩
  apply List.pairwise_map.2
  refine List.Pairwise.imp_of_mem ?_ hsound.nodup_filled
  intro key key' hkey hkey' hne htag
  obtain ⟨row, hrow⟩ := Ledger.exists_head_of_filled hkey
  obtain ⟨row', hrow'⟩ := Ledger.exists_head_of_filled hkey'
  rw [Ledger.primaryTag_payload p hrow, Ledger.primaryTag_payload p hrow'] at htag
  exact ⟨row, row', hrow, hrow', hsound.lostApart hrow hrow' hne htag⟩

def notePacker : Packer :=
  Packer.make
    ⟨{ fields := [⟨.int4, 4⟩], tags := [⟨.text, 4⟩], primaryTags := [1] }, by decide⟩ {} 16

/-- The second note is the first with a NUL behind it. -/
def paddedOps : List BatchOp :=
  [.push [.int 1, .bytes [100]], .push [.int 2, .bytes [100, 0]]]

def paddedRun : BatchRun := (start "" "").run notePacker (paddedOps ++ [.close])

theorem inv_paddedRun : paddedRun.Inv notePacker "" "" := by
  rw [paddedRun]
  exact inv_run (inv_start notePacker "" "") (paddedOps ++ [BatchOp.close])

theorem ledger_paddedRun :
    paddedRun.ledger =
      { keys := ["d", "d\\x00"]
        accepted := [("d", [.int 1, .bytes [100]]), ("d\\x00", [.int 2, .bytes [100, 0]])] } := by
  rw [paddedRun, ledger_start]
  decide +kernel

theorem sent_paddedRun : ∃ dst', paddedRun.batch.encode [] = .ok () dst' :=
  exists_sent notePacker "" "" paddedOps (by decide +kernel) (by decide +kernel)
    (by decide +kernel) []

theorem tags_apart_paddedRun :
    ∃ dst' f, paddedRun.batch.encode [] = .ok () dst' ∧
      BatchBindFrame.decode (dst'.drop Frame.headLen) = .ok f ∧
      f.payloads.Pairwise fun a b =>
        Payload.primaryTag notePacker.layout.toShape a.2 =
            Payload.primaryTag notePacker.layout.toShape b.2 →
          ∃ row row', (rowsOf a.1 paddedRun.accepted).head? = some row ∧
            (rowsOf b.1 paddedRun.accepted).head? = some row' ∧
            ∃ i ∈ notePacker.layout.primaryTags,
              (row.getD i .null).LostApart (notePacker.layout.column i).width
                (row'.getD i .null) := by
  obtain ⟨dst', hsent⟩ := sent_paddedRun
  rw [paddedRun] at hsent ⊢
  obtain ⟨f, -, hdecode, -, hpairs⟩ :=
    tags_apart notePacker "" "" (paddedOps ++ [BatchOp.close]) hsent
  rw [List.length_nil, Nat.zero_add] at hdecode
  exact ⟨dst', f, hsent, hdecode, hpairs⟩

/-- Notes that differ in a NUL at the end go out in two payloads with the same
primary tag bytes. -/
theorem one_tag_two_payloads :
    ∃ dst' f a b v v', paddedRun.batch.encode [] = .ok () dst' ∧
      BatchBindFrame.decode (dst'.drop Frame.headLen) = .ok f ∧ f.payloads = [a, b] ∧ a ≠ b ∧
      PayloadView.parse notePacker.layout a.2 = .ok v ∧
      PayloadView.parse notePacker.layout b.2 = .ok v' ∧ v.primaryTag = v'.primaryTag := by
  obtain ⟨dst', hsent⟩ := sent_paddedRun
  obtain ⟨-, hdecode⟩ := decode_sent inv_paddedRun hsent
  rw [ledger_paddedRun, List.length_nil, Nat.zero_add] at hdecode
  have hparse : ∀ row : List CellValue, (PayloadView.parse notePacker.layout
      (notePacker.payload [row])).isOk = true → ∃ v, PayloadView.parse notePacker.layout
        (notePacker.payload [row]) = .ok v ∧ v.primaryTag = notePacker.primaryTag row := by
    intro row hok
    obtain ⟨v, hv⟩ := Outcome.exists_of_isOk hok
    exact ⟨v, hv, (PayloadView.primaryTag_of_parse hv).trans (Ledger.primaryTag_payload _ rfl)⟩
  obtain ⟨v, hv, htag⟩ := hparse [.int 1, .bytes [100]] (by decide +kernel)
  obtain ⟨v', hv', htag'⟩ := hparse [.int 2, .bytes [100, 0]] (by decide +kernel)
  refine ⟨dst', _, ("d", notePacker.payload [[.int 1, .bytes [100]]]),
    ("d\\x00", notePacker.payload [[.int 2, .bytes [100, 0]]]), v, v', hsent, hdecode, ?_, ?_, hv,
    hv', ?_⟩
  · decide +kernel
  · decide +kernel
  · rw [htag, htag']
    decide +kernel

end BatchRun

/-! ## The group of a row -/

/-- A row under the key of a group has the group's primary tags. -/
theorem Ledger.Sound.same_tags {p : Packer} {l : Ledger} (h : l.Sound p) {key : String}
    {first row : List CellValue} (hfirst : (rowsOf key l.accepted).head? = some first)
    (hkey : GroupKey.ofRow p.layout.toShape row = .ok key)
    (hregular : ∀ i ∈ p.layout.primaryTags,
      (row.getD i .null).Regular (p.layout.column i).type) :
    p.Admits row ∧ p.primaryTag row = p.primaryTag first := by
  have hadmits := h.admits key first hfirst
  have hkey' := h.keyed _ (mem_rowsOf.1 (List.mem_of_head? hfirst))
  have hagrees : ∀ i ∈ p.layout.primaryTags,
      (row.getD i .null).Agrees (first.getD i .null) (p.layout.column i).type := by
    intro i hi
    exact GroupKey.agrees_of_key (hregular i hi).1 (hadmits i hi).suits
      ((GroupKey.ofRow_eq_iff hkey hkey').1 rfl i hi)
  refine ⟨fun i hi => ?_, ?_⟩
  · exact CellValue.storable_of_agrees (hadmits i hi) (hregular i hi) (hagrees i hi)
  · apply (p.primaryTag_eq_iff row first).2
    intro i hi
    rw [CellValue.octets_of_agrees (hagrees i hi)]

namespace BatchRun

/-- The group of an accepted row carries the row's own primary tag. -/
theorem Inv.tag_of_accepted {p : Packer} {portal statement : String} {r : BatchRun}
    (h : r.Inv p portal statement) (hsound : r.ledger.Sound p) {key : String}
    {row : List CellValue} (hrow : (key, row) ∈ r.accepted)
    (hregular : ∀ i ∈ p.layout.primaryTags,
      (row.getD i .null).Regular (p.layout.column i).type) :
    p.Admits row ∧ ∃ buffer, r.batch.payload? key = some buffer ∧
      Payload.primaryTag p.layout.toShape buffer.bytes = p.primaryTag row := by
  obtain ⟨buffer, hbuffer, hheld⟩ := h.holds_payload? (hsound.known _ hrow)
  have hne := List.ne_nil_of_mem (mem_rowsOf.2 hrow)
  cases hrows : rowsOf key r.accepted with
  | nil => exact absurd hrows hne
  | cons first rest =>
    -- The row may have opened the group itself, or joined one that holds its like.
    rw [hrows] at hheld
    have hfirst : (rowsOf key r.ledger.accepted).head? = some first := congrArg List.head? hrows
    obtain ⟨hadmits, htag⟩ := hsound.same_tags hfirst (hsound.keyed _ hrow) hregular
    exact ⟨hadmits, buffer, hbuffer, (PayloadBuffer.Headed.primaryTag hheld).trans htag.symm⟩

/-- A row whose primary tag values are of the kinds of their columns joins a group
whose header carries exactly these values, and whether it is rejected for one of
them does not depend on the rows before it. -/
theorem push_own_group (p : Packer) (portal statement : String) (ops : List BatchOp)
    {row : List CellValue}
    (hregular : ∀ i ∈ p.layout.primaryTags,
      (row.getD i .null).Regular (p.layout.column i).type) :
    (∀ b, ((start portal statement).run p ops).batch.push p row = (b, .ok ()) →
      ∃ key buffer, GroupKey.ofRow p.layout.toShape row = .ok key ∧
        b.payload? key = some buffer ∧
        (∀ i ∈ p.layout.primaryTags,
          ((row.getD i .null).tagCell (p.layout.column i)).outcome.isOk = true) ∧
        Payload.primaryTag p.layout.toShape buffer.bytes = p.layout.primaryTags.flatMap fun i =>
          ((row.getD i .null).tagCell (p.layout.column i)).dest) ∧
      (p.Arity row →
        (p.BlamesPrimary (((start portal statement).run p ops).batch.push p row).2 ↔
          ∃ i ∈ p.layout.primaryTags,
            ((row.getD i .null).tagCell (p.layout.column i)).outcome.isOk = false)) := by
  have hinv := inv_run (inv_start p portal statement) ops
  have hsound := sound_ledger p portal statement ops
  generalize (start portal statement).run p ops = r at hinv hsound
  have hsuits := fun i hi => (hregular i hi).1
  obtain ⟨key, hkey⟩ := GroupKey.exists_ofRow hsuits
  constructor
  · intro b hpush
    have hstep : r.step p (.push row) = ⟨b, r.accepted ++ [(key, row)], true⟩ := by
      simp only [step, hkey, hpush]
      rfl
    have hinv' := inv_step hinv (.push row)
    have hsound' := hsound.step (.push row)
    rw [← ledger_step hinv] at hsound'
    rw [hstep] at hinv' hsound'
    obtain ⟨hadmits, buffer, hbuffer, htag⟩ := hinv'.tag_of_accepted hsound'
      (List.mem_append_right _ (List.mem_singleton.2 rfl)) hregular
    exact ⟨key, buffer, hkey, hbuffer, fun i hi => (CellValue.tagCell_of_storable (hadmits i hi)).1,
      htag.trans (Packer.primaryTag_eq_tagCells hadmits)⟩
  · intro ha
    rw [outcome_push hinv, Ledger.push, hkey, ← Packer.not_admits_iff hsuits]
    show p.BlamesPrimary (p.verdict (rowsOf key r.accepted).length row) ↔ _
    rw [Packer.blames_verdict_iff ha]
    cases hrows : rowsOf key r.accepted with
    | nil => exact ⟨fun h => h.2, fun h => ⟨rfl, h⟩⟩
    | cons first rest =>
      have hadmits := (hsound.same_tags
        (show (rowsOf key r.accepted).head? = some first by rw [hrows]; rfl) hkey hregular).1
      exact ⟨fun h => h.2, fun h => absurd hadmits h⟩

theorem push_own_group_note :
    ∃ b key buffer, paddedRun.batch.push notePacker [.int 3, .bytes [100]] = (b, .ok ()) ∧
      GroupKey.ofRow notePacker.layout.toShape [.int 3, .bytes [100]] = .ok key ∧
      b.payload? key = some buffer ∧
      Payload.primaryTag notePacker.layout.toShape buffer.bytes = [100, 0, 0, 0] := by
  have hregular : ∀ i ∈ notePacker.layout.primaryTags,
      (([.int 3, .bytes [100]] : List CellValue).getD i .null).Regular
        (notePacker.layout.column i).type := by
    intro i hi
    cases List.mem_singleton.1 hi
    exact ⟨⟨[100], rfl⟩, nofun⟩
  have hout : (paddedRun.batch.push notePacker [.int 3, .bytes [100]]).2 = .ok () := by
    rw [outcome_push inv_paddedRun, ledger_paddedRun]
    rfl
  cases hpush : paddedRun.batch.push notePacker [.int 3, .bytes [100]] with
  | mk b outcome =>
    rw [hpush] at hout
    cases hout
    obtain ⟨key, buffer, hkey, hbuffer, -, htag⟩ :=
      (push_own_group notePacker "" "" (paddedOps ++ [BatchOp.close]) hregular).1 b hpush
    refine ⟨b, key, buffer, rfl, hkey, hbuffer, ?_⟩
    rw [htag]
    decide +kernel

def clockPacker : Packer :=
  Packer.make
    ⟨{ fields := [⟨.int4, 4⟩], tags := [⟨.timestamp, 8⟩], primaryTags := [1] }, by decide⟩ {} 16

/-- An integer has no place in a column of instants, but joins the group of the
instant that is spelt like it. -/
theorem stray_push :
    (((start "" "").run clockPacker [.push [.int 1, .timestamp 5]]).batch.push clockPacker
        [.int 2, .int 5]).2 = .ok () ∧
      ((start "" "").batch.push clockPacker [.int 2, .int 5]).2 =
        .error (.cell 0 1 (CellValue.mismatch (.int 5) ColumnType.timestamp.oid)) ∧
      ((CellValue.int 5).tagCell (clockPacker.layout.column 1)).outcome.isOk = false := by
  have hstart := inv_start clockPacker "" ""
  refine ⟨?_, ?_, by decide +kernel⟩
  · rw [outcome_push (inv_run hstart _), ledger_start]
    rfl
  · rw [outcome_push hstart]
    rfl

end BatchRun
end SeriesWire
