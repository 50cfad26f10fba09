/-
What a decoded cell shows of the value it was written from.  `CellValue.shown`
says it for every value and every type, and `decodeCell_result` that writing a
cell, filling it up to its width and decoding it comes to the same.
-/
import SeriesWire.Cell.Decode
import SeriesWire.Cell.Result
import SeriesWire.Proofs.Cell.Octets

namespace SeriesWire

open Bytes

/-- Cells of `len` bytes are too narrow for the type named by `oid`. -/
def Narrow (oid : UInt32) (len : Nat) : Prop :=
  ∃ t width, ColumnType.ofOid? oid = some t ∧ t.fixedWidth? = some width ∧ len < width

theorem narrow_iff {oid : UInt32} {len : Nat} :
    Narrow oid len ↔
      ((ColumnType.ofOid? oid).bind ColumnType.fixedWidth?).any (fun width => len < width) := by
  constructor
  · rintro ⟨t, width, ht, hw, hlt⟩
    rw [ht, Option.bind_some, hw]
    exact decide_eq_true hlt
  · intro h
    obtain ⟨width, hbind, hlt⟩ := (Option.any_eq_true _ _).1 h
    obtain ⟨t, ht, hw⟩ := Option.bind_eq_some_iff.1 hbind
    exact ⟨t, width, ht, hw, of_decide_eq_true hlt⟩

instance (oid : UInt32) (len : Nat) : Decidable (Narrow oid len) :=
  decidable_of_iff _ narrow_iff.symm

theorem exists_decodeCell {oid : UInt32} {raw : Bytes} (h : ¬Narrow oid raw.length) :
    ∃ cell, decodeCell oid raw = .ok cell := by
  unfold decodeCell CellSpan.decode
  split
  · exact ⟨_, rfl⟩
  next t ht =>
    split
    next width hw =>
      by_cases hlt : raw.length < width
      · exact absurd ⟨t, width, ht, hw, hlt⟩ h
      · rw [if_neg hlt]
        exact ⟨_, rfl⟩
    next => exact ⟨_, rfl⟩

theorem decodeCell_of_narrow {oid : UInt32} {raw : Bytes} (h : Narrow oid raw.length) :
    ∃ cause, decodeCell oid raw = .error (.malformed cause) := by
  obtain ⟨t, width, ht, hw, hlt⟩ := h
  refine ⟨.batch (.shortCell t raw.length width), ?_⟩
  simp only [decodeCell, CellSpan.decode, ht, hw]
  rw [if_pos hlt]
  rfl

/-- What a cell `width` bytes wide shows of `v`.  A number is shown as its bytes,
a text up to its first NUL, and a missing value as zeros or as no text; of a type
unknown here the whole cell is shown in hexadecimal. -/
def CellValue.shown (v : CellValue) (oid : UInt32) (width : Nat) : Bytes :=
  match ColumnType.ofOid? oid, v with
  | none, .bytes raw => (Hex.ofBytes (fit width raw)).map fun c => UInt8.ofNat c.toNat
  | none, _ => (Hex.ofBytes (zeros width)).map fun c => UInt8.ofNat c.toNat
  | some t, .null => zeros (t.fixedWidth?.getD 0)
  | some _, .bytes text => beforeNul text
  | some t, v => v.octets t

/-! ## Reading -/

section Reading

variable {oid : UInt32} {t : ColumnType} {natural width : Nat} {raw : Bytes}

theorem decodeCell_unknown (ht : ColumnType.ofOid? oid = none) :
    decodeCell oid raw = .ok ((Hex.ofBytes raw).map fun c => UInt8.ofNat c.toNat) := by
  simp only [decodeCell, CellSpan.decode, ht]
  rfl

theorem decodeCell_fixed (ht : ColumnType.ofOid? oid = some t) (hw : t.fixedWidth? = some natural)
    (h : natural ≤ raw.length) : decodeCell oid raw = .ok (raw.take natural) := by
  simp only [decodeCell, CellSpan.decode, ht, hw]
  rw [if_neg (by omega)]
  show Except.ok (raw.slice 0 (natural - 0)) = _
  rw [Nat.sub_zero, slice_zero]

theorem decodeCell_character (ht : ColumnType.ofOid? oid = some t) (hw : t.fixedWidth? = none) :
    decodeCell oid raw = .ok ((CellSpan.ofText raw).resolve raw) := by
  simp only [decodeCell, CellSpan.decode, ht, hw]
  rfl

theorem resolve_ofText_short (h : raw.length < textHeaderLen) :
    (CellSpan.ofText raw).resolve raw = [] := by
  rw [CellSpan.ofText, if_pos h]
  rfl

theorem take_length_beforeNul (bs : Bytes) (n : Nat) :
    bs.take (beforeNul (bs.take n)).length = beforeNul (bs.take n) := by
  have hprefix : beforeNul (bs.take n) <+: bs :=
    (List.takeWhile_prefix _).trans (List.take_prefix n bs)
  exact (List.prefix_iff_eq_take.1 hprefix).symm

theorem resolve_ofText (h : textHeaderLen ≤ raw.length) :
    (CellSpan.ofText raw).resolve raw =
      beforeNul ((raw.drop textHeaderLen).take
        (if 0 < (raw.slice 0 textHeaderLen).toNatLE then
          min (raw.drop textHeaderLen).length (raw.slice 0 textHeaderLen).toNatLE
        else (raw.drop textHeaderLen).length)) := by
  rw [CellSpan.ofText, if_neg (by omega)]
  show raw.slice textHeaderLen (textHeaderLen + _ - textHeaderLen) = _
  rw [Nat.add_sub_cancel_left, slice]
  exact take_length_beforeNul _ _

/-- A cell that was left zero shows as many zeros as its type is wide, or no
text. -/
theorem decodeCell_zeros (ht : ColumnType.ofOid? oid = some t) (hwide : ¬Narrow oid width) :
    decodeCell oid (zeros width) = .ok (zeros (t.fixedWidth?.getD 0)) := by
  cases hw : t.fixedWidth? with
  | some natural =>
    have hle : natural ≤ width := by
      by_cases hlt : width < natural
      · exact absurd ⟨t, natural, ht, hw, hlt⟩ hwide
      · omega
    rw [decodeCell_fixed ht hw (by rwa [length_zeros]), zeros, List.take_replicate,
      Nat.min_eq_left hle]
    rfl
  | none =>
    rw [decodeCell_character ht hw]
    by_cases hshort : (zeros width).length < textHeaderLen
    · rw [resolve_ofText_short hshort]
      rfl
    · rw [resolve_ofText (by omega), zeros, List.drop_replicate, List.take_replicate]
      exact congrArg _ (beforeNul_append_zeros [] _)

theorem decodeCell_number (ht : ColumnType.ofOid? oid = some t)
    (hw : t.fixedWidth? = some raw.length) (h : raw.length ≤ width) :
    decodeCell oid (fit width raw) = .ok raw := by
  rw [decodeCell_fixed ht hw (by rwa [length_fit]), take_fit (Nat.le_refl _) h, List.take_length]

/-- A text is read as far as its own terminator, whatever comes behind it. -/
theorem decodeCell_textEntry {text : Bytes} (ht : ColumnType.ofOid? oid = some t)
    (hw : t.fixedWidth? = none) (hfits : fitsTextHeader text = true) (extra : Bytes) :
    decodeCell oid (textEntry text ++ extra) = .ok (beforeNul text) := by
  have hlen : textHeaderLen ≤ (textEntry text ++ extra).length := by
    rw [List.length_append, length_textEntry, textHeaderLen]
    omega
  have hdeclared : ((textEntry text ++ extra).slice 0 textHeaderLen).toNatLE = text.length + 1 := by
    rw [slice_zero, textEntry, List.append_assoc, List.append_assoc,
      List.take_left' (length_ofNatLE _ _), toNatLE_ofNatLE_of_lt (fitsTextHeader_iff.1 hfits)]
  have hbody : (textEntry text ++ extra).drop textHeaderLen = text ++ [0] ++ extra := by
    rw [textEntry, List.append_assoc, List.append_assoc, List.drop_left' (length_ofNatLE _ _),
      List.append_assoc]
  have hbound : min (text ++ [0] ++ extra).length (text.length + 1) = (text ++ [0]).length := by
    simp only [List.length_append, List.length_singleton]
    omega
  rw [decodeCell_character ht hw, resolve_ofText hlen, hdeclared, hbody, if_pos (Nat.succ_pos _),
    hbound, List.take_left, beforeNul_append_zero]

theorem decodeCell_text {text : Bytes} (ht : ColumnType.ofOid? oid = some t)
    (hw : t.fixedWidth? = none) (hfits : fitsTextHeader text = true)
    (hroom : textHeaderLen + text.length + 1 ≤ width) :
    decodeCell oid (fit width (textEntry text)) = .ok (beforeNul text) := by
  have hlen : (textEntry text).length ≤ width := by
    rw [length_textEntry]
    exact Nat.le_trans (by rw [textHeaderLen]; omega) hroom
  rw [fit_eq_append hlen]
  exact decodeCell_textEntry ht hw hfits _

end Reading

/-! ## Writing -/

namespace CellValue

variable {oid : UInt32} {width : Nat} {content : Bytes}

theorem within_ok {target : String} {raw : Bytes} (h : within width target raw = .ok content) :
    content = raw ∧ raw.length ≤ width := by
  rw [within] at h
  split at h
  · cases h
  · exact ⟨(Except.ok.inj h).symm, by omega⟩

theorem resultInt_ok {t : ColumnType} {size : Nat} {n : Int64}
    (h : resultInt t size width n = .ok content) :
    content = ofIntLE size n.toInt ∧ size ≤ width := by
  rw [resultInt] at h
  split at h
  · obtain ⟨rfl, hle⟩ := within_ok h
    exact ⟨rfl, by rwa [length_ofIntLE] at hle⟩
  · cases h

theorem resultText_ok {t : ColumnType} {text : Bytes} (h : resultText t width text = .ok content) :
    content = textEntry text ∧ fitsTextHeader text = true ∧
      textHeaderLen + text.length + 1 ≤ width := by
  simp only [resultText] at h
  split at h
  next => cases h
  next hroom =>
    split at h
    next hfits => exact ⟨(Except.ok.inj h).symm, hfits, by omega⟩
    next => cases h

theorem result_number {v : CellValue} {t : ColumnType} (ht : ColumnType.ofOid? oid = some t)
    (hv : v.isNull = false) (hbytes : ∀ text, v ≠ .bytes text)
    (h : v.result oid width = .ok content) :
    content = v.octets t ∧ t.fixedWidth? = some (v.octets t).length ∧
      (v.octets t).length ≤ width := by
  cases v with
  | null => cases hv
  | bytes text => exact absurd rfl (hbytes text)
  | int n =>
    cases t <;> simp only [result, ht] at h <;> try cases h
    all_goals
      obtain ⟨rfl, hle⟩ := resultInt_ok h
      exact ⟨rfl, by simp [octets, ColumnType.fixedWidth?],
        by simpa [octets, ColumnType.fixedWidth?] using hle⟩
  | float x =>
    cases t <;> simp only [result, ht] at h <;> try cases h
    all_goals
      obtain ⟨rfl, hle⟩ := within_ok h
      exact ⟨rfl, by simp [octets, ColumnType.fixedWidth?], hle⟩
  | timestamp micros =>
    cases t <;> simp only [result, ht] at h <;> try cases h
    all_goals
      obtain ⟨rfl, hle⟩ := within_ok h
      rw [Epoch.toInt_toUnixMillis] at hle ⊢
      exact ⟨rfl, by simp [octets, ColumnType.fixedWidth?], hle⟩

theorem result_bytes {t : ColumnType} {text : Bytes} (ht : ColumnType.ofOid? oid = some t)
    (h : (bytes text).result oid width = .ok content) :
    t.fixedWidth? = none ∧ content = textEntry text ∧ fitsTextHeader text = true ∧
      textHeaderLen + text.length + 1 ≤ width := by
  cases t <;> simp only [result, ht] at h <;> try cases h
  all_goals exact ⟨rfl, resultText_ok h⟩

theorem result_unknown {v : CellValue} (ht : ColumnType.ofOid? oid = none)
    (h : v.result oid width = .ok content) :
    v = .null ∧ content = [] ∨ v = .bytes content ∧ content.length ≤ width := by
  cases v with
  | null => exact .inl ⟨rfl, (Except.ok.inj h).symm⟩
  | bytes raw =>
    simp only [result, ht] at h
    obtain ⟨rfl, hle⟩ := within_ok h
    exact .inr ⟨rfl, hle⟩
  | _ =>
    simp only [result, ht] at h
    cases h

/-- A cell that was written and filled up to its width shows its value. -/
theorem decodeCell_result {v : CellValue} (hwide : ¬Narrow oid width)
    (h : v.result oid width = .ok content) :
    decodeCell oid (fit width content) = .ok (v.shown oid width) := by
  cases ht : ColumnType.ofOid? oid with
  | none =>
    rw [decodeCell_unknown ht]
    rcases result_unknown ht h with ⟨rfl, rfl⟩ | ⟨rfl, -⟩
    · simp only [shown, ht, fit_nil]
    · simp only [shown, ht]
  | some t =>
    cases v with
    | null =>
      cases h
      rw [fit_nil, decodeCell_zeros ht hwide]
      simp only [shown, ht]
    | bytes text =>
      obtain ⟨hw, rfl, hfits, hroom⟩ := result_bytes ht h
      rw [decodeCell_text ht hw hfits hroom]
      simp only [shown, ht]
    | int _ | float _ | timestamp _ =>
      obtain ⟨rfl, hw, hle⟩ := result_number ht rfl (fun _ hb => CellValue.noConfusion hb) h
      rw [decodeCell_number ht hw hle]
      simp only [shown, ht]

end CellValue
end SeriesWire
