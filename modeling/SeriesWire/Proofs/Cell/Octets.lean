/-
What a stored cell holds.  `CellValue.octets` says once which bytes a value
stands for; `store_ok` says that a value which can be stored leaves exactly
these, inline or in an entry, and nothing else.
-/
import SeriesWire.Cell.Store
import SeriesWire.Proofs.Slices

namespace SeriesWire

open Bytes

/-- Every database time has its Unix milliseconds. -/
theorem Epoch.toInt_toUnixMillis (micros : Int64) :
    (toUnixMillis micros).toInt = micros.toInt / 1000 + unixMillis := by
  have hlow := micros.le_toInt
  have hhigh := micros.toInt_lt
  rw [toUnixMillis, Int64.toInt_ofInt]
  have hsize : (Int64.size : Int) = 18446744073709551616 := rfl
  rw [unixMillis]
  exact Int.bmod_eq_of_le_mul_two (by omega) (by omega)

/-! ## Texts -/

theorem fitsTextHeader_iff {text : Bytes} :
    fitsTextHeader text = true ↔ text.length + 1 < space textHeaderLen := by
  rw [fitsTextHeader, decide_eq_true_iff]

theorem length_textEntry (text : Bytes) : (textEntry text).length = text.length + 3 := by
  rw [textEntry, List.length_append, List.length_append, length_ofNatLE]
  show 2 + text.length + 1 = _
  omega

namespace CellValue

/-- The bytes a value stands for in a column of type `t`: numbers little endian
at their natural width, instants as Unix milliseconds, texts as they are. -/
def octets (v : CellValue) (t : ColumnType) : Bytes :=
  match v with
  | .null => []
  | .int n =>
    match t with
    | .float4 => ofNatLE 4 (Binary64.ofInt n.toInt).narrow.bits.toNat
    | .float8 => ofNatLE 8 (Binary64.ofInt n.toInt).bits.toNat
    | t => ofIntLE (t.fixedWidth?.getD 8) n.toInt
  | .float x =>
    match t with
    | .float4 => ofNatLE 4 x.narrow.bits.toNat
    | _ => ofNatLE 8 x.bits.toNat
  | .timestamp micros => ofIntLE 8 (micros.toInt / 1000 + Epoch.unixMillis)
  | .bytes text => text

theorem eq_null_of_isNull {v : CellValue} (h : v.isNull = true) : v = .null := by
  cases v <;> first | rfl | cases h

/-! ## What storing leaves

A value is kept in one of three ways: a number in a slot of its natural width, a
text inline, or the offset of a text whose entry stands elsewhere. -/

def InSlot (v : CellValue) (t : ColumnType) (stored : Stored) : Prop :=
  ∃ width, t.fixedWidth? = some width ∧ (v.octets t).length = width ∧
    stored = { width, content := v.octets t }

def Inline (v : CellValue) (t : ColumnType) (storageLen : Nat) (primary : Bool)
    (stored : Stored) : Prop :=
  t.fixedWidth? = none ∧ (t.isVariable && !primary) = false ∧
    ∃ text, v = .bytes text ∧ stored = { width := storageLen, content := text }

def InEntry (v : CellValue) (t : ColumnType) (offset : Nat) (primary : Bool)
    (stored : Stored) : Prop :=
  (t.isVariable && !primary) = true ∧
    ∃ text, v = .bytes text ∧ fitsTextHeader text = true ∧
      stored =
        { width := ColumnType.offsetWidth
          content := ofNatLE ColumnType.offsetWidth offset
          entry := textEntry text }

theorem storeInt_ok {t : ColumnType} {width : Nat} {n : Int64} {stored : Stored}
    (h : storeInt t width n = .ok stored) :
    stored = { width, content := ofIntLE width n.toInt } := by
  unfold storeInt at h
  split at h
  · exact (Except.ok.inj h).symm
  · cases h

theorem storeFloat_ok {t : ColumnType} {x : Binary64} {stored : Stored}
    (ht : t = .float4 ∨ t = .float8) (h : storeFloat t x = .ok stored) :
    InSlot (.float x) t stored := by
  rcases ht with rfl | rfl
  · simp only [storeFloat, reduceCtorEq, if_false] at h
    split at h
    · cases h
    · cases h
      exact ⟨4, rfl, by simp [octets], rfl⟩
  · simp only [storeFloat, if_true] at h
    cases h
    exact ⟨8, rfl, by simp [octets], rfl⟩

theorem storePrimary_ok {t : ColumnType} {text : Bytes} {storageLen : Nat} {stored : Stored}
    (h : storePrimary t text storageLen = .ok stored) :
    stored = { width := storageLen, content := text } := by
  unfold storePrimary at h
  split at h
  · cases h
  · exact (Except.ok.inj h).symm

theorem storeVariable_ok {t : ColumnType} {text : Bytes} {offset : Nat} {stored : Stored}
    (h : storeVariable t text offset = .ok stored) :
    fitsTextHeader text = true ∧
      stored =
        { width := ColumnType.offsetWidth
          content := ofNatLE ColumnType.offsetWidth offset
          entry := textEntry text } := by
  unfold storeVariable at h
  split at h
  next hfits => exact ⟨hfits, (Except.ok.inj h).symm⟩
  next => cases h

theorem store_variable {t : ColumnType} {text : Bytes} {storageLen offset : Nat} {primary : Bool}
    (ht : t.isVariable = true) :
    (bytes text).store t storageLen offset primary =
      if primary then storePrimary t text storageLen else storeVariable t text offset := by
  cases t <;> first | rfl | cases ht

theorem store_int_ok {t : ColumnType} {n : Int64} {storageLen offset : Nat} {primary : Bool}
    {stored : Stored} (h : (int n).store t storageLen offset primary = .ok stored) :
    InSlot (.int n) t stored := by
  cases t with
  | int2 => exact ⟨2, rfl, by simp [octets, ColumnType.fixedWidth?], storeInt_ok h⟩
  | int4 => exact ⟨4, rfl, by simp [octets, ColumnType.fixedWidth?], storeInt_ok h⟩
  | int8 => exact ⟨8, rfl, by simp [octets, ColumnType.fixedWidth?], storeInt_ok h⟩
  | float4 =>
    obtain ⟨width, hw, hlen, rfl⟩ := storeFloat_ok (.inl rfl) h
    exact ⟨width, hw, hlen, rfl⟩
  | float8 =>
    obtain ⟨width, hw, hlen, rfl⟩ := storeFloat_ok (.inr rfl) h
    exact ⟨width, hw, hlen, rfl⟩
  | _ => cases h

theorem store_ok {v : CellValue} {t : ColumnType} {storageLen offset : Nat} {primary : Bool}
    {stored : Stored} (hv : v.isNull = false)
    (h : v.store t storageLen offset primary = .ok stored) :
    InSlot v t stored ∨ Inline v t storageLen primary stored ∨
      InEntry v t offset primary stored := by
  cases v with
  | null => cases hv
  | int n => exact .inl (store_int_ok h)
  | float x =>
    cases t with
    | float4 => exact .inl (storeFloat_ok (.inl rfl) h)
    | float8 => exact .inl (storeFloat_ok (.inr rfl) h)
    | _ => cases h
  | timestamp micros =>
    cases t with
    | timestamp | timestamptz =>
      refine .inl ⟨8, rfl, by simp [octets], ?_⟩
      rw [octets, ← Epoch.toInt_toUnixMillis]
      exact (Except.ok.inj h).symm
    | _ => cases h
  | bytes text =>
    have hvariable : ∀ t : ColumnType, t.isVariable = true →
        (if primary then storePrimary t text storageLen else storeVariable t text offset) =
          .ok stored →
        Inline (.bytes text) t storageLen primary stored ∨
          InEntry (.bytes text) t offset primary stored := by
      intro t ht h
      cases primary with
      | true =>
        refine .inl ⟨ColumnType.fixedWidth?_of_isVariable ht, ?_, text, rfl, storePrimary_ok h⟩
        rw [Bool.not_true, Bool.and_false]
      | false => exact .inr ⟨by simp [ht], text, rfl, storeVariable_ok h⟩
    cases t with
    | bpchar => exact .inr (.inl ⟨rfl, rfl, text, rfl, (Except.ok.inj h).symm⟩)
    | varchar | text => exact .inr (hvariable _ rfl h)
    | _ => cases h

/-- A value is placed as it is stored, or not at all. -/
theorem place_oid (v : CellValue) (t : ColumnType) (dest region : Bytes) (width offset : Nat)
    (primary : Bool) :
    v.place t.oid dest width region offset primary =
      match v.store t width offset primary with
      | .error e => ⟨dest, region, .error e⟩
      | .ok stored => Placed.write t.oid stored dest region offset := by
  cases t with
  | date => cases v <;> rfl
  | _ => rfl

end CellValue
end SeriesWire
