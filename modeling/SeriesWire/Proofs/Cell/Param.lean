/-
Values as parameters, there and back.  A column takes a parameter of the values of its
kind and of missing ones (`exists_toParam_iff`).  Read again, the parameter is the value
it was made from, but for an integer in a float column (`ofParam_toParam`).  And what was
read from a parameter is written as the same bytes (`toParam_ofParam`).
-/
import SeriesWire.Cell.Param
import SeriesWire.Proofs.Binary.Nearest
import SeriesWire.Proofs.GroupKey.Values
import SeriesWire.Proofs.Shape

namespace SeriesWire

open Bytes

namespace CellValue

variable {v : CellValue} {t : ColumnType} {oid : UInt32} {param : Option Bytes} {raw : Bytes}

/-- Columns of type `oid` take `v`: it is missing, or of a kind that they store. -/
def HasParam (v : CellValue) (oid : UInt32) : Prop :=
  ∃ t : ColumnType, t.isEncodable = true ∧ t.oid = oid ∧ (v = .null ∨ v.Suits t)

/-- What becomes of `v` in a column of type `oid`: there are no integers among floats. -/
def received (v : CellValue) (oid : UInt32) : CellValue :=
  match ColumnType.ofOid? oid, v with
  | some .float4, .int n | some .float8, .int n => .float (Binary64.ofInt n.toInt)
  | _, v => v

/-! ## Writing -/

theorem toParam_oid (ht : t.isEncodable = true) : v.toParam t.oid = v.param t := by
  rw [toParam, ColumnType.packable?_eq_some.2 ⟨ht, rfl⟩]

theorem exists_param_iff (ht : t.isEncodable = true) :
    (∃ param, v.param t = .ok param) ↔ v = .null ∨ v.Suits t := by
  constructor
  · rintro ⟨param, h⟩
    cases v with
    | null => exact .inl rfl
    | int n => cases t <;> first | exact .inr ⟨_, rfl⟩ | cases h
    | float x => cases t <;> first | exact .inr ⟨_, rfl⟩ | cases h
    | timestamp micros => cases t <;> first | exact .inr ⟨_, rfl⟩ | cases h
    | bytes text => cases t <;> first | exact .inr ⟨_, rfl⟩ | cases h
  · rintro (rfl | hsuits)
    · exact ⟨none, rfl⟩
    · cases t with
      | int2 | int4 | int8 | timestamp | timestamptz | bpchar | varchar | text =>
        obtain ⟨_, rfl⟩ := hsuits
        exact ⟨_, rfl⟩
      | float4 | float8 =>
        obtain ⟨_, hfloat⟩ := hsuits
        cases v with
        | int n | float x => exact ⟨_, rfl⟩
        | _ => cases hfloat
      | date => exact hsuits.elim

/-- Only a missing value has no bytes. -/
theorem param_ne_none (h : v.Suits t) : v.param t ≠ .ok none := by
  intro hnone
  cases v with
  | null => cases t <;> first | exact h | (obtain ⟨_, hx⟩ := h; cases hx)
  | _ => cases t <;> cases hnone

theorem exists_toParam_iff : (∃ param, v.toParam oid = .ok param) ↔ v.HasParam oid := by
  constructor
  · rintro ⟨param, h⟩
    cases hpackable : ColumnType.packable? oid with
    | none =>
      rw [toParam, hpackable] at h
      cases h
    | some t =>
      obtain ⟨ht, rfl⟩ := ColumnType.packable?_eq_some.1 hpackable
      rw [toParam_oid ht] at h
      exact ⟨t, ht, rfl, (exists_param_iff ht).1 ⟨param, h⟩⟩
  · rintro ⟨t, ht, rfl, h⟩
    rw [toParam_oid ht]
    exact (exists_param_iff ht).2 h

/-! ## Reading -/

/-- What eight bytes stand for in a column of numbers or instants. -/
def ofOctets (t : ColumnType) (raw : Bytes) : CellValue :=
  match t with
  | .float4 | .float8 => .float ⟨UInt64.ofNat raw.toNatBE⟩
  | .timestamp | .timestamptz => .timestamp (Int64.ofInt raw.toIntBE)
  | _ => .int (Int64.ofInt raw.toIntBE)

theorem ofParam_oid (ht : t.isEncodable = true) :
    ofParam t.oid param =
      match param with
      | none => .ok .null
      | some raw =>
        if t.isCharacter then .ok (.bytes raw)
        else if raw.length ≠ 8 then .error (.malformed (.bind (.argument t raw.length)))
        else .ok (ofOctets t raw) := by
  unfold ofParam
  rw [ColumnType.packable?_eq_some.2 ⟨ht, rfl⟩]
  cases param with
  | none => rfl
  | some raw => cases t <;> rfl

theorem ofParam_octets (ht : t.isEncodable = true) (hc : t.isCharacter = false)
    (hlen : raw.length = 8) : ofParam t.oid (some raw) = .ok (ofOctets t raw) := by
  rw [ofParam_oid ht]
  simp only [hc, Bool.false_eq_true, if_false, hlen, ne_eq, not_true_eq_false]

/-! ## There and back -/

theorem ofInt_toIntBE_ofIntBE (n : Int64) : Int64.ofInt (ofIntBE 8 n.toInt).toIntBE = n := by
  rw [toIntBE_ofIntBE (fitsInt_toInt n), Int64.ofInt_toInt]

theorem ofNat_toNatBE_ofNatBE (n : UInt64) : UInt64.ofNat (ofNatBE 8 n.toNat).toNatBE = n := by
  rw [toNatBE_ofNatBE_of_lt (by rw [space_eight]; exact n.toNat_lt), UInt64.ofNat_toNat]

theorem ofIntBE_ofInt_toIntBE (hlen : raw.length = 8) :
    ofIntBE 8 (Int64.ofInt raw.toIntBE).toInt = raw := by
  rw [toInt_int64 (fitsInt_of_length hlen), ← hlen, ofIntBE_toIntBE]

theorem ofNatBE_ofNat_toNatBE (hlen : raw.length = 8) :
    ofNatBE 8 (UInt64.ofNat raw.toNatBE).toNat = raw := by
  have hlt := toNatBE_lt raw
  rw [hlen, space_eight] at hlt
  rw [UInt64.toNat_ofNat_of_lt' hlt, ← hlen, ofNatBE_toNatBE]

theorem received_of_not_int (h : ∀ n, v ≠ .int n) : v.received oid = v := by
  unfold received
  split
  · exact absurd rfl (h _)
  · exact absurd rfl (h _)
  · rfl

/-- Integers come out of float columns as the nearest doubles. -/
theorem nearest_received {n : Int64} {oid : UInt32} {x : Binary64}
    (h : (int n).received oid = .float x) : x.Nearest n.toInt := by
  unfold received at h
  split at h
  next hn =>
    cases hn
    cases h
    exact Binary64.nearest_ofInt64 n
  next hn =>
    cases hn
    cases h
    exact Binary64.nearest_ofInt64 n
  next => cases h

/-- Numbers and instants are sent in eight bytes. -/
theorem ofOctets_param (hc : t.isCharacter = false) (hsuits : v.Suits t)
    (h : v.param t = .ok (some raw)) : raw.length = 8 ∧ ofOctets t raw = v.received t.oid := by
  cases t with
  | int2 | int4 | int8 =>
    obtain ⟨n, rfl⟩ := hsuits
    cases h
    exact ⟨length_ofIntBE 8 _, congrArg int (ofInt_toIntBE_ofIntBE n)⟩
  | float4 | float8 =>
    obtain ⟨_, hfloat⟩ := hsuits
    cases v with
    | int n =>
      cases h
      exact ⟨length_ofNatBE 8 _, congrArg (float ⟨·⟩) (ofNat_toNatBE_ofNatBE _)⟩
    | float x =>
      cases h
      exact ⟨length_ofNatBE 8 _, congrArg (float ⟨·⟩) (ofNat_toNatBE_ofNatBE _)⟩
    | _ => cases hfloat
  | timestamp | timestamptz =>
    obtain ⟨micros, rfl⟩ := hsuits
    cases h
    exact ⟨length_ofIntBE 8 _, congrArg timestamp (ofInt_toIntBE_ofIntBE micros)⟩
  | bpchar | varchar | text => cases hc
  | date => exact hsuits.elim

theorem param_of_character (hc : t.isCharacter = true) (hsuits : v.Suits t) :
    ∃ text, v = .bytes text ∧ v.param t = .ok (some text) := by
  cases t with
  | bpchar | varchar | text =>
    obtain ⟨text, rfl⟩ := hsuits
    exact ⟨text, rfl, rfl⟩
  | _ => cases hc

theorem ofParam_param (ht : t.isEncodable = true) (h : v.param t = .ok param) :
    ofParam t.oid param = .ok (v.received t.oid) := by
  rcases (exists_param_iff ht).1 ⟨param, h⟩ with rfl | hsuits
  · cases h
    rw [ofParam_oid ht, received_of_not_int fun _ hn => CellValue.noConfusion hn]
  cases hc : t.isCharacter with
  | true =>
    obtain ⟨text, rfl, hparam⟩ := param_of_character hc hsuits
    rw [hparam] at h
    cases h
    rw [ofParam_oid ht, received_of_not_int fun _ hn => CellValue.noConfusion hn]
    simp only [hc, if_true]
  | false =>
    cases param with
    | none => exact absurd h (param_ne_none hsuits)
    | some raw =>
      obtain ⟨hlen, hvalue⟩ := ofOctets_param hc hsuits h
      rw [ofParam_octets ht hc hlen, hvalue]

/-- A parameter is read as the value that it was made of, the integers of float columns
being rounded. -/
theorem ofParam_toParam (h : v.toParam oid = .ok param) :
    ofParam oid param = .ok (v.received oid) := by
  obtain ⟨t, ht, rfl, -⟩ := exists_toParam_iff.1 ⟨param, h⟩
  rw [toParam_oid ht] at h
  exact ofParam_param ht h

theorem param_ofOctets (ht : t.isEncodable = true) (hc : t.isCharacter = false)
    (hlen : raw.length = 8) : (ofOctets t raw).param t = .ok (some raw) := by
  cases t with
  | int2 | int4 | int8 | timestamp | timestamptz =>
    show Except.ok (some (ofIntBE 8 (Int64.ofInt raw.toIntBE).toInt)) = _
    rw [ofIntBE_ofInt_toIntBE hlen]
  | float4 | float8 =>
    show Except.ok (some (ofNatBE 8 (UInt64.ofNat raw.toNatBE).toNat)) = _
    rw [ofNatBE_ofNat_toNatBE hlen]
  | bpchar | varchar | text => cases hc
  | date => cases ht

/-- A value that was read from a parameter is written as this parameter. -/
theorem toParam_ofParam (h : ofParam oid param = .ok v) : v.toParam oid = .ok param := by
  cases hpackable : ColumnType.packable? oid with
  | none =>
    unfold ofParam at h
    rw [hpackable] at h
    cases h
  | some t =>
    obtain ⟨ht, rfl⟩ := ColumnType.packable?_eq_some.1 hpackable
    rw [ofParam_oid ht] at h
    rw [toParam_oid ht]
    cases param with
    | none =>
      cases h
      rfl
    | some raw =>
      dsimp only at h
      split at h
      next hcharacter =>
        cases h
        cases t <;> first | rfl | cases hcharacter
      next hnumber =>
        split at h
        next => cases h
        next hlen =>
          cases h
          exact param_ofOctets ht (Bool.eq_false_iff.2 hnumber) (Classical.not_not.1 hlen)

end CellValue
end SeriesWire
