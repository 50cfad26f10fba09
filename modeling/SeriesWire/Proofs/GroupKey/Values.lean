/-
Keys of values and of rows.  Two rows have the same key exactly if the key text of
each primary tag is the same (`ofRow_eq_iff`).  For values of a kind that their
column stores, the same key text means the same value, up to the width of a float
column, and so the same stored bytes.
-/
import SeriesWire.Proofs.Cell.Octets
import SeriesWire.Proofs.Decimal.Text
import SeriesWire.Proofs.GroupKey.Escape
import SeriesWire.Proofs.Outcomes

namespace SeriesWire

open Bytes

/-! ## Kinds of values -/

namespace CellValue

/-- The value as a float column takes it. -/
def asFloat? : CellValue → Option Binary64
  | .int n => some (Binary64.ofInt n.toInt)
  | .float x => some x
  | _ => none

/-- `v` is of a kind that columns of type `t` store. -/
def Suits (v : CellValue) (t : ColumnType) : Prop :=
  match t with
  | .int2 | .int4 | .int8 => ∃ n, v = .int n
  | .float4 | .float8 => ∃ x, v.asFloat? = some x
  | .timestamp | .timestamptz => ∃ micros, v = .timestamp micros
  | .bpchar | .varchar | .text => ∃ text, v = .bytes text
  | .date => False

/-- `v` and `w` are the same value of a column of type `t`: the same integer,
instant or text, or numbers with the same bits at the width of the column. -/
def Agrees (v w : CellValue) (t : ColumnType) : Prop :=
  match t with
  | .float4 => ∃ x y, v.asFloat? = some x ∧ w.asFloat? = some y ∧ x.narrow = y.narrow
  | .float8 => ∃ x, v.asFloat? = some x ∧ w.asFloat? = some x
  | _ => v = w

theorem suits_of_store {v : CellValue} {t : ColumnType} {width offset : Nat} {primary : Bool}
    {stored : Stored} (hv : v.isNull = false)
    (h : v.store t width offset primary = .ok stored) : v.Suits t := by
  cases v with
  | null => cases hv
  | int n => cases t <;> first | exact ⟨_, rfl⟩ | cases h
  | float x => cases t <;> first | exact ⟨_, rfl⟩ | cases h
  | timestamp micros => cases t <;> first | exact ⟨_, rfl⟩ | cases h
  | bytes text => cases t <;> first | exact ⟨_, rfl⟩ | cases h

theorem isNull_of_suits {v : CellValue} {t : ColumnType} (h : v.Suits t) : v.isNull = false := by
  cases v with
  | null =>
    cases t with
    | date => exact h.elim
    | _ =>
      obtain ⟨_, h⟩ := h
      cases h
  | _ => rfl

theorem octets_float4 {v : CellValue} {x : Binary64} (h : v.asFloat? = some x) :
    v.octets .float4 = ofNatLE 4 x.narrow.bits.toNat := by
  cases v <;> first | cases h; rfl | cases h

theorem octets_float8 {v : CellValue} {x : Binary64} (h : v.asFloat? = some x) :
    v.octets .float8 = ofNatLE 8 x.bits.toNat := by
  cases v <;> first | cases h; rfl | cases h

theorem octets_of_agrees {v w : CellValue} {t : ColumnType} (h : v.Agrees w t) :
    v.octets t = w.octets t := by
  cases t with
  | float4 =>
    obtain ⟨x, y, hx, hy, hnarrow⟩ := h
    rw [octets_float4 hx, octets_float4 hy, hnarrow]
  | float8 =>
    obtain ⟨x, hx, hy⟩ := h
    rw [octets_float8 hx, octets_float8 hy]
  | _ => exact congrArg (octets · _) h

end CellValue

/-! ## Keys of values -/

namespace GroupKey

theorem plain_of_mem_number {c : Char} (h : c.isDigit = true ∨ c ∈ ['.', '-', 'i', 'n', 'f']) :
    c ≠ '\\' ∧ c ≠ ',' ∧ c ≠ 'N' := by
  rcases h with h | h
  · refine ⟨?_, ?_, ?_⟩ <;> (rintro rfl; exact absurd h (by decide))
  · simp only [List.mem_cons, List.not_mem_nil, or_false] at h
    rcases h with rfl | rfl | rfl | rfl | rfl <;> decide

theorem toList_toString_int (n : Int) :
    (toString n).toList = (if decide (n < 0) then ['-'] else []) ++ n.natAbs.repr.toList := by
  rw [Int.toString_eq_repr, Int.repr_eq_if]
  split
  next hn =>
    rw [decide_eq_false (by omega), show n.toNat = n.natAbs by omega]
    rfl
  next hn =>
    rw [decide_eq_true (by omega), String.toList_append, show (-n).toNat = n.natAbs by omega]
    rfl

theorem mem_toString_int {n : Int} {c : Char} (h : c ∈ (toString n).toList) :
    c.isDigit = true ∨ c ∈ ['.', '-', 'i', 'n', 'f'] := by
  rw [toList_toString_int, List.mem_append] at h
  rcases h with h | h
  · split at h
    · rw [List.mem_singleton.1 h]
      exact .inr (by decide)
    · cases h
  · exact .inl (Decimal.isDigit_of_mem_repr h)

theorem eq_of_toString_int {a b : Int} (h : (toString a).toList = (toString b).toList) : a = b := by
  have hminus : ∀ n : Nat, '-' ∉ n.repr.toList := by
    intro n hc
    exact absurd (Decimal.isDigit_of_mem_repr hc) (by decide)
  rw [toList_toString_int, toList_toString_int] at h
  obtain ⟨hsign, hdigits⟩ := Decimal.eq_of_signed (hminus _) (hminus _) h
  have habs : a.natAbs = b.natAbs := by
    rw [← Decimal.ofDigitChars_repr a.natAbs, hdigits, Decimal.ofDigitChars_repr]
  rw [decide_eq_decide] at hsign
  omega

theorem closed_toString_int (n : Int) : Closed (toString n).toList :=
  closed_of_plain fun _ hc =>
    ⟨(plain_of_mem_number (mem_toString_int hc)).1, (plain_of_mem_number (mem_toString_int hc)).2.1⟩

/-! ### Floating point numbers

Their keys are either marked as NaNs and spelt by the bits, or written out. -/

section Marked

variable {width a b : Nat} {nan nan' : Bool} {s t : List Char}

theorem closed_marked (hs : nan = false → ∀ c ∈ s, c ≠ '\\' ∧ c ≠ ',' ∧ c ≠ 'N') :
    Closed (if nan then "NaN:".toList ++ Hex.ofBytes (ofNatBE width a) else s) := by
  split
  · refine Closed.append (closed_of_plain (by simp)) (closed_of_plain fun c hc => ?_)
    obtain ⟨byte, -, hc⟩ := List.mem_flatMap.1 hc
    exact Hex.plain_ofByte byte hc
  next hnan =>
    refine closed_of_plain fun c hc => ?_
    obtain ⟨hslash, hcomma, -⟩ := hs (Bool.eq_false_iff.2 hnan) c hc
    exact ⟨hslash, hcomma⟩

theorem eq_of_ofBytes_ofNatBE (ha : a < space width) (hb : b < space width)
    (h : Hex.ofBytes (ofNatBE width a) = Hex.ofBytes (ofNatBE width b)) : a = b := by
  have hbytes := congrArg toNatBE (Hex.ofBytes_injective (by simp) h)
  rwa [toNatBE_ofNatBE, toNatBE_ofNatBE, Nat.mod_eq_of_lt ha, Nat.mod_eq_of_lt hb] at hbytes

/-- No number's text has an `N`, so the mark is never read for a number. -/
theorem eq_of_marked (hs : nan = false → ∀ c ∈ s, c ≠ '\\' ∧ c ≠ ',' ∧ c ≠ 'N')
    (ht : nan' = false → ∀ c ∈ t, c ≠ '\\' ∧ c ≠ ',' ∧ c ≠ 'N')
    (ha : a < space width) (hb : b < space width)
    (h : (if nan then "NaN:".toList ++ Hex.ofBytes (ofNatBE width a) else s) =
      (if nan' then "NaN:".toList ++ Hex.ofBytes (ofNatBE width b) else t)) :
    a = b ∨ nan = false ∧ nan' = false ∧ s = t := by
  have hmark : ∀ rest : List Char, 'N' ∈ "NaN:".toList ++ rest := fun rest =>
    List.mem_append_left rest (by decide)
  cases nan with
  | true =>
    cases nan' with
    | true => exact .inl (eq_of_ofBytes_ofNatBE ha hb (List.append_cancel_left h))
    | false =>
      have hmem := hmark (Hex.ofBytes (ofNatBE width a))
      rw [if_pos rfl, if_neg Bool.false_ne_true] at h
      rw [h] at hmem
      exact absurd rfl (ht rfl 'N' hmem).2.2
  | false =>
    cases nan' with
    | true =>
      have hmem := hmark (Hex.ofBytes (ofNatBE width b))
      rw [if_neg Bool.false_ne_true, if_pos rfl] at h
      rw [← h] at hmem
      exact absurd rfl (hs rfl 'N' hmem).2.2
    | false => exact .inr ⟨rfl, rfl, h⟩

end Marked

theorem plain_single (x : Binary32) (h : x.isNaN = false) :
    ∀ c ∈ x.text.toList, c ≠ '\\' ∧ c ≠ ',' ∧ c ≠ 'N' :=
  fun _ hc => plain_of_mem_number (Binary32.mem_text h hc)

theorem plain_double (x : Binary64) (h : x.isNaN = false) :
    ∀ c ∈ x.text.toList, c ≠ '\\' ∧ c ≠ ',' ∧ c ≠ 'N' :=
  fun _ hc => plain_of_mem_number (Binary64.mem_text h hc)

theorem ofSingle_injective {x y : Binary32} (h : ofSingle x = ofSingle y) : x = y := by
  obtain hbits | ⟨hx, hy, htext⟩ :=
    eq_of_marked (plain_single x) (plain_single y) x.bits.toNat_lt y.bits.toNat_lt h
  · exact Binary32.eq_of_toNat hbits
  · exact Binary32.eq_of_text hx hy (String.toList_inj.1 htext)

theorem ofDouble_injective {x y : Binary64} (h : ofDouble x = ofDouble y) : x = y := by
  obtain hbits | ⟨hx, hy, htext⟩ :=
    eq_of_marked (plain_double x) (plain_double y) x.bits.toNat_lt y.bits.toNat_lt h
  · exact Binary64.eq_of_toNat hbits
  · exact Binary64.eq_of_text hx hy (String.toList_inj.1 htext)

theorem closed_ofSingle (x : Binary32) : Closed (ofSingle x) := closed_marked (plain_single x)

theorem closed_ofDouble (x : Binary64) : Closed (ofDouble x) := closed_marked (plain_double x)

theorem ofText_injective {a b : Bytes} (h : ofText a = ofText b) : a = b := by
  rw [← unescape_ofText a, h, unescape_ofText]

/-! ### Any value -/

theorem ofValue?_float4 {v : CellValue} {x : Binary64} (h : v.asFloat? = some x) :
    ofValue? .float4 v = some (ofSingle x.narrow) := by
  cases v <;> first | cases h; rfl | cases h

theorem ofValue?_float8 {v : CellValue} {x : Binary64} (h : v.asFloat? = some x) :
    ofValue? .float8 v = some (ofDouble x) := by
  cases v <;> first | cases h; rfl | cases h

/-- The four forms of a key text. -/
theorem forms_ofValue {P : List Char → Prop} (hint : ∀ n : Int, P (toString n).toList)
    (hsingle : ∀ x, P (ofSingle x)) (hdouble : ∀ x, P (ofDouble x)) (htext : ∀ bs, P (ofText bs))
    {t : ColumnType} {v : CellValue} {key : List Char} (h : ofValue? t v = some key) : P key := by
  cases v with
  | null => cases h
  | int n =>
    cases t with
    | float4 => cases h; exact hsingle _
    | float8 => cases h; exact hdouble _
    | _ => cases h; exact hint _
  | float x =>
    cases t with
    | float4 => cases h; exact hsingle _
    | _ => cases h; exact hdouble _
  | timestamp micros => cases h; exact hint _
  | bytes text => cases h; exact htext text

theorem closed_ofValue {t : ColumnType} {v : CellValue} {key : List Char}
    (h : ofValue? t v = some key) : Closed key :=
  forms_ofValue closed_toString_int closed_ofSingle closed_ofDouble closed_ofText h

/-- Values that their column stores and that have the same key are the same. -/
theorem agrees_of_key {v w : CellValue} {t : ColumnType} (hv : v.Suits t) (hw : w.Suits t)
    (h : ofValue? t v = ofValue? t w) : v.Agrees w t := by
  cases t with
  | int2 | int4 | int8 =>
    obtain ⟨m, rfl⟩ := hv
    obtain ⟨n, rfl⟩ := hw
    exact congrArg CellValue.int (Int64.toInt_inj.1 (eq_of_toString_int (Option.some.inj h)))
  | float4 =>
    obtain ⟨x, hx⟩ := hv
    obtain ⟨y, hy⟩ := hw
    rw [ofValue?_float4 hx, ofValue?_float4 hy] at h
    exact ⟨x, y, hx, hy, ofSingle_injective (Option.some.inj h)⟩
  | float8 =>
    obtain ⟨x, hx⟩ := hv
    obtain ⟨y, hy⟩ := hw
    rw [ofValue?_float8 hx, ofValue?_float8 hy] at h
    cases ofDouble_injective (Option.some.inj h)
    exact ⟨x, hx, hy⟩
  | timestamp | timestamptz =>
    obtain ⟨a, rfl⟩ := hv
    obtain ⟨b, rfl⟩ := hw
    exact congrArg CellValue.timestamp
      (Int64.toInt_inj.1 (eq_of_toString_int (Option.some.inj h)))
  | date => exact hv.elim
  | bpchar | varchar | text =>
    obtain ⟨a, rfl⟩ := hv
    obtain ⟨b, rfl⟩ := hw
    exact congrArg CellValue.bytes (ofText_injective (Option.some.inj h))

/-! ## Keys of rows -/

variable {s : Shape} {row row' : List CellValue} {key key' : String}

/-- The key text of the value in column `i`. -/
def ofColumn? (s : Shape) (row : List CellValue) (i : Nat) : Option (List Char) :=
  ofValue? (s.column i).type (row.getD i .null)

theorem part_eq_ok {i : Nat} {part : List Char} :
    GroupKey.part s row i = .ok part ↔ ofColumn? s row i = some part := by
  rw [GroupKey.part, ofColumn?, List.getD_eq_getElem?_getD]
  cases hvalue : row[i]? with
  | none => exact ⟨nofun, nofun⟩
  | some v =>
    simp only [Option.getD_some]
    cases ofValue? (s.column i).type v with
    | none => exact ⟨nofun, nofun⟩
    | some found =>
      constructor
      · intro h
        rw [Except.ok.inj h]
      · intro h
        rw [Option.some.inj h]

theorem ofRow_eq_ok (h : ofRow s row = .ok key) :
    ∃ parts : List (List Char), key = String.ofList ([','].intercalate parts) ∧
      parts.length = s.primaryTags.length ∧
      ∀ k (hk : k < s.primaryTags.length), ofColumn? s row s.primaryTags[k] = parts[k]? := by
  obtain ⟨parts, hparts, hkey⟩ := Outcome.bind_eq_ok.1 h
  obtain ⟨hlen, hall⟩ := Outcome.mapM_eq_ok.1 hparts
  refine ⟨parts, (Except.ok.inj hkey).symm, hlen, fun k hk => ?_⟩
  rw [List.getElem?_eq_getElem (by omega)]
  exact part_eq_ok.1 (hall k hk)

/-- Each part is the key text of a value of the row. -/
theorem exists_column_of_mem {parts : List (List Char)} (hlen : parts.length = s.primaryTags.length)
    (hall : ∀ k (hk : k < s.primaryTags.length), ofColumn? s row s.primaryTags[k] = parts[k]?)
    {part : List Char} (hpart : part ∈ parts) : ∃ i, ofColumn? s row i = some part := by
  obtain ⟨k, hk, rfl⟩ := List.getElem_of_mem hpart
  have hfound := hall k (by omega)
  rw [List.getElem?_eq_getElem hk] at hfound
  exact ⟨_, hfound⟩

theorem closed_parts {parts : List (List Char)} (hlen : parts.length = s.primaryTags.length)
    (hall : ∀ k (hk : k < s.primaryTags.length), ofColumn? s row s.primaryTags[k] = parts[k]?) :
    ∀ part ∈ parts, Closed part := by
  intro part hpart
  obtain ⟨_, hfound⟩ := exists_column_of_mem hlen hall hpart
  exact closed_ofValue hfound

/-- Rows have the same key exactly if their values have, column by column. -/
theorem ofRow_eq_iff (h : ofRow s row = .ok key) (h' : ofRow s row' = .ok key') :
    key = key' ↔ ∀ i ∈ s.primaryTags, ofColumn? s row i = ofColumn? s row' i := by
  obtain ⟨parts, rfl, hlen, hall⟩ := ofRow_eq_ok h
  obtain ⟨parts', rfl, hlen', hall'⟩ := ofRow_eq_ok h'
  constructor
  · intro hkey i hi
    obtain ⟨k, hk, rfl⟩ := List.getElem_of_mem hi
    have hsame : parts = parts' := eq_of_join (hlen.trans hlen'.symm) (closed_parts hlen hall)
      (closed_parts hlen' hall') (String.ofList_injective hkey)
    rw [hall k hk, hall' k hk, hsame]
  · intro hcolumns
    have hsame : parts = parts' := by
      apply List.ext_getElem?
      intro k
      by_cases hk : k < s.primaryTags.length
      · rw [← hall k hk, ← hall' k hk]
        exact hcolumns _ (List.getElem_mem hk)
      · rw [List.getElem?_eq_none (by omega), List.getElem?_eq_none (by omega)]
    rw [hsame]

/-- Rows whose values suit their columns have keys. -/
theorem exists_ofRow
    (h : ∀ i ∈ s.primaryTags, (row.getD i .null).Suits (s.column i).type) :
    ∃ key, ofRow s row = .ok key := by
  cases hparts : s.primaryTags.mapM (GroupKey.part s row) with
  | ok parts => exact ⟨_, by rw [ofRow, hparts]; rfl⟩
  | error e =>
    obtain ⟨i, hi, hpart⟩ := Outcome.mapM_eq_error hparts
    have hkey : ∃ part, ofColumn? s row i = some part := by
      have hsuits := h i hi
      rw [ofColumn?]
      cases hv : row.getD i .null with
      | null =>
        rw [hv] at hsuits
        cases CellValue.isNull_of_suits hsuits
      | int n => cases (s.column i).type <;> exact ⟨_, rfl⟩
      | float x => cases (s.column i).type <;> exact ⟨_, rfl⟩
      | timestamp micros => exact ⟨_, rfl⟩
      | bytes text => exact ⟨_, rfl⟩
    obtain ⟨part, hkey⟩ := hkey
    rw [part_eq_ok.2 hkey] at hpart
    cases hpart

end GroupKey
end SeriesWire
