/-
One cell, written for a row and written for a result.  The two encoders check the
range of an integer alike and leave the same bytes (`place_ofKind`,
`result_ofKind`).  They part where a finite double has no finite neighbour at single
precision: a row refuses it, and a result holds an infinity in its place.
-/
import SeriesWire.Cell.Result
import SeriesWire.Proofs.Binary
import SeriesWire.Proofs.Cell.Shown

namespace SeriesWire

open Bytes

namespace CellValue

variable {v : CellValue} {t : ColumnType} {natural width offset : Nat} {primary : Bool}
  {dest region out : Bytes}

/-- `v` is of the kind of `t`, a type of fixed width that can be packed.  Float
columns are meant for floats alone. -/
def OfKind (v : CellValue) (t : ColumnType) : Prop :=
  match t with
  | .int2 | .int4 | .int8 => ∃ n, v = .int n
  | .float4 | .float8 => ∃ x, v = .float x
  | .timestamp | .timestamptz => ∃ micros, v = .timestamp micros
  | .date | .bpchar | .varchar | .text => False

/-- `v` is an integer that does not fit `natural` bytes. -/
def Exceeds (v : CellValue) (natural : Nat) : Prop :=
  ∃ n, v = .int n ∧ ¬FitsInt natural n.toInt

/-- `v` is a finite number that single precision takes for an infinity. -/
def Overflows (v : CellValue) (t : ColumnType) : Prop :=
  t = .float4 ∧ ∃ x, v = .float x ∧ x.isFinite = true ∧ x.narrow.isFinite = false

/-- `content` stands for `v` itself: an integer did not wrap, an instant lost no more
than what is below a millisecond, and a finite number stayed finite. -/
def Intact (v : CellValue) (content : Bytes) : Prop :=
  match v with
  | .int n => content.toIntLE = n.toInt
  | .float x =>
    content = ofNatLE 8 x.bits.toNat ∨
      content = ofNatLE 4 x.narrow.bits.toNat ∧ (x.isFinite = true → x.narrow.isFinite = true)
  | .timestamp micros => content.toIntLE = micros.toInt / 1000 + Epoch.unixMillis
  | .null | .bytes _ => False

/-- Both encoders write the same bytes, or both find the value out of the range of
`t`. -/
def Alike (t : ColumnType) (natural : Nat) (placed : Placed)
    (written : Bytes × Except WireError Unit) : Prop :=
  (∃ content, content.length = natural ∧
    placed.outcome = .ok (natural, 0) ∧ placed.dest.take natural = content ∧
    written.2 = .ok () ∧ written.1.take natural = content) ∨
  ∃ cause cause', placed.outcome = .error (.range t.name cause) ∧
    written.2 = .error (.range t.name cause')

/-- The finite numbers from half a unit behind the largest single precision number on. -/
theorem overflows_iff :
    v.Overflows t ↔ t = .float4 ∧ ∃ x negative m unit, v = .float x ∧
      x.datum = .finite negative m unit ∧
      33554431 * Nat.pow 2 (103 + (-unit).toNat) ≤ m * Nat.pow 2 unit.toNat := by
  constructor
  · rintro ⟨ht, x, hv, hx, hnarrow⟩
    obtain ⟨negative, m, unit, hdatum⟩ := Binary64.datum_of_isFinite hx
    exact ⟨ht, x, negative, m, unit, hv, hdatum,
      (Binary64.narrow_isFinite_eq_false_iff hdatum).1 hnarrow⟩
  · rintro ⟨ht, x, negative, m, unit, hv, hdatum, hbound⟩
    refine ⟨ht, x, hv, ?_, (Binary64.narrow_isFinite_eq_false_iff hdatum).2 hbound⟩
    rw [Binary64.isFinite, hdatum]

/-! ## What is written -/

theorem OfKind.isNull (hv : v.OfKind t) : v.isNull = false := by
  cases v with
  | null =>
    cases t <;> first | exact hv.elim | (obtain ⟨_, h⟩ := hv; cases h)
  | _ => rfl

theorem length_octets (hv : v.OfKind t) (hw : t.fixedWidth? = some natural) :
    (v.octets t).length = natural := by
  cases t with
  | int2 | int4 | int8 | float4 | float8 | timestamp | timestamptz =>
    obtain ⟨x, rfl⟩ := hv
    cases hw
    simp [octets, ColumnType.fixedWidth?]
  | _ => exact hv.elim

theorem intact_octets (hv : v.OfKind t) (hw : t.fixedWidth? = some natural)
    (hfits : ¬v.Exceeds natural) (hfinite : ¬v.Overflows t) : v.Intact (v.octets t) := by
  cases t with
  | int2 | int4 | int8 =>
    obtain ⟨n, rfl⟩ := hv
    cases hw
    exact toIntLE_ofIntLE (Classical.not_not.1 fun h => hfits ⟨n, rfl, h⟩)
  | float4 =>
    obtain ⟨x, rfl⟩ := hv
    refine .inr ⟨rfl, fun hx => ?_⟩
    by_cases hnarrow : x.narrow.isFinite = true
    · exact hnarrow
    · exact absurd ⟨rfl, x, rfl, hx, Bool.eq_false_iff.2 hnarrow⟩ hfinite
  | float8 =>
    obtain ⟨x, rfl⟩ := hv
    exact .inl rfl
  | timestamp | timestamptz =>
    obtain ⟨micros, rfl⟩ := hv
    show toIntLE (ofIntLE 8 (micros.toInt / 1000 + Epoch.unixMillis)) = _
    rw [← Epoch.toInt_toUnixMillis]
    exact toIntLE_ofIntLE (fitsInt_toInt _)
  | _ => exact hv.elim

/-! ## Rows -/

theorem store_ofKind (hv : v.OfKind t) (hw : t.fixedWidth? = some natural)
    (hfits : ¬v.Exceeds natural) (hfinite : ¬v.Overflows t) :
    v.store t width offset primary = .ok { width := natural, content := v.octets t } := by
  cases t with
  | int2 | int4 | int8 =>
    obtain ⟨n, rfl⟩ := hv
    cases hw
    exact if_pos (Classical.not_not.1 fun h => hfits ⟨n, rfl, h⟩)
  | float4 =>
    obtain ⟨x, rfl⟩ := hv
    cases hw
    refine if_neg fun h => hfinite ⟨rfl, x, rfl, ?_⟩
    rwa [Bool.and_eq_true, Bool.not_eq_true'] at h
  | float8 =>
    obtain ⟨x, rfl⟩ := hv
    cases hw
    rfl
  | timestamp | timestamptz =>
    obtain ⟨micros, rfl⟩ := hv
    cases hw
    show Except.ok _ = Except.ok _
    rw [Epoch.toInt_toUnixMillis]
    rfl
  | _ => exact hv.elim

theorem store_out_of_range (hv : v.OfKind t) (hw : t.fixedWidth? = some natural)
    (hout : v.Exceeds natural ∨ v.Overflows t) (width offset : Nat) (primary : Bool) :
    ∃ cause, v.store t width offset primary = .error (.range t.name cause) := by
  rcases hout with ⟨n, rfl, hfits⟩ | ⟨rfl, x, rfl, hx, hnarrow⟩
  · cases t with
    | int2 | int4 | int8 =>
      cases hw
      exact ⟨_, if_neg hfits⟩
    | float4 | float8 | timestamp | timestamptz =>
      obtain ⟨_, h⟩ := hv
      cases h
    | _ => exact hv.elim
  · refine ⟨.single x, if_pos ?_⟩
    rw [hx, hnarrow]
    rfl

/-- The slot of a number takes it, and the variable region is left alone. -/
theorem place_ofKind (hv : v.OfKind t) (hw : t.fixedWidth? = some natural)
    (hfits : ¬v.Exceeds natural) (hfinite : ¬v.Overflows t) (hdest : natural ≤ dest.length) :
    v.place t.oid dest width region offset primary =
      ⟨v.octets t ++ dest.drop natural, region, .ok (natural, 0)⟩ := by
  have hlen := length_octets hv hw
  have hslot : Stored.slot { width := natural, content := v.octets t } = v.octets t :=
    fit_eq_self hlen
  rw [place_oid, store_ofKind hv hw hfits hfinite]
  simp only [Placed.write, Stored.checkEntry, Stored.checkSlot, ne_eq, not_true_eq_false,
    false_and, if_false, if_true, Nat.not_lt_of_le hdest, hslot, List.length_nil]
  rw [overwrite, List.take_zero, List.nil_append, Nat.zero_add, hlen]

theorem place_out_of_range (hv : v.OfKind t) (hw : t.fixedWidth? = some natural)
    (hout : v.Exceeds natural ∨ v.Overflows t) (dest region : Bytes) (width offset : Nat)
    (primary : Bool) :
    ∃ cause, v.place t.oid dest width region offset primary =
      ⟨dest, region, .error (.range t.name cause)⟩ := by
  obtain ⟨cause, hstore⟩ := store_out_of_range hv hw hout width offset primary
  refine ⟨cause, ?_⟩
  rw [place_oid, hstore]

/-! ## Results -/

theorem within_of_le {target : String} {content : Bytes} (h : content.length ≤ width) :
    within width target content = .ok content :=
  if_neg (Nat.not_lt_of_le h)

theorem result_ofKind (hv : v.OfKind t) (hw : t.fixedWidth? = some natural)
    (hfits : ¬v.Exceeds natural) (hwidth : natural ≤ width) :
    v.result t.oid width = .ok (v.octets t) := by
  have hlen := length_octets hv hw
  cases t with
  | int2 | int4 | int8 =>
    obtain ⟨n, rfl⟩ := hv
    cases hw
    refine (if_pos (Classical.not_not.1 fun h => hfits ⟨n, rfl, h⟩)).trans (within_of_le ?_)
    rwa [length_ofIntLE]
  | float4 | float8 =>
    obtain ⟨x, rfl⟩ := hv
    cases hw
    exact within_of_le (by rwa [length_ofNatLE])
  | timestamp | timestamptz =>
    obtain ⟨micros, rfl⟩ := hv
    cases hw
    show within width _ (ofIntLE 8 (Epoch.toUnixMillis micros).toInt) = _
    rw [Epoch.toInt_toUnixMillis]
    exact within_of_le (by rwa [length_ofIntLE])
  | _ => exact hv.elim

theorem result_exceeds (hv : v.OfKind t) (hw : t.fixedWidth? = some natural)
    (hout : v.Exceeds natural) (width : Nat) :
    ∃ cause, v.result t.oid width = .error (.range t.name cause) := by
  obtain ⟨n, rfl, hfits⟩ := hout
  cases t with
  | int2 | int4 | int8 =>
    cases hw
    exact ⟨.integer n.toInt, if_neg hfits⟩
  | float4 | float8 | timestamp | timestamptz =>
    obtain ⟨_, h⟩ := hv
    cases h
  | _ => exact hv.elim

theorem writeResult_ofKind (hv : v.OfKind t) (hw : t.fixedWidth? = some natural)
    (hfits : ¬v.Exceeds natural) (hout : natural ≤ out.length) :
    v.writeResult t.oid out = (v.octets t ++ zeros (out.length - natural), .ok ()) := by
  have hlen := length_octets hv hw
  rw [writeResult, result_ofKind hv hw hfits hout]
  dsimp only
  rw [fit_eq_append (by rwa [hlen]), hlen]

theorem writeResult_exceeds (hv : v.OfKind t) (hw : t.fixedWidth? = some natural)
    (hfits : v.Exceeds natural) (out : Bytes) :
    ∃ cause, v.writeResult t.oid out = (zeros out.length, .error (.range t.name cause)) := by
  obtain ⟨cause, hresult⟩ := result_exceeds hv hw hfits out.length
  refine ⟨cause, ?_⟩
  rw [writeResult, hresult]

/-! ## Agreement -/

/-- An integer is no float. -/
theorem Exceeds.not_overflows (h : v.Exceeds natural) : ¬v.Overflows t := by
  rintro ⟨-, x, hx, -⟩
  obtain ⟨n, hn, -⟩ := h
  rw [hn] at hx
  cases hx

/-- The encoders agree on every value of a column's own kind, except for finite floats
that single precision cannot hold: a row refuses these, and a result shows the infinity
of their sign.  What a row takes is always intact, and what a result takes is intact but
for these, which start half a unit behind the largest number of single precision. -/
theorem alike_iff (hv : v.OfKind t) (hw : t.fixedWidth? = some natural)
    (hdest : natural ≤ dest.length) (hout : natural ≤ out.length) :
    let placed := v.place t.oid dest width region offset false
    let written := v.writeResult t.oid out
    (Alike t natural placed written ↔ ¬v.Overflows t) ∧
    (placed.outcome.isOk = true → v.Intact (placed.dest.take natural)) ∧
    (written.2.isOk = true → ¬v.Overflows t → v.Intact (written.1.take natural)) ∧
    (v.Overflows t →
      (∃ cause, placed = ⟨dest, region, .error (.range t.name cause)⟩) ∧
      ∃ x negative m unit, v = .float x ∧ x.datum = .finite negative m unit ∧
        x.narrow.datum = .infinite negative ∧
        written = (ofNatLE 4 x.narrow.bits.toNat ++ zeros (out.length - 4), .ok ())) ∧
    (v.Overflows t ↔ t = .float4 ∧ ∃ x negative m unit, v = .float x ∧
      x.datum = .finite negative m unit ∧
      33554431 * Nat.pow 2 (103 + (-unit).toNat) ≤ m * Nat.pow 2 unit.toNat) := by
  intro placed written
  have hlen := length_octets hv hw
  by_cases hexceeds : v.Exceeds natural
  · obtain ⟨cause, hplaced⟩ := place_out_of_range hv hw (.inl hexceeds) dest region width
      offset false
    obtain ⟨cause', hwritten⟩ := writeResult_exceeds hv hw hexceeds out
    have hfinite : ¬v.Overflows t := hexceeds.not_overflows
    simp only [placed, written, hplaced, hwritten]
    exact ⟨⟨fun _ => hfinite, fun _ => .inr ⟨cause, cause', rfl, rfl⟩⟩, nofun, nofun,
      fun h => absurd h hfinite, overflows_iff⟩
  have hwritten := writeResult_ofKind hv hw hexceeds hout
  by_cases hoverflows : v.Overflows t
  · obtain ⟨cause, hplaced⟩ := place_out_of_range hv hw (.inr hoverflows) dest region width
      offset false
    simp only [placed, written, hplaced, hwritten]
    refine ⟨⟨?_, fun h => absurd hoverflows h⟩, nofun, fun _ h => absurd hoverflows h,
      fun _ => ⟨⟨cause, rfl⟩, ?_⟩, overflows_iff⟩
    · rintro (⟨_, -, hok, -⟩ | ⟨_, _, -, herror⟩)
      · cases hok
      · cases herror
    · obtain ⟨rfl, x, rfl, hx, hnarrow⟩ := hoverflows
      cases hw
      obtain ⟨negative, m, unit, hdatum⟩ := Binary64.datum_of_isFinite hx
      exact ⟨x, negative, m, unit, rfl, hdatum, Binary64.datum_narrow hdatum hnarrow, rfl⟩
  · have hplaced : v.place t.oid dest width region offset false =
        ⟨v.octets t ++ dest.drop natural, region, .ok (natural, 0)⟩ :=
      place_ofKind hv hw hexceeds hoverflows hdest
    have hintact := intact_octets hv hw hexceeds hoverflows
    simp only [placed, written, hplaced, hwritten, List.take_left' hlen]
    refine ⟨⟨fun _ => hoverflows, fun _ => .inl ⟨_, hlen, rfl, ?_, rfl, ?_⟩⟩, fun _ => hintact,
      fun _ _ => hintact, fun h => absurd h hoverflows, overflows_iff⟩
    · exact List.take_left' hlen
    · exact List.take_left' hlen

/-- The largest double that single precision rounds down to its largest number, in
buffers that are longer than the cell. -/
theorem alike_largest :
    let x : Binary64 := ⟨0x47efffffefffffff⟩
    let placed := (CellValue.float x).place 700 [9, 9, 9, 9, 9] 4 [] 0 false
    let written := (CellValue.float x).writeResult 700 [9, 9, 9, 9, 9, 9]
    Alike .float4 4 placed written ∧ Intact (.float x) (written.1.take 4) ∧
      written.1.take 4 = [255, 255, 127, 127] := by
  intro x placed written
  have hfinite : ¬(CellValue.float x).Overflows .float4 := by
    rintro ⟨-, y, hy, -, hnarrow⟩
    cases hy
    exact absurd hnarrow (by decide +kernel)
  obtain ⟨halike, -, hintact, -⟩ := @alike_iff (.float x) .float4 4 4 0 [9, 9, 9, 9, 9] []
    [9, 9, 9, 9, 9, 9] ⟨x, rfl⟩ rfl (by decide) (by decide)
  exact ⟨halike.2 hfinite, hintact rfl hfinite, by decide +kernel⟩

/-- The double behind it is refused for a row, and a result shows it as infinite. -/
theorem finite_shown_infinite :
    let x : Binary64 := ⟨0x47effffff0000000⟩
    let placed := (CellValue.float x).place 700 [0, 0, 0, 0] 4 [] 0 false
    let written := (CellValue.float x).writeResult 700 [0, 0, 0, 0]
    ¬Alike .float4 4 placed written ∧ x.isFinite = true ∧
      placed.outcome = .error (.range "float4" (.single x)) ∧
      written = ([0, 0, 128, 127], .ok ()) ∧
      Binary32.datum ⟨0x7f800000⟩ = .infinite false := by
  intro x placed written
  have hfinite : (x.isFinite && !x.narrow.isFinite) = true := by decide +kernel
  have hstore : (CellValue.float x).store .float4 4 0 false =
      .error (.range "float4" (.single x)) := if_pos hfinite
  have hplaced : placed.outcome = .error (.range "float4" (.single x)) := by
    show ((CellValue.float x).place ColumnType.float4.oid _ 4 [] 0 false).outcome = _
    rw [place_oid, hstore]
  have hoctets : (CellValue.float x).octets .float4 = [0, 0, 128, 127] := by decide +kernel
  have hwritten : written = ([0, 0, 128, 127], .ok ()) := by
    have h : (CellValue.float x).writeResult ColumnType.float4.oid [0, 0, 0, 0] =
        ((CellValue.float x).octets .float4 ++ zeros (4 - 4), .ok ()) :=
      writeResult_ofKind ⟨x, rfl⟩ rfl (fun hexceeds => hexceeds.not_overflows
        ⟨rfl, x, rfl, by decide +kernel, by decide +kernel⟩) (by decide)
    rw [hoctets] at h
    exact h
  refine ⟨?_, by decide +kernel, hplaced, hwritten, by decide +kernel⟩
  rintro (⟨_, -, hok, -⟩ | ⟨_, _, -, herror⟩)
  · rw [hplaced] at hok
    cases hok
  · rw [hwritten] at herror
    cases herror

end CellValue
end SeriesWire
