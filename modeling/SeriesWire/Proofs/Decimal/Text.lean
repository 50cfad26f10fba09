/-
The text of a floating point number names the number.  The shortest digits lie in
its rounding interval, wherever the search for them ends; the written text gives
these digits back; and no other number of the format has them in its interval.
-/
import SeriesWire.Decimal.Positional
import SeriesWire.Proofs.Decimal.Interval

namespace SeriesWire
namespace Decimal

/-! ## Reading digits back -/

/-- Digits with a point among them: the number they spell without the point, and
how many stand behind it. -/
def reading (text : List Char) : Nat × Nat :=
  let whole := text.takeWhile (· != '.')
  let fraction := text.drop (whole.length + 1)
  (Nat.ofDigitChars 10 (whole ++ fraction) 0, fraction.length)

theorem reading_of_no_point {text : List Char} (h : '.' ∉ text) :
    reading text = (Nat.ofDigitChars 10 text 0, 0) := by
  have hwhole : text.takeWhile (· != '.') = text := by
    rw [← List.append_nil text, List.takeWhile_append_of_pos, List.takeWhile_nil]
    intro c hc
    rw [bne_iff_ne]
    rintro rfl
    exact h hc
  rw [reading, hwhole, List.drop_of_length_le (Nat.le_succ _), List.append_nil]
  rfl

theorem reading_point {whole fraction : List Char} (h : '.' ∉ whole) :
    reading (whole ++ '.' :: fraction) =
      (Nat.ofDigitChars 10 (whole ++ fraction) 0, fraction.length) := by
  have hwhole : (whole ++ '.' :: fraction).takeWhile (· != '.') = whole := by
    rw [List.takeWhile_append_of_pos, List.takeWhile_cons_of_neg (by simp), List.append_nil]
    intro c hc
    rw [bne_iff_ne]
    rintro rfl
    exact h hc
  have hfraction : (whole ++ '.' :: fraction).drop (whole.length + 1) = fraction := by
    rw [List.drop_length_add_append]
    rfl
  rw [reading, hwhole, hfraction]

theorem isDigit_of_mem_repr {n : Nat} {c : Char} (h : c ∈ n.repr.toList) : c.isDigit = true := by
  rw [Nat.toList_repr] at h
  exact Nat.isDigit_of_mem_toDigits (by decide) (by decide) h

theorem ofDigitChars_repr (n : Nat) : Nat.ofDigitChars 10 n.repr.toList 0 = n := by
  rw [Nat.toList_repr, Nat.ofDigitChars_ten_toDigits]

theorem point_not_mem {text : List Char} (h : ∀ c ∈ text, c.isDigit = true) : '.' ∉ text := by
  intro hpoint
  exact absurd (h _ hpoint) (by decide)

/-- The written text of a multiple of a power of ten, read back. -/
theorem reading_positional (digits : Nat) (exponent : Int) :
    reading (positional digits exponent).toList =
      (digits * Nat.pow 10 exponent.toNat, (-exponent).toNat) := by
  have hrepr : ∀ c ∈ (Nat.repr digits).toList, c.isDigit = true := fun c => isDigit_of_mem_repr
  have hzeros : ∀ n, ∀ c ∈ List.replicate n '0', c.isDigit = true := by
    intro n c hc
    rw [List.eq_of_mem_replicate hc]
    rfl
  simp only [positional]
  split
  next hplaces =>
    rw [String.toList_ofList, reading_of_no_point (point_not_mem _), Nat.ofDigitChars_append,
      ofDigitChars_repr, Nat.ofDigitChars_replicate_zero, Nat.mul_comm, hplaces]
    · rfl
    · intro c hc
      rcases List.mem_append.1 hc with hc | hc
      · exact hrepr c hc
      · exact hzeros _ c hc
  next hplaces =>
    have hexponent : exponent.toNat = 0 := by omega
    generalize hpadded :
      List.replicate ((-exponent).toNat + 1 - (Nat.repr digits).toList.length) '0' ++
        (Nat.repr digits).toList = padded
    have hlen : (-exponent).toNat ≤ padded.length := by
      rw [← hpadded, List.length_append, List.length_replicate]
      omega
    have hdigits : '.' ∉ padded := by
      rw [← hpadded]
      apply point_not_mem
      intro c hc
      rcases List.mem_append.1 hc with hc | hc
      · exact hzeros _ c hc
      · exact hrepr c hc
    have hnumber : Nat.ofDigitChars 10 padded 0 = digits := by
      rw [← hpadded, Nat.ofDigitChars_append, Nat.ofDigitChars_replicate_zero, Nat.mul_zero,
        ofDigitChars_repr]
    rw [String.toList_ofList, reading_point (fun h => hdigits (List.mem_of_mem_take h)),
      List.take_append_drop, hnumber, List.length_drop, Nat.sub_sub_self hlen, hexponent]
    exact congrArg (·, (-exponent).toNat) (Nat.mul_one digits).symm

/-! ## Shortest digits -/

theorem holds_onGrid {i : Interval} {m digits : Nat} {unit e : Int}
    (h : onGrid? i m unit e = some digits) :
    i.Holds unit (digits * Nat.pow 10 e.toNat) (-e).toNat := by
  have hregroup : ∀ point : Nat, 4 * point * (Nat.pow 2 (-unit).toNat * Nat.pow 10 e.toNat) =
      4 * (point * Nat.pow 10 e.toNat) * Nat.pow 2 (-unit).toNat := by
    intro point
    simp only [Nat.mul_assoc, Nat.mul_comm, Nat.mul_left_comm]
  simp only [onGrid?] at h
  rw [Interval.Holds, ← hregroup]
  split at h
  next hbelow habove =>
    cases h
    split
    · exact hbelow
    · exact habove
  next hbelow _ =>
    cases h
    exact hbelow
  next _ habove =>
    cases h
    exact habove
  next => cases h

/-- A number lies in its own interval. -/
theorem holds_self (f : Format) {m : Nat} (hm : 0 < m) (unit : Int) :
    (Interval.around f m unit).Holds unit
      (m * Nat.pow 2 unit.toNat * Nat.pow 5 (-unit).toNat) (-unit).toNat := by
  have hten : Nat.pow 10 (-unit).toNat = Nat.pow 5 (-unit).toNat * Nat.pow 2 (-unit).toNat :=
    Nat.mul_pow 5 2 _
  have hself : 4 * (m * Nat.pow 2 unit.toNat * Nat.pow 5 (-unit).toNat) * Nat.pow 2 (-unit).toNat =
      4 * m * (Nat.pow 2 unit.toNat * Nat.pow 10 (-unit).toNat) := by
    rw [hten]
    simp only [Nat.mul_assoc]
  have hpos : 0 < Nat.pow 2 unit.toNat * Nat.pow 10 (-unit).toNat :=
    Nat.mul_pos (Format.pow_pos _) (Nat.pow_pos (by decide))
  have hlow : (Interval.around f m unit).low < 4 * m := by
    simp only [Interval.around]
    split <;> omega
  have hhigh : 4 * m < (Interval.around f m unit).high := by
    simp only [Interval.around]
    omega
  rw [Interval.Holds, Interval.contains_iff, hself]
  have hbelow := Nat.mul_lt_mul_of_pos_right hlow hpos
  have habove := Nat.mul_lt_mul_of_pos_right hhigh hpos
  split
  · exact ⟨Nat.le_of_lt hbelow, Nat.le_of_lt habove⟩
  · exact ⟨hbelow, habove⟩

/-- Wherever the search ends, it ends inside the interval. -/
theorem holds_search (f : Format) {m : Nat} (hm : 0 < m) (unit : Int) (steps : Nat) (e : Int) :
    (Interval.around f m unit).Holds unit
      ((search (Interval.around f m unit) m unit steps e).1 *
        Nat.pow 10 (search (Interval.around f m unit) m unit steps e).2.toNat)
      (-(search (Interval.around f m unit) m unit steps e).2).toNat := by
  induction steps generalizing e with
  | zero =>
    -- No grid had a point in the interval: the digits are the number's own.
    have hexponent : (min unit 0).toNat = 0 := by omega
    have hplaces : (-(min unit 0)).toNat = (-unit).toNat := by omega
    simp only [search]
    rw [hexponent, hplaces]
    have hself := holds_self f hm unit
    rwa [← Nat.mul_one (_ * Nat.pow 5 (-unit).toNat)] at hself
  | succ steps ih =>
    rw [search]
    split
    next digits hfound => exact holds_onGrid hfound
    next => exact ih (e - 1)

/-! ## Texts -/

/-- The text of a magnitude. -/
def unsigned (f : Format) (m : Nat) (unit : Int) : List Char :=
  if m = 0 then ['0'] else (positional (shortest f m unit).1 (shortest f m unit).2).toList

theorem toList_text_finite (f : Format) (negative : Bool) (m : Nat) (unit : Int) :
    (text f (.finite negative m unit)).toList =
      (if negative then ['-'] else []) ++ unsigned f m unit := by
  simp only [text, unsigned]
  cases negative <;> split <;> simp

theorem holds_unsigned (f : Format) (m : Nat) (unit : Int) :
    (Interval.around f m unit).Holds unit (reading (unsigned f m unit)).1
      (reading (unsigned f m unit)).2 := by
  rw [unsigned]
  split
  next hm =>
    subst hm
    have hlow : (Interval.around f 0 unit).low = 0 := by
      simp only [Interval.around, Nat.mul_zero, Nat.zero_sub]
    have hzero : reading ['0'] = (0, 0) := rfl
    rw [hzero, Interval.Holds, Interval.contains_iff,
      if_pos (show (Interval.around f 0 unit).closed = true from rfl), hlow, Nat.zero_mul,
      Nat.mul_zero, Nat.zero_mul]
    exact ⟨Nat.le_refl 0, Nat.zero_le _⟩
  next hm =>
    rw [reading_positional]
    exact holds_search f (Nat.pos_of_ne_zero hm) unit 24 _

theorem isDigit_of_mem_positional {digits : Nat} {exponent : Int} {c : Char}
    (h : c ∈ (positional digits exponent).toList) : c.isDigit = true ∨ c = '.' := by
  have hpadded : ∀ n, ∀ c ∈ List.replicate n '0' ++ (Nat.repr digits).toList, c.isDigit = true := by
    intro n c hc
    rcases List.mem_append.1 hc with hc | hc
    · rw [List.eq_of_mem_replicate hc]
      rfl
    · exact isDigit_of_mem_repr hc
  simp only [positional] at h
  split at h
  next =>
    rw [String.toList_ofList, List.mem_append, or_comm, ← List.mem_append] at h
    exact .inl (hpadded _ c h)
  next =>
    rw [String.toList_ofList, List.mem_append, List.mem_cons] at h
    rcases h with h | rfl | h
    · exact .inl (hpadded _ c (List.mem_of_mem_take h))
    · exact .inr rfl
    · exact .inl (hpadded _ c (List.mem_of_mem_drop h))

theorem isDigit_of_mem_unsigned {f : Format} {m : Nat} {unit : Int} {c : Char}
    (h : c ∈ unsigned f m unit) : c.isDigit = true ∨ c = '.' := by
  rw [unsigned] at h
  split at h
  next =>
    rw [List.mem_singleton] at h
    subst h
    exact .inl rfl
  next => exact isDigit_of_mem_positional h

theorem not_mem_unsigned {f : Format} {m : Nat} {unit : Int} {c : Char}
    (h : c.isDigit = false) (hpoint : c ≠ '.') : c ∉ unsigned f m unit := by
  intro hc
  rcases isDigit_of_mem_unsigned hc with hdigit | hc
  · rw [h] at hdigit
    cases hdigit
  · exact hpoint hc

theorem toList_text_infinite (f : Format) (negative : Bool) :
    (text f (.infinite negative)).toList =
      (if negative then ['-'] else []) ++ ['i', 'n', 'f'] := by
  cases negative <;> simp [text]

/-- What the text of a number is written with, infinite ones included. -/
theorem mem_text {f : Format} {d : Datum} {c : Char}
    (hd : ∀ negative fraction, d ≠ .nan negative fraction) (h : c ∈ (text f d).toList) :
    c.isDigit = true ∨ c ∈ ['.', '-', 'i', 'n', 'f'] := by
  have hsign : ∀ negative : Bool, c ∈ (if negative then ['-'] else []) → c = '-' := by
    intro negative hc
    split at hc
    · exact List.mem_singleton.1 hc
    · cases hc
  cases d with
  | nan negative fraction => exact absurd rfl (hd negative fraction)
  | infinite negative =>
    rw [toList_text_infinite, List.mem_append] at h
    rcases h with h | h
    · rw [hsign negative h]
      exact .inr (by decide)
    · exact .inr (List.mem_cons_of_mem _ (List.mem_cons_of_mem _ h))
  | finite negative m unit =>
    rw [toList_text_finite, List.mem_append] at h
    rcases h with h | h
    · rw [hsign negative h]
      exact .inr (by decide)
    · rcases isDigit_of_mem_unsigned h with h | rfl
      · exact .inl h
      · exact .inr (by decide)

/-- Texts of magnitudes with signs in front. -/
theorem eq_of_signed {s t : List Char} {negative negative' : Bool} (hs : '-' ∉ s) (ht : '-' ∉ t)
    (h : (if negative then ['-'] else []) ++ s = (if negative' then ['-'] else []) ++ t) :
    negative = negative' ∧ s = t := by
  cases negative <;> cases negative'
  · exact ⟨rfl, h⟩
  · change s = '-' :: t at h
    exact absurd (h ▸ List.mem_cons_self) hs
  · change '-' :: s = t at h
    exact absurd (h ▸ List.mem_cons_self) ht
  · exact ⟨rfl, List.tail_eq_of_cons_eq h⟩

/-- The text of a number of a format is no other number's. -/
theorem eq_of_text {f : Format} {a b : Nat}
    (ha : ∀ negative fraction, f.read a ≠ .nan negative fraction)
    (hb : ∀ negative fraction, f.read b ≠ .nan negative fraction)
    (h : text f (f.read a) = text f (f.read b)) : f.read a = f.read b := by
  have hlist := congrArg String.toList h
  have hinf : '-' ∉ ['i', 'n', 'f'] := by decide
  have hunsigned : ∀ m unit, '-' ∉ unsigned f m unit := fun m unit =>
    not_mem_unsigned rfl (by decide)
  have hletter : ∀ m unit, ['i', 'n', 'f'] ≠ unsigned f m unit := by
    intro m unit heq
    have hnot : 'i' ∉ unsigned f m unit := not_mem_unsigned rfl (by decide)
    exact hnot (heq ▸ List.mem_cons_self)
  cases hra : f.read a with
  | nan negative fraction => exact absurd hra (ha negative fraction)
  | infinite negative =>
    cases hrb : f.read b with
    | nan negative' fraction => exact absurd hrb (hb negative' fraction)
    | infinite negative' =>
      rw [hra, hrb, toList_text_infinite, toList_text_infinite] at hlist
      rw [(eq_of_signed hinf hinf hlist).1]
    | finite negative' m unit =>
      rw [hra, hrb, toList_text_infinite, toList_text_finite] at hlist
      exact absurd (eq_of_signed hinf (hunsigned m unit) hlist).2 (hletter m unit)
  | finite negative m unit =>
    cases hrb : f.read b with
    | nan negative' fraction => exact absurd hrb (hb negative' fraction)
    | infinite negative' =>
      rw [hra, hrb, toList_text_infinite, toList_text_finite] at hlist
      exact absurd (eq_of_signed (hunsigned m unit) hinf hlist).2.symm (hletter m unit)
    | finite negative' m' unit' =>
      rw [hra, hrb, toList_text_finite, toList_text_finite] at hlist
      obtain ⟨rfl, hsame⟩ := eq_of_signed (hunsigned m unit) (hunsigned m' unit') hlist
      -- One text lies in both rounding intervals.
      have hm' := holds_unsigned f m' unit'
      rw [← hsame] at hm'
      obtain ⟨rfl, rfl⟩ := Interval.eq_of_holds (Format.canonical_of_read hra)
        (Format.canonical_of_read hrb) (holds_unsigned f m unit) hm'
      rfl

end Decimal

/-! ## Both widths -/

theorem Binary32.eq_of_toNat {x y : Binary32} (h : x.bits.toNat = y.bits.toNat) : x = y :=
  congrArg mk (UInt32.toNat_inj.1 h)

theorem Binary32.eq_of_datum {x y : Binary32} (h : x.datum = y.datum) : x = y :=
  eq_of_toNat (Format.read_injective (f := .single) x.bits.toNat_lt y.bits.toNat_lt h)

theorem Binary32.datum_ne_nan {x : Binary32} (h : x.isNaN = false) (negative : Bool)
    (fraction : Nat) : x.datum ≠ .nan negative fraction := by
  intro hnan
  rw [isNaN, hnan] at h
  cases h

theorem Binary32.eq_of_text {x y : Binary32} (hx : x.isNaN = false) (hy : y.isNaN = false)
    (h : x.text = y.text) : x = y :=
  eq_of_datum (Decimal.eq_of_text (datum_ne_nan hx) (datum_ne_nan hy) h)

theorem Binary32.mem_text {x : Binary32} {c : Char} (hx : x.isNaN = false)
    (h : c ∈ x.text.toList) : c.isDigit = true ∨ c ∈ ['.', '-', 'i', 'n', 'f'] :=
  Decimal.mem_text (datum_ne_nan hx) h

theorem Binary64.eq_of_toNat {x y : Binary64} (h : x.bits.toNat = y.bits.toNat) : x = y :=
  congrArg mk (UInt64.toNat_inj.1 h)

theorem Binary64.eq_of_datum {x y : Binary64} (h : x.datum = y.datum) : x = y :=
  eq_of_toNat (Format.read_injective (f := .double) x.bits.toNat_lt y.bits.toNat_lt h)

theorem Binary64.datum_ne_nan {x : Binary64} (h : x.isNaN = false) (negative : Bool)
    (fraction : Nat) : x.datum ≠ .nan negative fraction := by
  intro hnan
  rw [isNaN, hnan] at h
  cases h

theorem Binary64.eq_of_text {x y : Binary64} (hx : x.isNaN = false) (hy : y.isNaN = false)
    (h : x.text = y.text) : x = y :=
  eq_of_datum (Decimal.eq_of_text (datum_ne_nan hx) (datum_ne_nan hy) h)

theorem Binary64.mem_text {x : Binary64} {c : Char} (hx : x.isNaN = false)
    (h : c ∈ x.text.toList) : c.isDigit = true ∨ c ∈ ['.', '-', 'i', 'n', 'f'] :=
  Decimal.mem_text (datum_ne_nan hx) h

end SeriesWire
