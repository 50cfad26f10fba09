/-
Reading back what was laid side by side.  A payload is put together with `++`,
`fit` and `overwrite`, and taken apart with `take`, `drop` and `slice`; these
lemmas say where the parts are found again.
-/
import SeriesWire.Bytes

namespace SeriesWire
namespace Bytes

theorem space_two : space 2 = 65536 := rfl

theorem space_four : space 4 = 4294967296 := rfl

theorem space_eight : space 8 = 18446744073709551616 := rfl

/-! ## Slices -/

theorem length_slice (bs : Bytes) (start len : Nat) :
    (slice bs start len).length = min len (bs.length - start) := by
  simp [slice]

theorem length_slice_of_le {bs : Bytes} {start len : Nat} (h : start + len ≤ bs.length) :
    (slice bs start len).length = len := by
  rw [length_slice]
  omega

theorem slice_append (a b c : Bytes) : slice (a ++ (b ++ c)) a.length b.length = b := by
  rw [slice, List.drop_left, List.take_left]

theorem slice_append_add (a b : Bytes) (start len : Nat) :
    slice (a ++ b) (a.length + start) len = slice b start len := by
  rw [slice, slice, List.drop_length_add_append]

theorem slice_append_of_le {a : Bytes} {start len : Nat} (h : start + len ≤ a.length) (b : Bytes) :
    slice (a ++ b) start len = slice a start len := by
  rw [slice, slice, List.drop_append_of_le_length (by omega),
    List.take_append_of_le_length (by rw [List.length_drop]; omega)]

theorem slice_zero (bs : Bytes) (len : Nat) : slice bs 0 len = bs.take len := by
  rw [slice, List.drop_zero]

theorem slice_slice {bs : Bytes} {start len start' len' : Nat} (h : start' + len' ≤ len) :
    slice (slice bs start len) start' len' = slice bs (start + start') len' := by
  simp only [slice]
  rw [List.drop_take, List.take_take, List.drop_drop, Nat.min_eq_left (by omega)]

theorem drop_eq_slice_append (bs : Bytes) (start len : Nat) :
    bs.drop start = slice bs start len ++ bs.drop (start + len) := by
  rw [slice, ← List.drop_drop, List.take_append_drop]

/-! ## Parts behind each other -/

theorem flatten_eq_append {parts : List Bytes} {i : Nat} (hi : i < parts.length) :
    parts.flatten = (parts.take i).flatten ++ (parts[i] ++ (parts.drop (i + 1)).flatten) := by
  rw [← List.flatten_cons, ← List.drop_eq_getElem_cons hi, ← List.flatten_append,
    List.take_append_drop]

/-- A part starts where the parts in front of it end. -/
theorem slice_flatten {parts : List Bytes} {i : Nat} (hi : i < parts.length) :
    slice parts.flatten (parts.take i).flatten.length parts[i].length = parts[i] := by
  rw [flatten_eq_append hi, slice_append]

theorem slice_flatten_le {parts : List Bytes} {i : Nat} (hi : i < parts.length) :
    (parts.take i).flatten.length + parts[i].length ≤ parts.flatten.length := by
  rw [flatten_eq_append hi, List.length_append, List.length_append]
  omega

theorem length_flatten_take_succ {parts : List Bytes} {i : Nat} (hi : i < parts.length) :
    (parts.take (i + 1)).flatten.length = (parts.take i).flatten.length + parts[i].length := by
  rw [← List.take_append_getElem hi, List.flatten_append, List.length_append,
    List.flatten_singleton]

theorem totalLen_take_add_le {α : Type} (f : α → Nat) {l : List α} {k : Nat} (hk : k < l.length) :
    totalLen ((l.take k).map f) + f l[k] ≤ totalLen (l.map f) := by
  induction l generalizing k with
  | nil => exact absurd hk (Nat.not_lt_zero k)
  | cons a l ih =>
    rw [List.map_cons, totalLen_cons]
    cases k with
    | zero => exact Nat.le_trans (Nat.le_of_eq (Nat.zero_add _)) (Nat.le_add_right _ _)
    | succ k =>
      have hrest := ih (Nat.lt_of_succ_lt_succ hk)
      rw [List.take_succ_cons, List.map_cons, totalLen_cons, List.getElem_cons_succ]
      omega

theorem length_flatten_of_length {parts : List Bytes} {n : Nat}
    (hlen : ∀ part ∈ parts, part.length = n) : parts.flatten.length = parts.length * n := by
  induction parts with
  | nil => exact (Nat.zero_mul n).symm
  | cons part parts ih =>
    obtain ⟨hpart, hparts⟩ := List.forall_mem_cons.1 hlen
    rw [List.flatten_cons, List.length_append, ih hparts, hpart, List.length_cons, Nat.succ_mul,
      Nat.add_comm]

theorem slice_flatten_of_length {parts : List Bytes} {n i : Nat}
    (hlen : ∀ part ∈ parts, part.length = n) (hi : i < parts.length) :
    slice parts.flatten (i * n) n = parts[i] := by
  have hfound := slice_flatten hi
  rwa [length_flatten_of_length (fun part hpart => hlen part (List.mem_of_mem_take hpart)),
    List.length_take, Nat.min_eq_left (Nat.le_of_lt hi), hlen _ (List.getElem_mem hi)] at hfound

/-! ## Filling up -/

@[simp] theorem fit_nil (width : Nat) : fit width [] = zeros width := by
  simp [fit]

theorem fit_eq_self {bs : Bytes} {width : Nat} (h : bs.length = width) : fit width bs = bs := by
  subst h
  simp [fit, zeros]

theorem fit_eq_append {bs : Bytes} {width : Nat} (h : bs.length ≤ width) :
    fit width bs = bs ++ zeros (width - bs.length) := by
  rw [fit, List.take_of_length_le h]

theorem zeros_add (m n : Nat) : zeros (m + n) = zeros m ++ zeros n :=
  List.replicate_append_replicate.symm

/-- Zeros behind bytes are filled up like no bytes. -/
theorem fit_append_zeros {bs : Bytes} {n width : Nat} (h : bs.length + n ≤ width) :
    fit width (bs ++ zeros n) = fit width bs := by
  have hlen : width - bs.length = n + (width - (bs.length + n)) := by omega
  rw [fit_eq_append (by rw [List.length_append, length_zeros]; exact h), fit_eq_append (by omega),
    List.length_append, length_zeros, hlen, zeros_add, List.append_assoc]

theorem take_fit {bs : Bytes} {n width : Nat} (h : n ≤ bs.length) (hw : n ≤ width) :
    (fit width bs).take n = bs.take n := by
  rw [fit, List.take_append_of_le_length (by rw [List.length_take]; omega), List.take_take,
    Nat.min_eq_left hw]

theorem fit_take (width : Nat) (bs : Bytes) : fit width (bs.take width) = fit width bs := by
  rw [fit, fit, List.take_take, Nat.min_self, List.length_take]
  congr 2
  omega

theorem fit_fit {narrow wide : Nat} (h : narrow ≤ wide) (bs : Bytes) :
    fit wide (fit narrow bs) = fit wide (bs.take narrow) := by
  have hfit : (fit narrow bs).length ≤ wide := by rw [length_fit]; exact h
  have hcut : (bs.take narrow).length ≤ wide := by rw [List.length_take]; omega
  rw [fit_eq_append hfit, fit_eq_append hcut, length_fit, fit, List.append_assoc, zeros, zeros,
    List.replicate_append_replicate, List.length_take]
  congr 2
  omega

theorem eq_append_zeros {a b : Bytes} {m n : Nat} (hlen : a.length ≤ b.length)
    (h : a ++ zeros m = b ++ zeros n) : b = a ++ zeros (b.length - a.length) := by
  have hcut := congrArg (List.take b.length) h
  have hle : b.length - a.length ≤ m := by
    have htotal := congrArg List.length h
    rw [List.length_append, List.length_append, length_zeros, length_zeros] at htotal
    omega
  rw [List.take_left, List.take_append, List.take_of_length_le hlen, zeros, List.take_replicate,
    Nat.min_eq_left hle] at hcut
  exact hcut.symm

/-- Slots of one width are alike if what they keep differs in NULs at the end. -/
theorem fit_eq_fit_iff {a b : Bytes} {width : Nat} :
    a.fit width = b.fit width ↔
      ∃ n, b.take width = a.take width ++ zeros n ∨ a.take width = b.take width ++ zeros n := by
  have hfit : ∀ bs : Bytes,
      bs.fit width = bs.take width ++ zeros (width - (bs.take width).length) := by
    intro bs
    rw [fit, List.length_take]
    congr 2
    omega
  have hpadded : ∀ c d : Bytes, ∀ n, d.take width = c.take width ++ zeros n →
      c.fit width = d.fit width := by
    intro c d n h
    have hlen : (d.take width).length ≤ width := by
      rw [List.length_take]
      exact Nat.min_le_left _ _
    rw [hfit c, hfit d]
    rw [h, List.length_append, length_zeros] at hlen ⊢
    rw [List.append_assoc, zeros, zeros, zeros, List.replicate_append_replicate]
    congr 2
    omega
  constructor
  · intro h
    rw [hfit a, hfit b] at h
    rcases Nat.le_total (a.take width).length (b.take width).length with hlen | hlen
    · exact ⟨_, .inl (eq_append_zeros hlen h)⟩
    · exact ⟨_, .inr (eq_append_zeros hlen h.symm)⟩
  · rintro ⟨n, h | h⟩
    · exact hpadded a b n h
    · exact (hpadded b a n h).symm

theorem eq_of_fit {a b : Bytes} {natural width : Nat} (ha : a.length = natural)
    (hb : b.length = natural) (hwidth : natural ≤ width) (h : a.fit width = b.fit width) :
    a = b := by
  have hkept := congrArg (List.take natural) h
  rwa [take_fit (by omega) hwidth, take_fit (by omega) hwidth, List.take_of_length_le (by omega),
    List.take_of_length_le (by omega)] at hkept

/-! ## Texts before a NUL -/

theorem beforeNul_append_zero (bs rest : Bytes) :
    beforeNul (bs ++ 0 :: rest) = beforeNul bs := by
  rw [beforeNul, beforeNul]
  induction bs with
  | nil => rfl
  | cons b bs ih =>
    rw [List.cons_append, List.takeWhile_cons, List.takeWhile_cons]
    by_cases hb : (b != 0) = true
    · rw [if_pos hb, if_pos hb, ih]
    · rw [if_neg hb, if_neg hb]

theorem beforeNul_append_zeros (bs : Bytes) (n : Nat) :
    beforeNul (bs ++ zeros n) = beforeNul bs := by
  cases n with
  | zero => rw [zeros, List.replicate_zero, List.append_nil]
  | succ n => rw [zeros, List.replicate_succ, beforeNul_append_zero]

/-- Padding is invisible to a reader that stops at the first NUL. -/
theorem beforeNul_fit (width : Nat) (bs : Bytes) :
    beforeNul (fit width bs) = beforeNul (bs.take width) :=
  beforeNul_append_zeros _ _

theorem beforeNul_eq_self {bs : Bytes} (h : 0 ∉ bs) : beforeNul bs = bs := by
  induction bs with
  | nil => rfl
  | cons b bs ih =>
    rw [List.mem_cons, not_or] at h
    obtain ⟨hb, hbs⟩ := h
    rw [beforeNul, List.takeWhile_cons, if_pos (bne_iff_ne.2 (Ne.symm hb))]
    exact congrArg _ (ih hbs)

/-- A text that ends in its bytes ends there whatever comes behind them. -/
theorem beforeNul_append {bs : Bytes} (h : (beforeNul bs).length < bs.length) (extra : Bytes) :
    beforeNul (bs ++ extra) = beforeNul bs := by
  rw [beforeNul] at h
  rw [beforeNul, List.takeWhile_append, if_neg (by omega), beforeNul]

theorem zero_not_mem_beforeNul (bs : Bytes) : 0 ∉ beforeNul bs := by
  intro hmem
  have hall := List.all_eq_true.1 (List.all_takeWhile (p := (· != 0)) (l := bs)) 0 hmem
  cases hall

/-- What stands behind a text that ends is the NUL that ends it. -/
theorem eq_append_of_drop_beforeNul {bs tail : Bytes} {b : UInt8}
    (h : bs.drop (beforeNul bs).length = b :: tail) : bs = beforeNul bs ++ 0 :: tail := by
  rw [beforeNul] at h ⊢
  induction bs with
  | nil => cases h
  | cons first bs ih =>
    rw [List.takeWhile_cons] at h ⊢
    by_cases hfirst : (first != 0) = true
    · rw [if_pos hfirst, List.length_cons, List.drop_succ_cons] at h
      rw [if_pos hfirst, List.cons_append, ← ih h]
    · rw [if_neg hfirst] at h ⊢
      rw [bne_iff_ne, ne_eq, Decidable.not_not] at hfirst
      subst hfirst
      obtain ⟨-, rfl⟩ := List.cons.inj h
      rfl

/-! ## Overwriting -/

theorem take_overwrite_of_le {bs : Bytes} {start n : Nat} (hn : n ≤ start)
    (hs : start ≤ bs.length) (src : Bytes) : (overwrite bs start src).take n = bs.take n := by
  rw [overwrite, List.append_assoc,
    List.take_append_of_le_length (by rw [List.length_take]; omega), List.take_take,
    Nat.min_eq_left hn]

/-- What was laid out ends the bytes that count. -/
theorem take_overwrite {bs : Bytes} {start : Nat} (h : start ≤ bs.length) (src : Bytes) :
    (overwrite bs start src).take (start + src.length) = bs.take start ++ src := by
  have hlen : (bs.take start ++ src).length = start + src.length := by
    rw [List.length_append, List.length_take, Nat.min_eq_left h]
  rw [overwrite, ← hlen, List.take_left]

theorem overwrite_append {old new : Bytes} (h : new.length = old.length) (a c : Bytes) :
    overwrite (a ++ (old ++ c)) a.length new = a ++ (new ++ c) := by
  rw [overwrite, List.take_left, List.drop_length_add_append, h, List.drop_left,
    List.append_assoc]

theorem take_overwrite_comm {bs src : Bytes} {start n : Nat} (h : start + src.length ≤ n)
    (hn : n ≤ bs.length) : (overwrite bs start src).take n = overwrite (bs.take n) start src := by
  have hlen : (bs.take start ++ src).length = start + src.length := by
    rw [List.length_append, List.length_take]
    omega
  rw [overwrite, overwrite, List.take_append, hlen, List.take_take, Nat.min_eq_left (by omega),
    List.take_of_length_le (by omega), List.drop_take]

/-- What stands behind the bytes that are laid out is left alone. -/
theorem drop_overwrite {bs src : Bytes} {start n : Nat} (hs : start ≤ bs.length)
    (h : start + src.length ≤ n) : (overwrite bs start src).drop n = bs.drop n := by
  have hlen : (bs.take start ++ src).length = start + src.length := by
    rw [List.length_append, List.length_take, Nat.min_eq_left hs]
  rw [overwrite, List.drop_append, List.drop_of_length_le (by omega), List.nil_append, hlen,
    List.drop_drop, Nat.add_sub_cancel' h]

/-- Bytes laid out behind others that were laid out. -/
theorem overwrite_overwrite {bs front back : Bytes} {start next : Nat}
    (hnext : start + front.length = next) (h : next + back.length ≤ bs.length) :
    overwrite (overwrite bs start front) next back = overwrite bs start (front ++ back) := by
  subst hnext
  rw [overwrite, take_overwrite (by omega), drop_overwrite (by omega) (Nat.le_add_right _ _),
    overwrite, List.length_append, Nat.add_assoc, List.append_assoc _ front back]

/-! ## Numbers -/

@[simp] theorem length_ofIntBE (width : Nat) (n : Int) : (ofIntBE width n).length = width := by
  rw [ofIntBE, List.length_reverse, length_ofIntLE]

theorem toNatLE_ofNatLE_of_lt {width n : Nat} (h : n < space width) :
    toNatLE (ofNatLE width n) = n := by
  rw [toNatLE_ofNatLE, Nat.mod_eq_of_lt h]

theorem toNatBE_ofNatBE_of_lt {width n : Nat} (h : n < space width) :
    toNatBE (ofNatBE width n) = n := by
  rw [toNatBE_ofNatBE, Nat.mod_eq_of_lt h]

/-- Read as a signed number, what is written comes out modulo the space. -/
theorem toIntBE_ofNatBE (width n : Nat) : toIntBE (ofNatBE width n) = Int.bmod n (space width) := by
  rw [toIntBE, toIntLE, ofNatBE, List.reverse_reverse, length_ofNatLE, toNatLE_ofNatLE,
    Int.natCast_emod, Int.emod_bmod]

theorem toNatBE_lt (bs : Bytes) : toNatBE bs < space bs.length := by
  have h := toNatLE_lt bs.reverse
  rwa [List.length_reverse] at h

theorem eq_ofNatLE {bs : Bytes} {width n : Nat} (hlen : bs.length = width) (hn : bs.toNatLE = n) :
    bs = ofNatLE width n := by
  subst hlen hn
  exact (ofNatLE_toNatLE bs).symm

theorem take_ofNatLE {narrow wide : Nat} (h : narrow ≤ wide) (n : Nat) :
    (ofNatLE wide n).take narrow = ofNatLE narrow n := by
  induction narrow generalizing wide n with
  | zero => rfl
  | succ narrow ih =>
    obtain ⟨wide, rfl⟩ : ∃ w, wide = w + 1 := ⟨wide - 1, by omega⟩
    rw [ofNatLE, ofNatLE, List.take_succ_cons, ih (by omega)]

theorem ofIntLE_injective {width : Nat} {m n : Int} (hm : FitsInt width m) (hn : FitsInt width n)
    (h : ofIntLE width m = ofIntLE width n) : m = n := by
  rw [← toIntLE_ofIntLE hm, h, toIntLE_ofIntLE hn]

theorem ofNatLE_injective {width m n : Nat} (hm : m < space width) (hn : n < space width)
    (h : ofNatLE width m = ofNatLE width n) : m = n := by
  rw [← toNatLE_ofNatLE_of_lt hm, h, toNatLE_ofNatLE_of_lt hn]

theorem fitsInt_toIntBE (bs : Bytes) : FitsInt bs.length bs.toIntBE := by
  have hpos := space_pos bs.length
  have hlow := Int.le_bmod (x := toNatLE bs.reverse) hpos
  have hhigh := Int.bmod_lt (x := toNatLE bs.reverse) hpos
  rw [FitsInt, toIntBE, toIntLE, List.length_reverse]
  omega

theorem ofIntBE_toIntBE (bs : Bytes) : ofIntBE bs.length bs.toIntBE = bs := by
  have hlt := toNatLE_lt bs.reverse
  have hback := ofNatLE_toNatLE bs.reverse
  rw [List.length_reverse] at hlt hback
  have hmod : Int.bmod (toNatLE bs.reverse) (space bs.length) % (space bs.length : Int) =
      toNatLE bs.reverse := by
    rw [Int.bmod_emod, Int.emod_eq_of_lt (by omega) (by omega)]
  rw [ofIntBE, ofIntLE, toIntBE, toIntLE, List.length_reverse, hmod, Int.toNat_natCast, hback,
    List.reverse_reverse]

theorem fitsInt_toIntLE (bs : Bytes) : FitsInt bs.length bs.toIntLE := by
  have hfits := fitsInt_toIntBE bs.reverse
  rwa [toIntBE, List.reverse_reverse, List.length_reverse] at hfits

theorem eq_of_toIntLE {bs bs' : Bytes} (hlen : bs.length = bs'.length)
    (h : bs.toIntLE = bs'.toIntLE) : bs = bs' := by
  have hback := ofIntBE_toIntBE bs.reverse
  have hback' := ofIntBE_toIntBE bs'.reverse
  rw [toIntBE, List.reverse_reverse, List.length_reverse] at hback hback'
  rw [hlen, h, hback'] at hback
  exact (List.reverse_inj.1 hback).symm

/-! Numbers of a fixed width keep what their bytes spell. -/

theorem toNatBE_lt_space {bs : Bytes} {width : Nat} (hlen : bs.length = width) :
    bs.toNatBE < space width := hlen ▸ toNatBE_lt bs

theorem fitsInt_of_length {bs : Bytes} {width : Nat} (hlen : bs.length = width) :
    FitsInt width bs.toIntBE := hlen ▸ fitsInt_toIntBE bs

/-- A signed number has half of the numbers of its width on either side of zero. -/
theorem fitsInt_iff {width : Nat} {n : Int} (half : Int) (hspace : (space width : Int) = 2 * half) :
    FitsInt width n ↔ -half ≤ n ∧ n < half := by
  rw [FitsInt, hspace]
  omega

theorem fitsInt_int16 (n : Int16) : FitsInt 2 n.toInt :=
  (fitsInt_iff 32768 rfl).2 ⟨n.le_toInt, n.toInt_lt⟩

theorem fitsInt_int32 (n : Int32) : FitsInt 4 n.toInt :=
  (fitsInt_iff 2147483648 rfl).2 ⟨n.le_toInt, n.toInt_lt⟩

theorem fitsInt_toInt (n : Int64) : FitsInt 8 n.toInt :=
  (fitsInt_iff 9223372036854775808 rfl).2 ⟨n.le_toInt, n.toInt_lt⟩

theorem toInt_int16 {n : Int} (h : FitsInt 2 n) : (Int16.ofInt n).toInt = n := by
  obtain ⟨hlow, hhigh⟩ := (fitsInt_iff 32768 rfl).1 h
  exact Int16.toInt_ofInt_of_le hlow hhigh

theorem toInt_int32 {n : Int} (h : FitsInt 4 n) : (Int32.ofInt n).toInt = n := by
  obtain ⟨hlow, hhigh⟩ := (fitsInt_iff 2147483648 rfl).1 h
  exact Int32.toInt_ofInt_of_le hlow hhigh

theorem toInt_int64 {n : Int} (h : FitsInt 8 n) : (Int64.ofInt n).toInt = n := by
  obtain ⟨hlow, hhigh⟩ := (fitsInt_iff 9223372036854775808 rfl).1 h
  exact Int64.toInt_ofInt_of_le hlow hhigh

end Bytes
end SeriesWire
