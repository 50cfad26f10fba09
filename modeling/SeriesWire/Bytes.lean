/-
Byte strings are lists of octets.  Besides slices and writes at an offset, this
module fixes the two byte orders: `ofNatLE` and `toNatLE` are inverse up to the
width (`toNatLE_ofNatLE`), and the big-endian pair is the same read backwards.
-/

namespace SeriesWire

abbrev Bytes := List UInt8

namespace Bytes

def zeros (n : Nat) : Bytes := List.replicate n 0

/-- The low `width` bytes of `n`, least significant first. -/
def ofNatLE : Nat → Nat → Bytes
  | 0, _ => []
  | width + 1, n => UInt8.ofNat n :: ofNatLE width (n / 256)

def toNatLE : Bytes → Nat
  | [] => 0
  | b :: bs => b.toNat + 256 * toNatLE bs

def ofNatBE (width n : Nat) : Bytes := (ofNatLE width n).reverse

def toNatBE (bs : Bytes) : Nat := toNatLE bs.reverse

/-- How many numbers there are in `width` bytes. -/
def space (width : Nat) : Nat := Nat.pow 256 width

/-- Two's complement of `n` in `width` bytes, least significant first. -/
def ofIntLE (width : Nat) (n : Int) : Bytes := ofNatLE width (n % space width).toNat

/-- The number that `bs` is the two's complement of. -/
def toIntLE (bs : Bytes) : Int := Int.bmod (toNatLE bs) (space bs.length)

def FitsInt (width : Nat) (n : Int) : Prop := -(space width) ≤ 2 * n ∧ 2 * n < space width

instance (width : Nat) (n : Int) : Decidable (FitsInt width n) :=
  inferInstanceAs (Decidable (_ ∧ _))

def ofIntBE (width : Nat) (n : Int) : Bytes := (ofIntLE width n).reverse

def toIntBE (bs : Bytes) : Int := toIntLE bs.reverse

/-- The part of `bs` that starts at `start`, `len` bytes of it where there are
as many. -/
def slice (bs : Bytes) (start len : Nat) : Bytes := (bs.drop start).take len

/-- Replace the bytes from `start` on by `src`.  The length stays the same
whenever `src` fits. -/
def overwrite (bs : Bytes) (start : Nat) (src : Bytes) : Bytes :=
  bs.take start ++ src ++ bs.drop (start + src.length)

/-- Cut to `width` bytes, or fill up with zeros. -/
def fit (width : Nat) (bs : Bytes) : Bytes := bs.take width ++ zeros (width - bs.length)

/-- The part in front of the first NUL, everything if there is none. -/
def beforeNul (bs : Bytes) : Bytes := bs.takeWhile (· != 0)

/-- The length of parts of the given lengths, put together. -/
def totalLen (lengths : List Nat) : Nat := lengths.foldr (· + ·) 0

@[simp] theorem totalLen_nil : totalLen [] = 0 := rfl

@[simp] theorem totalLen_cons (n : Nat) (rest : List Nat) :
    totalLen (n :: rest) = n + totalLen rest := rfl

@[simp] theorem space_zero : space 0 = 1 := rfl

theorem space_succ (width : Nat) : space (width + 1) = 256 * space width :=
  Nat.mul_comm _ _

@[simp] theorem length_zeros (n : Nat) : (zeros n).length = n := by simp [zeros]

@[simp] theorem length_ofNatLE (width n : Nat) : (ofNatLE width n).length = width := by
  induction width generalizing n with
  | zero => rfl
  | succ w ih => simp [ofNatLE, ih]

@[simp] theorem length_ofNatBE (width n : Nat) : (ofNatBE width n).length = width := by
  simp [ofNatBE]

@[simp] theorem length_ofIntLE (width : Nat) (n : Int) : (ofIntLE width n).length = width := by
  simp [ofIntLE]

@[simp] theorem length_fit (width : Nat) (bs : Bytes) : (fit width bs).length = width := by
  simp [fit]; omega

theorem toNatLE_ofNatLE (width n : Nat) : toNatLE (ofNatLE width n) = n % space width := by
  induction width generalizing n with
  | zero => simp [ofNatLE, toNatLE, Nat.mod_one]
  | succ w ih =>
    rw [ofNatLE, toNatLE, ih, space_succ, Nat.mod_mul]
    simp

theorem toNatBE_ofNatBE (width n : Nat) : toNatBE (ofNatBE width n) = n % space width := by
  simp [toNatBE, ofNatBE, toNatLE_ofNatLE]

theorem ofNatLE_toNatLE (bs : Bytes) : ofNatLE bs.length (toNatLE bs) = bs := by
  induction bs with
  | nil => rfl
  | cons b rest ih =>
    have hb := b.toNat_lt
    have hmod : (b.toNat + 256 * toNatLE rest) / 256 = toNatLE rest := by omega
    rw [List.length_cons, toNatLE, ofNatLE, hmod, ih]
    congr 1
    apply UInt8.toNat_inj.1
    simp

theorem space_pos (width : Nat) : 0 < space width := Nat.pow_pos (by decide)

theorem toNatLE_lt (bs : Bytes) : toNatLE bs < space bs.length := by
  induction bs with
  | nil => decide
  | cons b rest ih =>
    have hb := b.toNat_lt
    rw [toNatLE, List.length_cons, space_succ]
    omega

theorem ofNatBE_toNatBE (bs : Bytes) : ofNatBE bs.length (toNatBE bs) = bs := by
  have h := ofNatLE_toNatLE bs.reverse
  rw [List.length_reverse] at h
  rw [ofNatBE, toNatBE, h, List.reverse_reverse]

theorem toIntLE_ofIntLE {width : Nat} {n : Int} (h : FitsInt width n) :
    toIntLE (ofIntLE width n) = n := by
  have hpos := space_pos width
  have hnonneg : 0 ≤ n % (space width : Int) := Int.emod_nonneg n (by omega)
  have hlt : n % (space width : Int) < space width := Int.emod_lt_of_pos n (by omega)
  have hmod : (n % (space width : Int)).toNat % space width = (n % (space width : Int)).toNat :=
    Nat.mod_eq_of_lt (by omega)
  rw [toIntLE, ofIntLE, length_ofNatLE, toNatLE_ofNatLE, hmod, Int.toNat_of_nonneg hnonneg,
    Int.emod_bmod]
  obtain ⟨hlow, hhigh⟩ := h
  exact Int.bmod_eq_of_le_mul_two (by omega) (by omega)

theorem toIntBE_ofIntBE {width : Nat} {n : Int} (h : FitsInt width n) :
    toIntBE (ofIntBE width n) = n := by
  rw [toIntBE, ofIntBE, List.reverse_reverse, toIntLE_ofIntLE h]

theorem length_overwrite {bs src : Bytes} {start : Nat} (h : start + src.length ≤ bs.length) :
    (overwrite bs start src).length = bs.length := by
  simp [overwrite]; omega

end Bytes
end SeriesWire
