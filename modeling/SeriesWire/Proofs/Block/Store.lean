/-
Stored blocks.  Each codec has a form that holds any bytes as they are, in one
literal; the decompressor of the codec gives these bytes back.
-/
import SeriesWire.Compression
import SeriesWire.Proofs.Slices

namespace SeriesWire

open Bytes

theorem Block.literal?_length {limit : Nat} {src : Bytes} (h : src.length ≤ limit) :
    literal? limit src.length src #[] = some ([], src.toArray) := by
  simp only [literal?, List.take_length, List.drop_length, List.size_toArray, List.length_nil]
  rw [if_neg (by omega)]
  simp

namespace Lz4

theorem extend?_replicate {b : UInt8} (hb : b ≠ 255) (count length : Nat) (rest : Bytes) :
    extend? length (List.replicate count 255 ++ b :: rest) =
      some (length + 255 * count + b.toNat, rest) := by
  induction count generalizing length with
  | zero =>
    rw [List.replicate_zero, List.nil_append, extend?, if_neg hb]
    rfl
  | succ count ih =>
    rw [List.replicate_succ, List.cons_append, extend?, if_pos rfl, ih,
      show length + 255 + 255 * count = length + 255 * (count + 1) by omega]

theorem extend?_continuation (n : Nat) (rest : Bytes) :
    extend? 15 (continuation n ++ rest) = some (15 + n, rest) := by
  have hlast : (UInt8.ofNat (n % 255)).toNat = n % 255 := by
    rw [UInt8.toNat_ofNat']
    omega
  have hb : UInt8.ofNat (n % 255) ≠ 255 := by
    intro hb
    rw [hb] at hlast
    have h255 : (255 : UInt8).toNat = 255 := rfl
    omega
  rw [continuation, List.append_assoc, List.singleton_append, extend?_replicate hb, hlast,
    show 15 + 255 * (n / 255) + n % 255 = 15 + n by omega]

theorem sequences?_literal {limit fuel : Nat} {token : UInt8} {src head : Bytes}
    (hlength : length? (token.toNat / 16) (head ++ src) = some (src.length, src))
    (hlimit : src.length ≤ limit) :
    sequences? limit (fuel + 1) (token :: (head ++ src)) #[] = some src.toArray := by
  simp only [sequences?, hlength, Option.bind_eq_bind, Option.bind_some,
    Block.literal?_length hlimit]

theorem decompress?_store {limit : Nat} {src : Bytes} (h : src.length ≤ limit) :
    decompress? limit (store src) = some src := by
  by_cases hshort : src.length < 15
  · have htoken : (UInt8.ofNat (src.length * 16)).toNat / 16 = src.length := by
      rw [UInt8.toNat_ofNat']
      omega
    have hlength : length? ((UInt8.ofNat (src.length * 16)).toNat / 16) ([] ++ src) =
        some (src.length, src) := by
      rw [htoken, length?, if_neg (by omega), List.nil_append]
    have hstore : store src = UInt8.ofNat (src.length * 16) :: ([] ++ src) := by
      rw [store, if_pos hshort]
      rfl
    rw [decompress?, hstore, List.length_cons, sequences?_literal hlength h]
    rfl
  · have hlength : length? ((UInt8.ofNat (15 * 16)).toNat / 16)
        (continuation (src.length - 15) ++ src) = some (src.length, src) := by
      show extend? 15 _ = _
      rw [extend?_continuation, show 15 + (src.length - 15) = src.length by omega]
    have hstore : store src =
        UInt8.ofNat (15 * 16) :: (continuation (src.length - 15) ++ src) := by
      rw [store, if_neg hshort]
      rfl
    rw [decompress?, hstore, List.length_cons, sequences?_literal hlength h]
    rfl

end Lz4

namespace Snappy

theorem varint?_small {most n : Nat} (hn : n < 128) (rest : Bytes) :
    varint? (most + 1) (UInt8.ofNat n :: rest) = some (n, rest) := by
  have hbyte : (UInt8.ofNat n).toNat = n := by
    rw [UInt8.toNat_ofNat']
    omega
  have hlt : UInt8.ofNat n < 128 := by
    rw [UInt8.lt_iff_toNat_lt, hbyte]
    exact hn
  rw [varint?, if_pos hlt, hbyte]

/-- There is room for every group that was written. -/
theorem varint?_varint {most most' n : Nat} (hmost : most ≤ most')
    (hn : n < Nat.pow 128 (most + 1)) (rest : Bytes) :
    varint? (most' + 1) (varint (most + 1) n ++ rest) = some (n, rest) := by
  induction most generalizing most' n with
  | zero =>
    have hn' : n < 128 := hn
    rw [varint, if_pos hn', List.singleton_append]
    exact varint?_small hn' rest
  | succ most ih =>
    by_cases hsmall : n < 128
    · rw [varint, if_pos hsmall, List.singleton_append]
      exact varint?_small hsmall rest
    obtain ⟨most', rfl⟩ : ∃ k, most' = k + 1 := ⟨most' - 1, by omega⟩
    have hdiv : n / 128 < Nat.pow 128 (most + 1) := by
      rw [Nat.div_lt_iff_lt_mul (by decide)]
      exact hn
    have hbyte : (UInt8.ofNat (n % 128 + 128)).toNat = n % 128 + 128 := by
      rw [UInt8.toNat_ofNat']
      omega
    have hge : ¬UInt8.ofNat (n % 128 + 128) < 128 := by
      rw [UInt8.lt_iff_toNat_lt, hbyte, Nat.not_lt]
      exact Nat.le_add_left 128 _
    rw [varint, if_neg hsmall, List.cons_append, varint?, if_neg hge,
      ih (by omega) hdiv, hbyte, Option.map_some]
    show some ((n % 128 + 128) % 128 + 128 * (n / 128), rest) = _
    rw [show (n % 128 + 128) % 128 + 128 * (n / 128) = n by omega]

theorem header?_varint {n : Nat} (hn : n < space 4) (rest : Bytes) :
    header? (varint 5 n ++ rest) = some (n, rest) := by
  have hgroups : n < Nat.pow 128 5 := Nat.lt_trans hn (by decide)
  have hbits : n % space 8 = n := Nat.mod_eq_of_lt (Nat.lt_trans hn (by decide))
  rw [header?, @varint?_varint 4 9 n (by omega) hgroups rest, Option.map_some]
  simp only [hbits]
  rw [Option.filter_some, if_pos (decide_eq_true hn)]

theorem number?_ofNatLE {width n : Nat} (hn : n < space width) (rest : Bytes) :
    number? width (ofNatLE width n ++ rest) = some (n, rest) := by
  have htake : (ofNatLE width n ++ rest).take width = ofNatLE width n :=
    List.take_left' (length_ofNatLE width n)
  simp only [number?]
  rw [htake, length_ofNatLE, if_neg (Nat.lt_irrefl width), toNatLE_ofNatLE_of_lt hn,
    List.drop_left' (length_ofNatLE width n)]

theorem elements?_literal {limit fuel : Nat} {tag : UInt8} {src head : Bytes}
    (htag : tag.toNat % 4 = 0)
    (hlength : literalLength? (tag.toNat / 4) (head ++ src) = some (src.length, src))
    (hlimit : src.length ≤ limit) :
    elements? limit (fuel + 1) (tag :: (head ++ src)) #[] = some src.toArray := by
  simp only [elements?, element?, htag, hlength, Option.bind_eq_bind, Option.bind_some,
    Block.literal?_length hlimit]

theorem elements?_store {src literal : Bytes} (hn : src.length < space 4)
    (hliteral : literal = if src.length = 0 then []
      else if src.length ≤ 60 then [UInt8.ofNat ((src.length - 1) * 4)]
      else UInt8.ofNat (63 * 4) :: ofNatLE 4 (src.length - 1)) :
    elements? src.length (literal ++ src).length (literal ++ src) #[] = some src.toArray := by
  subst hliteral
  by_cases hnone : src.length = 0
  · rw [if_pos hnone, List.eq_nil_of_length_eq_zero hnone]
    rfl
  rw [if_neg hnone]
  by_cases hshort : src.length ≤ 60
  · have htag : (UInt8.ofNat ((src.length - 1) * 4)).toNat = (src.length - 1) * 4 := by
      rw [UInt8.toNat_ofNat']
      omega
    have hlength : literalLength? ((UInt8.ofNat ((src.length - 1) * 4)).toNat / 4) ([] ++ src) =
        some (src.length, src) := by
      rw [htag, literalLength?, if_pos (by omega), List.nil_append,
        show (src.length - 1) * 4 / 4 + 1 = src.length by omega]
    rw [if_pos hshort]
    exact elements?_literal (by rw [htag]; omega) hlength (Nat.le_refl _)
  · have hlength : literalLength? ((UInt8.ofNat (63 * 4)).toNat / 4)
        (ofNatLE 4 (src.length - 1) ++ src) = some (src.length, src) := by
      show ((number? 4 (ofNatLE 4 (src.length - 1) ++ src)).map fun r => (r.1 + 1, r.2)) = _
      rw [number?_ofNatLE (by omega), Option.map_some]
      show some (src.length - 1 + 1, src) = _
      rw [Nat.sub_add_cancel (by omega)]
    rw [if_neg hshort]
    exact elements?_literal (by decide) hlength (Nat.le_refl _)

theorem decompress?_store {limit : Nat} {src : Bytes} (hn : src.length < space 4)
    (h : src.length ≤ limit) : decompress? limit (store src) = some src := by
  have hout := elements?_store hn rfl
  have hlimit : (guard (src.length ≤ limit) : Option Unit) = some () := if_pos h
  have hsize : (guard (src.toArray.size = src.length) : Option Unit) = some () := if_pos rfl
  rw [decompress?, store, List.append_assoc, header?_varint hn, Option.bind_eq_bind,
    Option.bind_some]
  dsimp only
  rw [hlimit, hout, Option.bind_eq_bind, Option.bind_some, Option.bind_eq_bind, Option.bind_some,
    hsize]
  rfl

end Snappy

theorem Codec.decompress?_compress {codec : Codec} {limit : Nat} {src : Bytes}
    (hn : src.length < space 4) (h : src.length ≤ limit) :
    codec.decompress? limit (codec.compress src) = some src := by
  cases codec with
  | lz4 => exact Lz4.decompress?_store h
  | snappy => exact Snappy.decompress?_store hn h

end SeriesWire
