/-
How far a block can expand.  Every step of a decompressor takes bytes off the
block, and produces at most 255 bytes for each byte it takes: a length grows by
255 only where a byte 255 is read.  Hence no block holds more than 255 times its
own length.
-/
import SeriesWire.Compression

namespace SeriesWire
namespace Block

variable {limit offset count : Nat} {src src' : Bytes} {out out' : Array UInt8}

theorem literal?_eq_some (h : literal? limit count src out = some (src', out')) :
    src'.length + count = src.length ∧ out'.size = out.size + count := by
  simp only [literal?] at h
  split at h
  next => cases h
  next hroom =>
    cases h
    simp only [List.length_take] at hroom
    simp only [List.length_drop, Array.size_append, List.size_toArray, List.length_take]
    omega

theorem reference?_eq_some (h : reference? limit offset count out = some out') :
    out'.size = out.size + count := by
  rw [reference?] at h
  split at h
  · cases h
  · cases h
    exact size_copyBack offset count out

end Block

namespace Lz4

variable {limit fuel n m : Nat} {src src' : Bytes} {out out' : Array UInt8}

theorem extend?_eq_some (h : extend? n src = some (m, src')) :
    m + 255 * src'.length < n + 255 * src.length := by
  induction src generalizing n with
  | nil => cases h
  | cons b src ih =>
    rw [extend?] at h
    rw [List.length_cons]
    split at h
    next =>
      have := ih h
      omega
    next hb =>
      cases h
      have hlt := b.toNat_lt
      have hne : b.toNat ≠ 255 := fun hb' => hb (UInt8.toNat_inj.1 hb')
      omega

theorem length?_eq_some (hn : n < 16) (h : length? n src = some (m, src')) :
    m + 255 * src'.length ≤ 15 + 255 * src.length := by
  rw [length?] at h
  split at h
  next =>
    have := extend?_eq_some h
    omega
  next =>
    cases h
    omega

/-- A sequence takes its token and, unless it is the last one, an offset; that
pays for the shortest match and for what half a token can say. -/
theorem size_sequences? (h : sequences? limit fuel src out = some out') :
    out'.size ≤ out.size + 255 * src.length := by
  induction fuel generalizing src out with
  | zero => cases h
  | succ fuel ih =>
    cases src with
    | nil => cases h
    | cons token src =>
      have htoken := token.toNat_lt
      simp only [sequences?, Option.bind_eq_bind, Option.bind_eq_some_iff, Prod.exists] at h
      obtain ⟨count, src₁, hlength, src₂, out₁, hliteral, h⟩ := h
      have hcount := length?_eq_some (by omega) hlength
      obtain ⟨hsrc, hout⟩ := Block.literal?_eq_some hliteral
      rw [List.length_cons]
      match src₂, h with
      | [], h =>
        cases h
        omega
      | low :: high :: src₃, h =>
        simp only [Option.bind_eq_some_iff, Prod.exists] at h
        obtain ⟨extra, src₄, hextra, out₂, hreference, h⟩ := h
        have hmatch := length?_eq_some (by omega) hextra
        have hsize := Block.reference?_eq_some hreference
        have hrest := ih h
        rw [List.length_cons, List.length_cons] at hsrc
        rw [minMatch] at hsize
        omega

end Lz4

namespace Snappy

variable {limit fuel most width tag n m : Nat} {src src' : Bytes} {out out' : Array UInt8}

theorem varint?_eq_some (h : varint? most src = some (n, src')) : src'.length < src.length := by
  induction most generalizing src n with
  | zero => cases h
  | succ most ih =>
    cases src with
    | nil => cases h
    | cons b src =>
      rw [varint?] at h
      rw [List.length_cons]
      split at h
      · cases h
        omega
      · obtain ⟨⟨n', rest⟩, hrest, heq⟩ := Option.map_eq_some_iff.1 h
        cases heq
        have := ih hrest
        omega

theorem header?_eq_some (h : header? src = some (n, src')) : src'.length < src.length := by
  obtain ⟨h, -⟩ := Option.filter_eq_some_iff.1 h
  obtain ⟨⟨n', rest⟩, hrest, heq⟩ := Option.map_eq_some_iff.1 h
  cases heq
  exact varint?_eq_some hrest

theorem number?_eq_some (h : number? width src = some (n, src')) : src'.length ≤ src.length := by
  simp only [number?] at h
  split at h
  · cases h
  · cases h
    rw [List.length_drop]
    omega

theorem literalLength?_eq_some (h : literalLength? n src = some (m, src')) :
    src'.length ≤ src.length := by
  rw [literalLength?] at h
  split at h
  · cases h
    exact Nat.le_refl _
  · obtain ⟨⟨n', rest⟩, hrest, heq⟩ := Option.map_eq_some_iff.1 h
    cases heq
    exact number?_eq_some hrest

/-- The tag alone pays for any back reference, which is 64 bytes long at most. -/
theorem element?_eq_some (htag : tag < 256) (h : element? limit tag src out = some (src', out')) :
    out'.size + 255 * src'.length ≤ out.size + 255 * (src.length + 1) := by
  rw [element?] at h
  split at h
  · simp only [Option.bind_eq_bind, Option.bind_eq_some_iff, Prod.exists] at h
    obtain ⟨count, src₁, hcount, hliteral⟩ := h
    have hsrc := literalLength?_eq_some hcount
    obtain ⟨hlen, hsize⟩ := Block.literal?_eq_some hliteral
    omega
  · simp only [Option.bind_eq_bind, Option.bind_eq_some_iff, Prod.exists] at h
    obtain ⟨low, src₁, hlow, out₁, hreference, heq⟩ := h
    cases heq
    have hsrc := number?_eq_some hlow
    have hsize := Block.reference?_eq_some hreference
    omega
  · simp only [Option.bind_eq_bind, Option.bind_eq_some_iff, Prod.exists] at h
    obtain ⟨offset, src₁, hoffset, out₁, hreference, heq⟩ := h
    cases heq
    have hsrc := number?_eq_some hoffset
    have hsize := Block.reference?_eq_some hreference
    omega

theorem size_elements? (h : elements? limit fuel src out = some out') :
    out'.size ≤ out.size + 255 * src.length := by
  induction fuel generalizing src out with
  | zero =>
    cases src with
    | nil =>
      cases h
      omega
    | cons tag src => cases h
  | succ fuel ih =>
    cases src with
    | nil =>
      cases h
      omega
    | cons tag src =>
      simp only [elements?, Option.bind_eq_bind, Option.bind_eq_some_iff, Prod.exists] at h
      obtain ⟨src₁, out₁, helement, hrest⟩ := h
      have hstep := element?_eq_some tag.toNat_lt helement
      have := ih hrest
      rw [List.length_cons]
      omega

end Snappy

/-- No block of either codec holds more than 255 times its own length. -/
theorem Codec.length_decompress? {codec : Codec} {limit : Nat} {block content : Bytes}
    (h : codec.decompress? limit block = some content) : content.length ≤ 255 * block.length := by
  cases codec with
  | lz4 =>
    obtain ⟨out, hout, rfl⟩ := Option.map_eq_some_iff.1 h
    have := Lz4.size_sequences? hout
    rw [Array.length_toList]
    simpa using this
  | snappy =>
    obtain ⟨⟨announced, elements⟩, hheader, h⟩ := Option.bind_eq_some_iff.1 h
    obtain ⟨-, -, h⟩ := Option.bind_eq_some_iff.1 h
    obtain ⟨out, hout, h⟩ := Option.bind_eq_some_iff.1 h
    obtain ⟨-, -, heq⟩ := Option.bind_eq_some_iff.1 h
    cases heq
    have hlen := Snappy.header?_eq_some hheader
    have hsize := Snappy.size_elements? hout
    rw [Array.length_toList]
    simp only [List.size_toArray, List.length_nil] at hsize
    omega

end SeriesWire
