/-
Escaped texts.  `Closed` is what the parts of a group key have in common: every
comma stands behind a backslash and no backslash is left open, so parts that were
joined with commas come apart in one way.  A text is escaped into such a part, and
`unescape` gives its bytes back.
-/
import SeriesWire.Payload.GroupKey
import SeriesWire.Proofs.Text.Utf8

namespace SeriesWire

namespace Hex

def value (c : Char) : Nat := if c.toNat < 58 then c.toNat - 48 else c.toNat - 87

theorem value_digit {n : Nat} (h : n < 16) : value (digit n) = n := by
  have hall : ∀ k < 16, value (digit k) = k := by decide
  exact hall n h

theorem ofNat_digits (b : UInt8) :
    UInt8.ofNat (16 * value (digit (b.toNat / 16)) + value (digit (b.toNat % 16))) = b := by
  have hb := b.toNat_lt
  rw [value_digit (by omega), value_digit (by omega), Nat.div_add_mod, UInt8.ofNat_toNat]

theorem ofByte_injective {a b : UInt8} (h : ofByte a = ofByte b) : a = b := by
  obtain ⟨hhigh, hlow⟩ := List.cons.inj h
  rw [← ofNat_digits a, ← ofNat_digits b, hhigh, List.head_eq_of_cons_eq hlow]

theorem ofBytes_injective {as bs : Bytes} (hlen : as.length = bs.length)
    (h : ofBytes as = ofBytes bs) : as = bs := by
  induction as generalizing bs with
  | nil => exact (List.eq_nil_of_length_eq_zero hlen.symm).symm
  | cons a as ih =>
    cases bs with
    | nil => cases hlen
    | cons b bs =>
      obtain ⟨hfirst, hrest⟩ := List.append_inj h rfl
      rw [ofByte_injective hfirst, ih (Nat.succ.inj hlen) hrest]

theorem plain_ofByte (b : UInt8) {c : Char} (h : c ∈ ofByte b) : c ≠ '\\' ∧ c ≠ ',' := by
  have hdigit : ∀ k < 16, digit k ≠ '\\' ∧ digit k ≠ ',' := by decide
  have hb := b.toNat_lt
  rw [ofByte, List.mem_cons, List.mem_singleton] at h
  rcases h with rfl | rfl
  · exact hdigit _ (by omega)
  · exact hdigit _ (by omega)

end Hex

namespace GroupKey

/-! ## Parts -/

/-- No comma is bare, and no backslash is left open. -/
inductive Closed : List Char → Prop
  | nil : Closed []
  | plain {c : Char} {cs : List Char} : c ≠ '\\' → c ≠ ',' → Closed cs → Closed (c :: cs)
  | escaped {c : Char} {cs : List Char} : Closed cs → Closed ('\\' :: c :: cs)

theorem Closed.append {s t : List Char} (hs : Closed s) (ht : Closed t) : Closed (s ++ t) := by
  induction hs with
  | nil => exact ht
  | plain hslash hcomma _ ih => exact .plain hslash hcomma ih
  | escaped _ ih => exact .escaped ih

theorem closed_of_plain {s : List Char} (h : ∀ c ∈ s, c ≠ '\\' ∧ c ≠ ',') : Closed s := by
  induction s with
  | nil => exact .nil
  | cons c s ih =>
    obtain ⟨hc, hs⟩ := List.forall_mem_cons.1 h
    exact .plain hc.1 hc.2 (ih hs)

/-- The first bare comma ends a part. -/
theorem Closed.split {s t u v : List Char} (hs : Closed s) (ht : Closed t)
    (h : s ++ ',' :: u = t ++ ',' :: v) : s = t ∧ u = v := by
  -- Each step of `s` leaves one first character to `t`, and so one step.
  induction hs generalizing t with
  | nil =>
    cases ht with
    | nil => exact ⟨rfl, List.tail_eq_of_cons_eq h⟩
    | plain _ hcomma _ => exact absurd (List.head_eq_of_cons_eq h).symm hcomma
    | escaped _ => exact absurd (List.head_eq_of_cons_eq h) (by decide)
  | plain hslash hcomma _ ih =>
    cases ht with
    | nil => exact absurd (List.head_eq_of_cons_eq h) hcomma
    | plain _ _ ht =>
      rw [List.cons_append, List.cons_append] at h
      obtain ⟨rfl, hrest⟩ := List.cons.inj h
      obtain ⟨rfl, rfl⟩ := ih ht hrest
      exact ⟨rfl, rfl⟩
    | escaped _ => exact absurd (List.head_eq_of_cons_eq h) hslash
  | escaped _ ih =>
    cases ht with
    | nil => exact absurd (List.head_eq_of_cons_eq h) (by decide)
    | plain hslash _ _ => exact absurd (List.head_eq_of_cons_eq h).symm hslash
    | escaped ht =>
      rw [List.cons_append, List.cons_append, List.cons_append, List.cons_append] at h
      obtain ⟨-, htail⟩ := List.cons.inj h
      obtain ⟨rfl, hrest⟩ := List.cons.inj htail
      obtain ⟨rfl, rfl⟩ := ih ht hrest
      exact ⟨rfl, rfl⟩

/-- As many parts joined with commas are the same parts. -/
theorem eq_of_join {ps qs : List (List Char)} (hlen : ps.length = qs.length)
    (hps : ∀ s ∈ ps, Closed s) (hqs : ∀ s ∈ qs, Closed s)
    (h : [','].intercalate ps = [','].intercalate qs) : ps = qs := by
  induction ps generalizing qs with
  | nil => exact (List.eq_nil_of_length_eq_zero hlen.symm).symm
  | cons p ps ih =>
    cases qs with
    | nil => cases hlen
    | cons q qs =>
      obtain ⟨hp, hps'⟩ := List.forall_mem_cons.1 hps
      obtain ⟨hq, hqs'⟩ := List.forall_mem_cons.1 hqs
      have hrestLen : ps.length = qs.length := Nat.succ.inj hlen
      cases ps with
      | nil =>
        cases List.eq_nil_of_length_eq_zero hrestLen.symm
        rw [List.intercalate_singleton, List.intercalate_singleton] at h
        rw [h]
      | cons p' ps =>
        cases qs with
        | nil => cases hrestLen
        | cons q' qs =>
          rw [List.intercalate_cons_cons, List.intercalate_cons_cons, List.append_assoc,
            List.append_assoc] at h
          obtain ⟨rfl, hrest⟩ := Closed.split hp hq h
          rw [ih hrestLen hps' hqs' hrest]

/-! ## Texts -/

/-- The bytes that an escaped text stands for. -/
def unescape : List Char → Bytes
  | [] => []
  | '\\' :: 'x' :: high :: low :: rest =>
    UInt8.ofNat (16 * Hex.value high + Hex.value low) :: unescape rest
  | '\\' :: c :: rest => String.utf8EncodeChar c ++ unescape rest
  | c :: rest => String.utf8EncodeChar c ++ unescape rest

theorem unescape_hexEscape (bs : Bytes) (rest : List Char) :
    unescape (hexEscape bs ++ rest) = bs ++ unescape rest := by
  induction bs with
  | nil => rfl
  | cons b bs ih =>
    have hfirst : hexEscape (b :: bs) ++ rest =
        '\\' :: 'x' :: Hex.digit (b.toNat / 16) :: Hex.digit (b.toNat % 16) ::
          (hexEscape bs ++ rest) := rfl
    rw [hfirst, unescape, Hex.ofNat_digits, ih]
    rfl

theorem unescape_plain {c : Char} (hc : c ≠ '\\') (rest : List Char) :
    unescape (c :: rest) = String.utf8EncodeChar c ++ unescape rest := by
  rw [unescape]
  · intro _ _ _ hslash
    exact absurd hslash hc
  · intro _ _ hslash
    exact absurd hslash hc

theorem unescape_escapeChunk {chunk : Utf8.Chunk}
    (h : ∀ c spelling, chunk = .char c spelling → spelling = String.utf8EncodeChar c)
    (rest : List Char) : unescape (escapeChunk chunk ++ rest) = chunk.bytes ++ unescape rest := by
  cases chunk with
  | bad bytes cut => exact unescape_hexEscape bytes rest
  | char c spelling =>
    have hspelling := h c spelling rfl
    by_cases hslash : c = '\\'
    · subst hslash hspelling
      rfl
    by_cases hcomma : c = ','
    · subst hcomma hspelling
      rfl
    rw [escapeChunk]
    split
    · exact unescape_hexEscape spelling rest
    · rw [hspelling]
      exact unescape_plain hslash rest
    · exact hslash
    · exact hcomma

/-- Escaping can be undone. -/
theorem unescape_ofText (text : Bytes) : unescape (ofText text) = text := by
  have hall : ∀ cs : List Utf8.Chunk,
      (∀ chunk ∈ cs, ∀ c spelling, chunk = .char c spelling → spelling = String.utf8EncodeChar c) →
      unescape (cs.flatMap escapeChunk) = cs.flatMap Utf8.Chunk.bytes := by
    intro cs h
    induction cs with
    | nil => rfl
    | cons chunk cs ih =>
      obtain ⟨hchunk, hcs⟩ := List.forall_mem_cons.1 h
      rw [List.flatMap_cons, List.flatMap_cons, unescape_escapeChunk hchunk, ih hcs]
  rw [ofText, hall, Utf8.flatMap_bytes_chunks]
  rintro _ hchunk c spelling rfl
  exact Utf8.spelling_of_mem_chunks hchunk

theorem closed_hexEscape (bs : Bytes) : Closed (hexEscape bs) := by
  induction bs with
  | nil => exact .nil
  | cons b bs ih => exact .escaped ((closed_of_plain fun c => Hex.plain_ofByte b).append ih)

theorem closed_escapeChunk (chunk : Utf8.Chunk) : Closed (escapeChunk chunk) := by
  cases chunk with
  | bad bytes cut => exact closed_hexEscape bytes
  | char c spelling =>
    by_cases hslash : c = '\\'
    · subst hslash
      exact .escaped .nil
    by_cases hcomma : c = ','
    · subst hcomma
      exact .escaped .nil
    rw [escapeChunk]
    split
    · exact closed_hexEscape spelling
    · exact .plain hslash hcomma .nil
    · exact hslash
    · exact hcomma

theorem closed_ofText (text : Bytes) : Closed (ofText text) := by
  rw [ofText]
  induction Utf8.chunks text with
  | nil => exact .nil
  | cons chunk cs ih =>
    rw [List.flatMap_cons]
    exact (closed_escapeChunk chunk).append ih

end GroupKey
end SeriesWire
