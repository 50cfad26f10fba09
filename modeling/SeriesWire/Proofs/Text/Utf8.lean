/-
Spelling out and reading.  A spelt character is one chunk, so the chunks of a
spelt text are its characters, and strict reading gives the text back.  The other
way round, a character that was read stands for the bytes it is spelt with, and
a text that was read is spelt as it stood there.
-/
import SeriesWire.Proofs.Outcomes
import SeriesWire.Text.Utf8

namespace SeriesWire
namespace Utf8

theorem follow_ofNat {value low high n : Nat} (hlow : low ≤ n) (hhigh : n ≤ high) (hn : n < 256)
    (taken : Bytes) (following : Nat) (rest : Bytes) :
    follow taken value low high (following + 1) (UInt8.ofNat n :: rest) =
      follow (UInt8.ofNat n :: taken) (value * 64 + n % 64) 0x80 0xbf following rest := by
  have htoNat : (UInt8.ofNat n).toNat = n := UInt8.toNat_ofNat_of_lt' hn
  rw [follow, htoNat, if_pos ⟨hlow, hhigh⟩]

theorem front_ofNat {n following low high bits : Nat} (hn : n < 256)
    (hl : lead? n = some ⟨following, low, high, bits⟩) (rest : Bytes) :
    front (UInt8.ofNat n) rest = follow [UInt8.ofNat n] bits low high following rest := by
  have htoNat : (UInt8.ofNat n).toNat = n := UInt8.toNat_ofNat_of_lt' hn
  rw [front, htoNat, hl]

theorem lead?_two {n : Nat} (hlow : 0xc2 ≤ n) (hhigh : n < 0xe0) :
    lead? n = some ⟨1, 0x80, 0xbf, n - 0xc0⟩ := by
  rw [lead?, if_neg (by omega), if_pos ⟨hlow, hhigh⟩]

/-- What the leading byte of a code point `v` of three bytes asks for. -/
theorem lead?_three {v : Nat} (hlow : 0x800 ≤ v) (hhigh : v ≤ 0xffff)
    (hv : v < 0xd800 ∨ 0xdfff < v) :
    ∃ low high, lead? (v / 4096 + 0xe0) = some ⟨2, low, high, v / 4096⟩ ∧
      low ≤ v / 64 % 64 + 0x80 ∧ v / 64 % 64 + 0x80 ≤ high := by
  unfold lead?
  rw [if_neg (by omega), if_neg (by omega)]
  by_cases hfirst : v / 4096 + 0xe0 = 0xe0
  · refine ⟨0xa0, 0xbf, ?_, by omega, by omega⟩
    rw [if_pos hfirst, show v / 4096 = 0 by omega]
  rw [if_neg hfirst]
  by_cases hsurrogate : v / 4096 + 0xe0 = 0xed
  · refine ⟨0x80, 0x9f, ?_, by omega, by omega⟩
    rw [if_pos hsurrogate, show v / 4096 = 0xd by omega]
  · refine ⟨0x80, 0xbf, ?_, by omega, by omega⟩
    rw [if_neg hsurrogate, if_pos (by omega), Nat.add_sub_cancel]

/-- What the leading byte of a code point `v` of four bytes asks for. -/
theorem lead?_four {v : Nat} (hlow : 0x10000 ≤ v) (hhigh : v < 0x110000) :
    ∃ low high, lead? (v / 262144 + 0xf0) = some ⟨3, low, high, v / 262144⟩ ∧
      low ≤ v / 4096 % 64 + 0x80 ∧ v / 4096 % 64 + 0x80 ≤ high := by
  unfold lead?
  rw [if_neg (by omega), if_neg (by omega), if_neg (by omega), if_neg (by omega),
    if_neg (by omega)]
  by_cases hfirst : v / 262144 + 0xf0 = 0xf0
  · refine ⟨0x90, 0xbf, ?_, by omega, by omega⟩
    rw [if_pos hfirst, show v / 262144 = 0 by omega]
  rw [if_neg hfirst]
  by_cases hlast : v / 262144 + 0xf0 = 0xf4
  · refine ⟨0x80, 0x8f, ?_, by omega, by omega⟩
    rw [if_neg (by omega), if_pos hlast, show v / 262144 = 4 by omega]
  · refine ⟨0x80, 0xbf, ?_, by omega, by omega⟩
    rw [if_pos (by omega), Nat.add_sub_cancel]

theorem front_utf8EncodeChar (c : Char) (rest : Bytes) :
    ∃ b following, String.utf8EncodeChar c = b :: following ∧
      front b (following ++ rest) = .char c (String.utf8EncodeChar c) := by
  have hofNat : Char.ofNat c.val.toNat = c := Char.ofNat_toNat c
  have hvalid : c.val.toNat < 0xd800 ∨ (0xdfff < c.val.toNat ∧ c.val.toNat < 0x110000) := c.valid
  generalize hv : c.val.toNat = v at hofNat hvalid
  rw [String.utf8EncodeChar]
  simp only [hv]
  by_cases h1 : v ≤ 0x7f
  · rw [if_pos h1]
    refine ⟨_, [], rfl, ?_⟩
    have hlead : lead? v = some ⟨0, 0, 0, v⟩ := by rw [lead?, if_pos (by omega)]
    rw [front_ofNat (by omega) hlead, follow, hofNat]
    rfl
  rw [if_neg h1]
  by_cases h2 : v ≤ 0x7ff
  · rw [if_pos h2, Nat.mod_eq_of_lt (by omega : v / 64 < 0x20)]
    refine ⟨_, _, rfl, ?_⟩
    rw [front_ofNat (by omega) (lead?_two (by omega) (by omega)), List.cons_append,
      follow_ofNat (by omega) (by omega) (by omega), follow]
    have hvalue : (v / 64 + 0xc0 - 0xc0) * 64 + (v % 0x40 + 0x80) % 64 = v := by omega
    simp only [hvalue, hofNat]
    rfl
  rw [if_neg h2]
  by_cases h3 : v ≤ 0xffff
  · rw [if_pos h3, Nat.mod_eq_of_lt (by omega : v / 4096 < 0x10)]
    obtain ⟨low, high, hlead, hlow, hhigh⟩ := lead?_three (by omega) h3 (by omega)
    refine ⟨_, _, rfl, ?_⟩
    rw [front_ofNat (by omega) hlead, List.cons_append, follow_ofNat hlow hhigh (by omega),
      List.cons_append, follow_ofNat (by omega) (by omega) (by omega), follow]
    have hvalue :
        (v / 4096 * 64 + (v / 64 % 64 + 0x80) % 64) * 64 + (v % 0x40 + 0x80) % 64 = v := by
      omega
    simp only [hvalue, hofNat]
    rfl
  · rw [if_neg h3, Nat.mod_eq_of_lt (by omega : v / 262144 < 0x08)]
    obtain ⟨low, high, hlead, hlow, hhigh⟩ := lead?_four (v := v) (by omega) (by omega)
    refine ⟨_, _, rfl, ?_⟩
    rw [front_ofNat (by omega) hlead, List.cons_append, follow_ofNat hlow hhigh (by omega),
      List.cons_append, follow_ofNat (by omega) (by omega) (by omega), List.cons_append,
      follow_ofNat (by omega) (by omega) (by omega), follow]
    have hvalue : ((v / 262144 * 64 + (v / 4096 % 64 + 0x80) % 64) * 64 +
        (v / 64 % 0x40 + 0x80) % 64) * 64 + (v % 0x40 + 0x80) % 64 = v := by omega
    simp only [hvalue, hofNat]
    rfl

theorem chunks_utf8EncodeChar (c : Char) (rest : Bytes) :
    chunks (String.utf8EncodeChar c ++ rest) =
      .char c (String.utf8EncodeChar c) :: chunks rest := by
  obtain ⟨b, following, hspelling, hfront⟩ := front_utf8EncodeChar c rest
  rw [hspelling] at hfront ⊢
  rw [List.cons_append, chunks_cons, hfront, Chunk.bytes, List.length_cons, Nat.add_sub_cancel,
    List.drop_left]

theorem chunks_encode (s : String) :
    chunks (encode s) = s.toList.map fun c => .char c (String.utf8EncodeChar c) := by
  rw [encode]
  induction s.toList with
  | nil => rfl
  | cons c cs ih => rw [List.flatMap_cons, chunks_utf8EncodeChar, ih, List.map_cons]

theorem characters_map_char (index : Nat) (done cs : List Char) :
    characters index done (cs.map fun c => .char c (String.utf8EncodeChar c)) =
      .ok (done.reverse ++ cs) := by
  induction cs generalizing index done with
  | nil => rw [List.map_nil, characters, List.append_nil]
  | cons c cs ih =>
    rw [List.map_cons, characters, ih, List.reverse_cons, List.append_assoc, List.singleton_append]

/-- A spelt text is read as itself. -/
theorem decode_encode (s : String) : decode (encode s) = .ok s := by
  rw [decode, chunks_encode, characters_map_char, List.reverse_nil, List.nil_append]
  exact congrArg Except.ok String.ofList_toList

/-! ## What was read

A spelling is read by its leading byte; every character has one spelling. -/

theorem follow_zero_eq_char {taken : Bytes} {value low high : Nat} {rest : Bytes} {c : Char}
    {spelling : Bytes} (h : follow taken value low high 0 rest = .char c spelling) :
    c = Char.ofNat value ∧ spelling = taken.reverse := by
  rw [follow] at h
  cases h
  exact ⟨rfl, rfl⟩

theorem follow_succ_eq_char {taken : Bytes} {value low high following : Nat} {rest : Bytes}
    {c : Char} {spelling : Bytes}
    (h : follow taken value low high (following + 1) rest = .char c spelling) :
    ∃ b rest', low ≤ b.toNat ∧ b.toNat ≤ high ∧
      follow (b :: taken) (value * 64 + b.toNat % 64) 0x80 0xbf following rest' =
        .char c spelling := by
  cases rest with
  | nil =>
    rw [follow] at h
    cases h
  | cons b rest =>
    rw [follow] at h
    split at h
    next hb => exact ⟨b, rest, hb.1, hb.2, h⟩
    next => cases h

theorem toNat_charOfNat {v : Nat} (h : v.isValidChar) : (Char.ofNat v).val.toNat = v := by
  rw [Char.ofNat, dif_pos h]
  exact UInt32.toNat_ofNatLT

/-- A leading byte by the number of bytes that follow it. -/
theorem lead?_eq_some {b : Nat} {l : Lead} (h : lead? b = some l) :
    (l.following = 0 ∧ l.bits = b ∧ b < 0x80) ∨
      (l.following = 1 ∧ b = l.bits + 0xc0 ∧ 2 ≤ l.bits ∧ l.bits < 0x20 ∧ l.low = 0x80 ∧
        l.high = 0xbf) ∨
      (l.following = 2 ∧ b = l.bits + 0xe0 ∧ l.bits < 0x10 ∧ 0x80 ≤ l.low ∧ l.high ≤ 0xbf ∧
        (l.bits = 0 → 0xa0 ≤ l.low) ∧ (l.bits = 0xd → l.high ≤ 0x9f)) ∨
      (l.following = 3 ∧ b = l.bits + 0xf0 ∧ l.bits ≤ 4 ∧ 0x80 ≤ l.low ∧ l.high ≤ 0xbf ∧
        (l.bits = 0 → 0x90 ≤ l.low) ∧ (l.bits = 4 → l.high ≤ 0x8f)) := by
  unfold lead? at h
  repeat' split at h
  all_goals first
    | cases h
      simp
      omega
    | cases h


theorem byte_eq {n : Nat} {b : UInt8} (h : n = b.toNat) : UInt8.ofNat n = b := by
  rw [h, UInt8.ofNat_toNat]

/-- A character that was read is spelt in the one way there is. -/
theorem spelling_of_front {b : UInt8} {rest : Bytes} {c : Char} {spelling : Bytes}
    (h : front b rest = .char c spelling) : spelling = String.utf8EncodeChar c := by
  rw [front] at h
  split at h
  next => cases h
  next l hl =>
    obtain ⟨following, low, high, bits⟩ := l
    rcases lead?_eq_some hl with ⟨hf, hbits, hb⟩ | ⟨hf, hb, hlow, hhigh, rfl, rfl⟩ |
      ⟨hf, hb, hbits, hlow, hhigh, hfirst, hsurrogate⟩ | ⟨hf, hb, hbits, hlow, hhigh, hfirst, hlast⟩
    all_goals
      dsimp only at *
      subst hf
    · obtain ⟨rfl, rfl⟩ := follow_zero_eq_char h
      have hv := toNat_charOfNat (v := bits) (.inl (by omega))
      simp only [String.utf8EncodeChar, hv]
      rw [if_pos (by omega), byte_eq hbits]
      rfl
    · obtain ⟨b₁, _, hlow₁, hhigh₁, h⟩ := follow_succ_eq_char h
      obtain ⟨rfl, rfl⟩ := follow_zero_eq_char h
      have hv := toNat_charOfNat (v := bits * 64 + b₁.toNat % 64) (.inl (by omega))
      simp only [String.utf8EncodeChar, hv]
      rw [if_neg (by omega), if_pos (by omega), byte_eq (b := b) (by omega),
        byte_eq (b := b₁) (by omega)]
      rfl
    · obtain ⟨b₁, _, hlow₁, hhigh₁, h⟩ := follow_succ_eq_char h
      obtain ⟨b₂, _, hlow₂, hhigh₂, h⟩ := follow_succ_eq_char h
      obtain ⟨rfl, rfl⟩ := follow_zero_eq_char h
      have hvalid : ((bits * 64 + b₁.toNat % 64) * 64 + b₂.toNat % 64).isValidChar := by
        rw [Nat.isValidChar]
        omega
      have hv := toNat_charOfNat hvalid
      simp only [String.utf8EncodeChar, hv]
      rw [if_neg (by omega), if_neg (by omega), if_pos (by omega), byte_eq (b := b) (by omega),
        byte_eq (b := b₁) (by omega), byte_eq (b := b₂) (by omega)]
      rfl
    · obtain ⟨b₁, _, hlow₁, hhigh₁, h⟩ := follow_succ_eq_char h
      obtain ⟨b₂, _, hlow₂, hhigh₂, h⟩ := follow_succ_eq_char h
      obtain ⟨b₃, _, hlow₃, hhigh₃, h⟩ := follow_succ_eq_char h
      obtain ⟨rfl, rfl⟩ := follow_zero_eq_char h
      have hvalid : (((bits * 64 + b₁.toNat % 64) * 64 + b₂.toNat % 64) * 64 +
          b₃.toNat % 64).isValidChar := by
        rw [Nat.isValidChar]
        omega
      have hv := toNat_charOfNat hvalid
      simp only [String.utf8EncodeChar, hv]
      rw [if_neg (by omega), if_neg (by omega), if_neg (by omega), byte_eq (b := b) (by omega),
        byte_eq (b := b₁) (by omega), byte_eq (b := b₂) (by omega), byte_eq (b := b₃) (by omega)]
      rfl

/-- A character that was read is spelt in the one way there is. -/
theorem spelling_of_mem_chunks {bs : Bytes} {c : Char} {spelling : Bytes}
    (h : .char c spelling ∈ chunks bs) : spelling = String.utf8EncodeChar c := by
  induction hlen : bs.length using Nat.strongRecOn generalizing bs with
  | _ n ih =>
    cases bs with
    | nil => cases h
    | cons b rest =>
      rw [chunks_cons, List.mem_cons] at h
      rcases h with h | h
      · exact spelling_of_front h.symm
      · refine ih _ ?_ h rfl
        rw [List.length_drop]
        rw [List.length_cons] at hlen
        omega

theorem spelt_of_characters {index : Nat} {done cs : List Char} {l : List Chunk}
    (h : characters index done l = .ok cs)
    (hl : ∀ c spelling, .char c spelling ∈ l → spelling = String.utf8EncodeChar c) :
    cs.flatMap String.utf8EncodeChar =
      done.reverse.flatMap String.utf8EncodeChar ++ l.flatMap Chunk.bytes := by
  induction l generalizing index done with
  | nil =>
    rw [characters] at h
    rw [← Except.ok.inj h, List.flatMap_nil, List.append_nil]
  | cons chunk l ih =>
    cases chunk with
    | bad bytes cut =>
      rw [characters] at h
      cases h
    | char c spelling =>
      rw [characters] at h
      have hspelling := hl c spelling List.mem_cons_self
      have hrest := ih h fun c' spelling' hmem => hl c' spelling' (List.mem_cons_of_mem _ hmem)
      rw [hrest, List.reverse_cons, List.flatMap_append, List.flatMap_singleton, List.flatMap_cons,
        List.append_assoc, ← hspelling, Chunk.bytes]

/-- A text that was read is spelt as it stood there. -/
theorem encode_of_decode {bs : Bytes} {s : String} (h : decode bs = .ok s) : encode s = bs := by
  obtain ⟨cs, hcs, rfl⟩ := Outcome.map_eq_ok.1 h
  have hspelt := spelt_of_characters hcs fun _ _ hmem => spelling_of_mem_chunks hmem
  rw [List.reverse_nil, List.flatMap_nil, List.nil_append, flatMap_bytes_chunks] at hspelt
  rw [encode, String.toList_ofList, hspelt]

/-! ## NUL -/

/-- There is no NUL in `s`. -/
def NulFree (s : String) : Prop := '\x00' ∉ s.toList

instance (s : String) : Decidable (NulFree s) := inferInstanceAs (Decidable (¬_))

theorem zero_ne_ofNat {n : Nat} (hpos : n ≠ 0) (h : n < 256) : (0 : UInt8) ≠ UInt8.ofNat n := by
  intro hzero
  have hn := congrArg UInt8.toNat hzero
  rw [UInt8.toNat_ofNat_of_lt' h] at hn
  exact hpos hn.symm

theorem zero_not_mem_utf8EncodeChar {c : Char} (h : c.val.toNat ≠ 0) :
    0 ∉ String.utf8EncodeChar c := by
  have hvalid : c.val.toNat < 0xd800 ∨ (0xdfff < c.val.toNat ∧ c.val.toNat < 0x110000) := c.valid
  generalize hv : c.val.toNat = v at h hvalid
  rw [String.utf8EncodeChar]
  simp only [hv]
  repeat' split
  all_goals
    intro hmem
    simp only [List.mem_cons, List.not_mem_nil, or_false] at hmem
  · exact zero_ne_ofNat h (by omega) hmem
  · rcases hmem with hmem | hmem <;> exact zero_ne_ofNat (by omega) (by omega) hmem
  · rcases hmem with hmem | hmem | hmem <;> exact zero_ne_ofNat (by omega) (by omega) hmem
  · rcases hmem with hmem | hmem | hmem | hmem <;>
      exact zero_ne_ofNat (by omega) (by omega) hmem

/-- Only NUL is spelt with a zero byte. -/
theorem zero_mem_utf8EncodeChar {c : Char} : 0 ∈ String.utf8EncodeChar c ↔ c = '\x00' := by
  constructor
  · intro h
    by_cases hzero : c.val.toNat = 0
    · exact Char.ext (UInt32.toNat_inj.1 hzero)
    · exact absurd h (zero_not_mem_utf8EncodeChar hzero)
  · rintro rfl
    decide

theorem nulFree_iff {s : String} : NulFree s ↔ 0 ∉ encode s := by
  simp only [NulFree, encode, List.mem_flatMap, zero_mem_utf8EncodeChar, exists_eq_right]

end Utf8
end SeriesWire
