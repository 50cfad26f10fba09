/-
Group keys have no control characters.  Numbers are spelt without them, and a text
that has them, or that is no UTF-8, is escaped, so every key is free of NULs
whatever the rows hold.
-/
import SeriesWire.Proofs.GroupKey.Values

namespace SeriesWire
namespace GroupKey

open Bytes

/-- There is no control character in it. -/
def Clean (cs : List Char) : Prop := ∀ c ∈ cs, Quoted.isControl c = false

instance (cs : List Char) : Decidable (Clean cs) := List.decidableBAll _ cs

section Clean

variable {s t : List Char}

theorem Clean.append (hs : Clean s) (ht : Clean t) : Clean (s ++ t) :=
  List.forall_mem_append.2 ⟨hs, ht⟩

theorem Clean.flatMap {α : Type} {f : α → List Char} (h : ∀ a, Clean (f a)) (as : List α) :
    Clean (as.flatMap f) := by
  intro c hc
  obtain ⟨a, -, hc⟩ := List.mem_flatMap.1 hc
  exact h a c hc

theorem Clean.join {parts : List (List Char)} (h : ∀ part ∈ parts, Clean part) :
    Clean ([','].intercalate parts) := by
  induction parts with
  | nil => exact fun _ hc => absurd hc List.not_mem_nil
  | cons part parts ih =>
    obtain ⟨hpart, hparts⟩ := List.forall_mem_cons.1 h
    cases parts with
    | nil =>
      rw [List.intercalate_singleton]
      exact hpart
    | cons part' parts =>
      rw [List.intercalate_cons_cons]
      exact (hpart.append (by decide)).append (ih hparts)

end Clean

/-! ## Numbers -/

theorem isControl_of_isDigit {c : Char} (h : c.isDigit = true) : Quoted.isControl c = false := by
  rw [Char.isDigit, Bool.and_eq_true, decide_eq_true_iff, decide_eq_true_iff] at h
  have hlow : 48 ≤ c.toNat := UInt32.le_iff_toNat_le.1 h.1
  have hhigh : c.toNat ≤ 57 := UInt32.le_iff_toNat_le.1 h.2
  rw [Quoted.isControl, decide_eq_false (by omega), decide_eq_false (by omega)]
  rfl

theorem isControl_of_mem_number {c : Char}
    (h : c.isDigit = true ∨ c ∈ ['.', '-', 'i', 'n', 'f']) : Quoted.isControl c = false := by
  rcases h with h | h
  · exact isControl_of_isDigit h
  · have hmarks : Clean ['.', '-', 'i', 'n', 'f'] := by decide
    exact hmarks c h

theorem clean_ofByte (b : UInt8) : Clean (Hex.ofByte b) := by
  have hdigit : ∀ k < 16, Quoted.isControl (Hex.digit k) = false := by decide
  have hb := b.toNat_lt
  intro c hc
  rw [Hex.ofByte, List.mem_cons, List.mem_singleton] at hc
  rcases hc with rfl | rfl
  · exact hdigit _ (by omega)
  · exact hdigit _ (by omega)

theorem clean_toString_int (n : Int) : Clean (toString n).toList :=
  fun _ hc => isControl_of_mem_number (mem_toString_int hc)

theorem clean_marked {nan : Bool} {bs : Bytes} {s : List Char} (hs : nan = false → Clean s) :
    Clean (if nan then "NaN:".toList ++ Hex.ofBytes bs else s) := by
  have hmark : Clean "NaN:".toList := by decide
  split
  · exact hmark.append (Clean.flatMap clean_ofByte bs)
  next hnan => exact hs (Bool.eq_false_iff.2 hnan)

theorem clean_ofSingle (x : Binary32) : Clean (ofSingle x) :=
  clean_marked fun hx _ hc => isControl_of_mem_number (Binary32.mem_text hx hc)

theorem clean_ofDouble (x : Binary64) : Clean (ofDouble x) :=
  clean_marked fun hx _ hc => isControl_of_mem_number (Binary64.mem_text hx hc)

/-! ## Texts -/

theorem clean_hexEscape (bs : Bytes) : Clean (hexEscape bs) := by
  have hmark : Clean ['\\', 'x'] := by decide
  exact Clean.flatMap (fun b => hmark.append (clean_ofByte b)) bs

theorem clean_escapeChunk (chunk : Utf8.Chunk) : Clean (escapeChunk chunk) := by
  unfold escapeChunk
  split
  next => decide
  next => decide
  next c spelling _ _ =>
    split
    next => exact clean_hexEscape spelling
    next hc =>
      intro c' hc'
      rw [List.mem_singleton.1 hc']
      exact Bool.eq_false_iff.2 hc
  next bytes _ => exact clean_hexEscape bytes

theorem clean_ofText (text : Bytes) : Clean (ofText text) :=
  Clean.flatMap clean_escapeChunk (Utf8.chunks text)

/-! ## Keys -/

theorem clean_ofValue {t : ColumnType} {v : CellValue} {key : List Char}
    (h : ofValue? t v = some key) : Clean key :=
  forms_ofValue clean_toString_int clean_ofSingle clean_ofDouble clean_ofText h

theorem clean_ofRow {s : Shape} {row : List CellValue} {key : String} (h : ofRow s row = .ok key) :
    Clean key.toList := by
  obtain ⟨parts, rfl, hlen, hall⟩ := ofRow_eq_ok h
  rw [String.toList_ofList]
  refine Clean.join fun part hpart => ?_
  obtain ⟨_, hfound⟩ := exists_column_of_mem hlen hall hpart
  exact clean_ofValue hfound

/-- A NUL is a control character. -/
theorem nulFree_ofRow {s : Shape} {row : List CellValue} {key : String}
    (h : ofRow s row = .ok key) : Utf8.NulFree key := by
  intro hnul
  have hcontrol := clean_ofRow h _ hnul
  exact absurd hcontrol (by decide)

end GroupKey
end SeriesWire
