/-
Null bitmaps as sets.  Marking a column changes the answer for that column and
for no other, so a bitmap marked for some of its columns tells exactly these,
whatever their order and however often each was marked.
-/
import SeriesWire.Bitmap
import SeriesWire.Proofs.Slices

namespace SeriesWire
namespace Bitmap

theorem lt_size {columns column : Nat} (h : column < columns) : column / 8 < size columns := by
  unfold size
  omega

theorem marked?_eq {bitmap : Bytes} {column : Nat} (h : column / 8 < bitmap.length) :
    marked? bitmap column = some (marked bitmap column) := by
  rw [marked, marked?, List.getElem?_eq_getElem h]
  rfl

/-- Two columns of one byte have a bit in common only if they are the same. -/
theorem mask_and_mask (i j : Fin 8) :
    (1 <<< UInt8.ofNat i.val : UInt8) &&& (1 <<< UInt8.ofNat j.val) = 0 ↔ i ≠ j := by
  revert i j
  decide

theorem mask_and_mask_eq_zero {a b : Nat} : mask a &&& mask b = 0 ↔ a % 8 ≠ b % 8 := by
  have h := mask_and_mask ⟨a % 8, Nat.mod_lt _ (by decide)⟩ ⟨b % 8, Nat.mod_lt _ (by decide)⟩
  rw [mask, mask, h, ne_eq, Fin.mk.injEq]

theorem or_and_eq_zero {a b c : UInt8} : (a ||| b) &&& c = 0 ↔ a &&& c = 0 ∧ b &&& c = 0 := by
  have h : (a ||| b) &&& c = (a &&& c) ||| (b &&& c) :=
    UInt8.toBitVec_inj.1 BitVec.and_or_distrib_right
  rw [h, UInt8.or_eq_zero_iff]

/-- Marking a column marks that column and leaves the others as they were. -/
theorem marked_mark {bitmap : Bytes} {a : Nat} (h : a / 8 < bitmap.length) (b : Nat) :
    marked (mark bitmap a) b = (a == b || marked bitmap b) := by
  rw [marked, marked, marked?, marked?, mark, List.getElem?_modify]
  by_cases hbyte : a / 8 = b / 8
  · rw [hbyte] at h ⊢
    rw [List.getElem?_eq_getElem h]
    simp only [if_true, Option.map_eq_map, Option.map_some, Option.getD_some]
    rw [Bool.eq_iff_iff, bne_iff_ne, ne_eq, or_and_eq_zero, mask_and_mask_eq_zero, Bool.or_eq_true,
      beq_iff_eq, bne_iff_ne]
    have hsame : a = b ↔ a % 8 = b % 8 := by omega
    rw [hsame]
    by_cases hbit : a % 8 = b % 8 <;> simp [hbit]
  · have hne : a ≠ b := fun e => hbyte (by rw [e])
    simp [hbyte, hne]

theorem marked_zeros (n column : Nat) : marked (Bytes.zeros n) column = false := by
  rw [marked, marked?, Bytes.zeros, List.getElem?_replicate]
  split <;> simp

/-! ## Marks one after the other -/

/-- Mark column after column, as long as each has its byte. -/
def markAll? (bitmap : Bytes) (columns : List Nat) : Option Bytes := columns.foldlM mark? bitmap

theorem mark?_eq {bitmap : Bytes} {column : Nat} (h : column / 8 < bitmap.length) :
    mark? bitmap column = some (mark bitmap column) := by
  rw [mark?, if_pos h]

/-- A bitmap is the set of its marks: marking adds to them and takes none away. -/
theorem markAll?_eq {bitmap : Bytes} {columns : List Nat}
    (h : ∀ column ∈ columns, column / 8 < bitmap.length) :
    ∃ after, markAll? bitmap columns = some after ∧ after.length = bitmap.length ∧
      ∀ i, marked after i = true ↔ marked bitmap i = true ∨ i ∈ columns := by
  induction columns generalizing bitmap with
  | nil => exact ⟨bitmap, rfl, rfl, fun i => by simp⟩
  | cons column columns ih =>
    obtain ⟨hcolumn, hcolumns⟩ := List.forall_mem_cons.1 h
    have hlen := length_mark bitmap column
    rw [← hlen] at hcolumns
    obtain ⟨after, hafter, hkept, hmarks⟩ := ih hcolumns
    refine ⟨after, ?_, hkept.trans hlen, fun i => ?_⟩
    · rw [markAll?, List.foldlM_cons, mark?_eq hcolumn]
      exact hafter
    · rw [hmarks, marked_mark hcolumn, Bool.or_eq_true, beq_iff_eq, List.mem_cons, eq_comm (a := i),
        or_assoc, or_left_comm]

/-- As many bytes as it takes, and no more. -/
theorem size_le_iff {columns bytes : Nat} : size columns ≤ bytes ↔ columns ≤ 8 * bytes := by
  unfold size
  omega

/-- In a bitmap with room for all columns, and with no byte more than that, any of
them are marked in any order without leaving it, and then exactly they and those
marked before are found in it. -/
theorem marked_markAll {columns : Nat} {bitmap : Bytes} {marks : List Nat}
    (hlen : bitmap.length = size columns) (hmarks : ∀ i ∈ marks, i < columns) :
    (∃ after, markAll? bitmap marks = some after ∧ after.length = bitmap.length ∧
      ∀ i < 8 * size columns, ∃ before now,
        marked? bitmap i = some before ∧ marked? after i = some now ∧
          (now = true ↔ before = true ∨ i ∈ marks)) ∧
      columns ≤ 8 * size columns ∧ ∀ bytes, columns ≤ 8 * bytes → size columns ≤ bytes := by
  refine ⟨?_, size_le_iff.1 (Nat.le_refl _), fun bytes => size_le_iff.2⟩
  have hinside : ∀ i ∈ marks, i / 8 < bitmap.length := fun i hi => hlen ▸ lt_size (hmarks i hi)
  obtain ⟨after, hafter, hkept, hfound⟩ := markAll?_eq hinside
  refine ⟨after, hafter, hkept, fun i hi => ?_⟩
  have hbyte : i / 8 < bitmap.length := by omega
  exact ⟨_, _, marked?_eq hbyte, marked?_eq (hkept ▸ hbyte), hfound i⟩

/-- Ten columns in two bytes, marked out of order and twice, beside a mark that was
there and one in a bit behind the last column. -/
theorem marked_markAll_ten :
    ([4, 128] : Bytes).length = size 10 ∧ (∀ i ∈ [9, 0, 7, 9], i < 10) ∧
      markAll? [4, 128] [9, 0, 7, 9] = some [133, 130] ∧
      ∃ now, marked? [133, 130] 8 = some now ∧ ¬now = true := by
  have hlen : ([4, 128] : Bytes).length = size 10 := by decide
  have hmarks : ∀ i ∈ [9, 0, 7, 9], i < 10 := by decide
  have hrun : markAll? [4, 128] [9, 0, 7, 9] = some [133, 130] := by decide
  obtain ⟨⟨after, hafter, -, hfound⟩, -⟩ := marked_markAll hlen hmarks
  rw [hrun, Option.some.injEq] at hafter
  subst hafter
  obtain ⟨before, now, hbefore, hnow, hiff⟩ := hfound 8 (by decide)
  obtain rfl : before = false := Option.some.inj (hbefore.symm.trans (by decide))
  exact ⟨hlen, hmarks, hrun, now, hnow, by simp [hiff]⟩

end Bitmap
end SeriesWire
