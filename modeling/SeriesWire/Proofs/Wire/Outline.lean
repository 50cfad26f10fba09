/-
Outlines stand for what they repeat.  Length, folds and the first bytes of an
outline are those of the bytes it stands for, and a message sent into an outline
is the message that `send` appends (`send_eq`).
-/
import SeriesWire.Proofs.Wire.Frame
import SeriesWire.Wire.Outline

namespace SeriesWire
namespace Outline

/-! ## Copies -/

@[simp] theorem copies_zero {α : Type} (part : List α) : copies 0 part = [] := rfl

theorem copies_succ {α : Type} (n : Nat) (part : List α) :
    copies (n + 1) part = part ++ copies n part := by
  rw [copies, List.replicate_succ, List.flatten_cons, copies]

theorem copies_add {α : Type} (m n : Nat) (part : List α) :
    copies (m + n) part = copies m part ++ copies n part := by
  rw [copies, ← List.replicate_append_replicate, List.flatten_append, copies, copies]

theorem length_copies {α : Type} (n : Nat) (part : List α) :
    (copies n part).length = n * part.length := by
  induction n with
  | zero => rw [copies_zero, List.length_nil, Nat.zero_mul]
  | succ n ih => rw [copies_succ, List.length_append, ih, Nat.succ_mul, Nat.add_comm]

/-- Copies beyond the `n`th do not show in the first `n` items. -/
theorem take_copies_min {α : Type} (count n : Nat) (part : List α) :
    (copies (min count n) part).take n = (copies count part).take n := by
  rcases Nat.le_total count n with h | h
  · rw [Nat.min_eq_left h]
  · rw [Nat.min_eq_right h]
    by_cases hpart : part = []
    · subst hpart
      rw [copies, copies, List.flatten_replicate_nil, List.flatten_replicate_nil]
    · have hlong : n ≤ (copies n part).length := by
        rw [length_copies]
        exact Nat.le_mul_of_pos_right n (List.length_pos_iff.2 hpart)
      conv => rhs; rw [← Nat.add_sub_cancel' h, copies_add]
      rw [List.take_append_of_le_length hlong]

/-! ## What an outline stands for -/

theorem bytes_cons (count : Nat) (part : Bytes) (rest : List (Nat × Bytes)) :
    bytes ⟨(count, part) :: rest⟩ = copies count part ++ bytes ⟨rest⟩ := rfl

theorem bytes_append (front back : List (Nat × Bytes)) :
    bytes ⟨front ++ back⟩ = bytes ⟨front⟩ ++ bytes ⟨back⟩ := List.flatMap_append

@[simp] theorem bytes_ofBytes (bs : Bytes) : (ofBytes bs).bytes = bs := by
  simp [ofBytes, bytes, copies]

theorem length_bytes (o : Outline) : o.bytes.length = o.length := by
  obtain ⟨parts⟩ := o
  induction parts with
  | nil => rfl
  | cons part rest ih =>
    rw [bytes_cons, List.length_append, length_copies, ih]
    rfl

theorem foldCopies_eq {σ : Type} (f : σ → UInt8 → σ) (part : Bytes) (n : Nat) (s : σ) :
    foldCopies f part n s = (copies n part).foldl f s := by
  induction n generalizing s with
  | zero => rfl
  | succ n ih => rw [foldCopies, ih, copies_succ, List.foldl_append]

theorem foldl_eq {σ : Type} (f : σ → UInt8 → σ) (init : σ) (o : Outline) :
    o.foldl f init = o.bytes.foldl f init := by
  obtain ⟨parts⟩ := o
  induction parts generalizing init with
  | nil => rfl
  | cons part rest ih =>
    rw [bytes_cons, List.foldl_append, ← foldCopies_eq, ← ih]
    rfl

theorem take_eq (n : Nat) (o : Outline) : o.take n = o.bytes.take n := by
  obtain ⟨parts⟩ := o
  rw [take]
  induction parts generalizing n with
  | nil => rw [bytes, List.flatMap_nil, List.take_nil, take.go]
  | cons part rest ih =>
    obtain ⟨count, part⟩ := part
    have hleft : n - ((copies count part).take n).length = n - (copies count part).length := by
      rw [List.length_take]
      omega
    rw [take.go, take_copies_min, ih, bytes_cons, List.take_append, hleft]

/-! ## Messages -/

theorem encodeAll_copies {fields : List Field} {body : Bytes}
    (h : Field.encodeAll fields = .ok body) (n : Nat) :
    Field.encodeAll (copies n fields) = .ok (copies n body) := by
  induction n with
  | zero => rfl
  | succ n ih =>
    rw [copies_succ, copies_succ]
    exact Field.encodeAll_append_ok.2 ⟨body, copies n body, h, ih, rfl⟩

/-- A message of `n` equal parts. -/
theorem send_copies {fields : List Field} {body : Bytes} (h : Field.encodeAll fields = .ok body)
    (tag : UInt8) (n : Nat) (dst : Bytes) :
    ∃ f : Frame, SeriesWire.send tag (copies n fields) dst = .ok () (dst ++ f.bytes) ∧
      f.wireLen = Frame.headLen + n * body.length := by
  refine ⟨⟨tag, copies n body⟩, send_of_ok (encodeAll_copies h n) dst, ?_⟩
  rw [Frame.wireLen, length_copies]

/-- Of fields that fail, the first copy fails. -/
theorem Run.encodeAll_eq (run : Run) :
    Field.encodeAll (copies run.count run.fields) =
      run.encode.map fun part => copies part.1 part.2 := by
  rw [Run.encode]
  by_cases hcount : run.count = 0
  · rw [if_pos hcount, hcount]
    rfl
  rw [if_neg hcount]
  cases hbody : Field.encodeAll run.fields with
  | ok body =>
    rw [encodeAll_copies hbody]
    rfl
  | error e =>
    obtain ⟨n, hn⟩ := Nat.exists_eq_succ_of_ne_zero hcount
    rw [hn, Nat.succ_eq_add_one, copies_succ, Field.encodeAll_append, hbody]
    rfl

theorem encodeAll_fields (runs : List Run) :
    Field.encodeAll (fields runs) = (runs.mapM Run.encode).map fun parts => bytes ⟨parts⟩ := by
  induction runs with
  | nil => rfl
  | cons run runs ih =>
    show Field.encodeAll (copies run.count run.fields ++ fields runs) = _
    rw [Field.encodeAll_append, run.encodeAll_eq, ih, List.mapM_cons]
    cases run.encode with
    | error e => rfl
    | ok part => cases runs.mapM Run.encode <;> rfl

theorem send_eq (tag : UInt8) (runs : List Run) (dst : Outline) :
    SeriesWire.send tag (fields runs) dst.bytes =
      match Outline.send tag runs dst with
      | .ok o => .ok () o.bytes
      | .error e => .error e dst.bytes := by
  have hfields := encodeAll_fields runs
  rw [Outline.send]
  cases hparts : runs.mapM Run.encode with
  | error e =>
    rw [hparts] at hfields
    exact send_of_error hfields dst.bytes
  | ok parts =>
    rw [hparts] at hfields
    have hmessage : Frame.bytes ⟨tag, bytes ⟨parts⟩⟩ =
        bytes ⟨(1, tag :: Bytes.ofNatBE Frame.lengthWidth
          (Frame.lengthWidth + length ⟨parts⟩)) :: parts⟩ := by
      rw [bytes_cons, Frame.bytes, length_bytes]
      simp [copies]
    rw [send_of_ok hfields, hmessage]
    exact congrArg _ (bytes_append dst.parts _).symm

end Outline
end SeriesWire
