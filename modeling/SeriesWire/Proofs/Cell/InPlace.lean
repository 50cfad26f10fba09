/-
Cells written in place.  `CellValue.place` computes what a cell leaves in its buffers.
Here the value is written step by step: a slot is filled by copies of as many bytes as
they replace, an entry in three parts behind a checked addition, and the steps give up
(`none`) as soon as one of them reaches outside.  None does, and what they leave is what
was computed (`writeSteps_eq`).
-/
import SeriesWire.Proofs.Payload.InBounds

namespace SeriesWire

open Bytes

namespace InPlace

open Guarded (cut? minus?)

/-! ## Slots and entries -/

/-- As much of `src` as there is room for in front of `width`, and zeros behind it. -/
def pad (width : Nat) (src : Bytes) : InPlace Unit := do
  let n := min src.length width
  copy 0 n (← reach (cut? src 0 n))
  clear n width

/-- Fill the first `width` bytes, if there are as many. -/
def fillSlot (oid : UInt32) (width : Nat) (fill : InPlace Unit) : InPlace Unit := do
  let room := (← get).length
  if room < width then throw (.bounds (.slot oid width room)) else fill

/-- The length of a text, the text and its terminator.  Where an entry ends has to be a
number of 64 bits. -/
def entry (text : Bytes) (offset : Nat) : InPlace Unit := do
  let room := (← get).length
  let used := textHeaderLen + text.length + 1
  let stop := offset + used
  if space 8 ≤ stop ∨ room < stop then throw (.bounds (.entry used offset room))
  else do
    let body := offset + textHeaderLen
    copy offset body (ofNatLE textHeaderLen (text.length + 1))
    let last ← reach (minus? stop 1)
    copy body last text
    copy last stop [0]

end InPlace

namespace CellValue

open InPlace (copy clear pad fillSlot)

/-! ## Cells -/

/-- Write a slot, `used` bytes of an entry being written. -/
def slotSteps (oid : UInt32) (width : Nat) (fill : InPlace Unit) (used : Nat)
    (dest region : Bytes) : Option Placed := do
  let (outcome, dest) ← (fillSlot oid width fill).on dest
  return ⟨dest, region, outcome.map fun () => (width, used)⟩

def intSteps (t : ColumnType) (width : Nat) (n : Int64) (dest region : Bytes) : Option Placed :=
  if FitsInt width n.toInt then
    slotSteps t.oid width (copy 0 width (ofIntLE width n.toInt)) 0 dest region
  else some ⟨dest, region, .error (.range t.name (.outside n.toInt (8 * width)))⟩

def floatSteps (t : ColumnType) (x : Binary64) (dest region : Bytes) : Option Placed :=
  if t = .float8 then slotSteps t.oid 8 (copy 0 8 (ofNatLE 8 x.bits.toNat)) 0 dest region
  else if x.isFinite && !x.narrow.isFinite then
    some ⟨dest, region, .error (.range t.name (.single x))⟩
  else slotSteps t.oid 4 (copy 0 4 (ofNatLE 4 x.narrow.bits.toNat)) 0 dest region

def primarySteps (t : ColumnType) (text : Bytes) (storageLen : Nat) (dest region : Bytes) :
    Option Placed :=
  if storageLen - 1 < text.length then
    some ⟨dest, region, .error (.range t.name (.primarySlot text.length storageLen))⟩
  else slotSteps t.oid storageLen (pad storageLen text) 0 dest region

def variableSteps (t : ColumnType) (text dest region : Bytes) (offset : Nat) : Option Placed :=
  if fitsTextHeader text then do
    match ← (InPlace.entry text offset).on region with
    | (.error e, region) => return ⟨dest, region, .error e⟩
    | (.ok (), region) =>
      slotSteps t.oid ColumnType.offsetWidth
        (copy 0 ColumnType.offsetWidth (ofNatLE ColumnType.offsetWidth offset))
        (textHeaderLen + text.length + 1) dest region
  else some ⟨dest, region, .error (.range t.name (.variableLength text.length))⟩

/-- Write `v` as `place` does, access by access. -/
def writeSteps (v : CellValue) (oid : UInt32) (dest : Bytes) (storageLen : Nat) (region : Bytes)
    (offset : Nat) (primary : Bool) : Option Placed :=
  match ColumnType.packable? oid with
  | none => some ⟨dest, region, .error (.unsupportedType oid)⟩
  | some t =>
    match t, v with
    | .date, _ => some ⟨dest, region, .error (.unsupportedType oid)⟩
    | t, .null =>
      let width := if t.isVariable && primary then storageLen else t.slotWidth storageLen
      slotSteps oid width (clear 0 width) 0 dest region
    | .int2, .int n => intSteps .int2 2 n dest region
    | .int4, .int n => intSteps .int4 4 n dest region
    | .int8, .int n => intSteps .int8 8 n dest region
    | .float4, .float x => floatSteps .float4 x dest region
    | .float8, .float x => floatSteps .float8 x dest region
    | .float4, .int n => floatSteps .float4 (Binary64.ofInt n.toInt) dest region
    | .float8, .int n => floatSteps .float8 (Binary64.ofInt n.toInt) dest region
    | .timestamp, .timestamp micros | .timestamptz, .timestamp micros =>
      slotSteps oid 8 (copy 0 8 (ofIntLE 8 (Epoch.toUnixMillis micros).toInt)) 0 dest region
    | .bpchar, .bytes text => slotSteps oid storageLen (pad storageLen text) 0 dest region
    | .varchar, .bytes text =>
      if primary then primarySteps .varchar text storageLen dest region
      else variableSteps .varchar text dest region offset
    | .text, .bytes text =>
      if primary then primarySteps .text text storageLen dest region
      else variableSteps .text text dest region offset
    | _, v => some ⟨dest, region, .error (v.mismatch oid)⟩

end CellValue

/-! ## Accesses -/

namespace InPlace

variable {data src text dest region : Bytes} {start stop width offset : Nat} {oid : UInt32}

/-- Bytes are copied over as many bytes. -/
theorem on_copy_over (hstop : start + src.length = stop) (h : stop ≤ data.length) :
    (copy start stop src).on data = some (.ok (), data.overwrite start src) := by
  have hcut : (cut start stop).on data = some (.ok (data.slice start src.length), data) := by
    rw [cut, on_get_bind, Guarded.cut?_eq (by omega) h, show stop - start = src.length by omega]
    rfl
  have hlen : src.length = (data.slice start src.length).length :=
    (length_slice_of_le (by omega)).symm
  rw [copy, on_bind_ok hcut, if_pos hlen, on_get_bind]
  rfl

theorem on_clear_over (hle : start ≤ stop) (h : stop ≤ data.length) :
    (clear start stop).on data = some (.ok (), data.overwrite start (zeros (stop - start))) :=
  on_copy_over (by rw [length_zeros]; omega) h

theorem on_pad (h : width ≤ dest.length) :
    (pad width src).on dest = some (.ok (), dest.overwrite 0 (src.fit width)) := by
  obtain ⟨n, hn⟩ : ∃ n, n = min src.length width := ⟨_, rfl⟩
  have hlen : (src.take n).length = n := by rw [List.length_take]; omega
  have hcopy : (copy 0 n (src.take n)).on dest = some (.ok (), dest.overwrite 0 (src.take n)) :=
    on_copy_over (by rw [hlen, Nat.zero_add]) (by omega)
  have hroom : width ≤ (dest.overwrite 0 (src.take n)).length := by
    rwa [length_overwrite (by omega)]
  have hfit : src.fit width = src.take n ++ zeros (width - n) := by
    have htake : src.take width = src.take n := List.take_eq_take_iff.2 (by omega)
    rw [fit, htake, show width - src.length = width - n by omega]
  simp only [pad]
  rw [← hn, on_reach_bind (Guarded.cut?_take (by omega)), on_bind_ok hcopy,
    on_clear_over (by omega) hroom, overwrite_overwrite (by omega) (by rw [length_zeros]; omega),
    hfit]

theorem entryLen_eq (text : Bytes) :
    textHeaderLen + text.length + 1 = (textEntry text).length := by
  rw [length_textEntry, textHeaderLen]
  omega

/-- An entry is written where it fits, and nothing is written where it does not. -/
theorem on_entry (hsize : region.length < space 8) :
    (entry text offset).on region =
      if region.length < offset + (textEntry text).length then
        some (.error (.bounds (.entry (textEntry text).length offset region.length)), region)
      else some (.ok (), region.overwrite offset (textEntry text)) := by
  rw [entry, on_get_bind, ← entryLen_eq]
  dsimp only
  split
  next hlong =>
    rw [if_pos (by omega)]
    rfl
  next hshort =>
    rw [if_neg (by omega)]
    generalize hheader : ofNatLE textHeaderLen (text.length + 1) = header
    have hlen : header.length = textHeaderLen := by rw [← hheader, length_ofNatLE]
    have hlast : Guarded.minus? (offset + (textHeaderLen + text.length + 1)) 1 =
        some (offset + textHeaderLen + text.length) := by
      rw [Guarded.minus?_eq (by omega)]
      congr 1
      omega
    have hkept (front : Bytes) (h : offset + front.length ≤ region.length) :
        (region.overwrite offset front).length = region.length := length_overwrite h
    have hbody : (copy (offset + textHeaderLen) (offset + textHeaderLen + text.length) text).on
        (region.overwrite offset header) =
          some (.ok (), region.overwrite offset (header ++ text)) := by
      rw [on_copy_over rfl (by rw [hkept _ (by omega)]; omega),
        overwrite_overwrite (by omega) (by omega)]
    have hfront : (header ++ text).length = textHeaderLen + text.length := by
      rw [List.length_append, hlen]
    have hend : (copy (offset + textHeaderLen + text.length)
        (offset + (textHeaderLen + text.length + 1)) [0]).on
          (region.overwrite offset (header ++ text)) =
            some (.ok (), region.overwrite offset (header ++ text ++ [0])) := by
      rw [on_copy_over (by rw [List.length_singleton]; omega)
          (by rw [hkept _ (by omega)]; omega),
        overwrite_overwrite (by omega) (by rw [List.length_singleton]; omega)]
    rw [on_bind_ok (on_copy_over (by rw [hlen]) (by omega)), on_reach_bind hlast,
      on_bind_ok hbody, hend, ← hheader, textEntry]

end InPlace

namespace CellValue

variable {v : CellValue} {t : ColumnType} {oid : UInt32} {text dest region : Bytes}
  {width offset : Nat} {primary : Bool}

/-- What `place` makes of an attempt to store a value. -/
def attempt (oid : UInt32) (dest region : Bytes) (offset : Nat) :
    Except WireError Stored → Placed
  | .error e => ⟨dest, region, .error e⟩
  | .ok stored => Placed.write oid stored dest region offset

/-! ## Values -/

/-- A slot that is filled with what is stored. -/
theorem slotSteps_eq (stored : Stored) {fill : InPlace Unit} (used : Nat)
    (hfill : stored.width ≤ dest.length →
      fill.on dest = some (.ok (), dest.overwrite 0 stored.slot)) :
    slotSteps oid stored.width fill used dest region =
      some (match stored.checkSlot oid dest.length with
        | .error e => ⟨dest, region, .error e⟩
        | .ok () => ⟨dest.overwrite 0 stored.slot, region, .ok (stored.width, used)⟩) := by
  rw [slotSteps, InPlace.fillSlot, InPlace.on_get_bind, Stored.checkSlot]
  dsimp only
  split
  next => rfl
  next hroom =>
    rw [hfill (Nat.le_of_not_lt hroom)]
    rfl

theorem slotSteps_pad (content : Bytes) :
    slotSteps oid width (InPlace.pad width content) 0 dest region =
      some (attempt oid dest region offset (.ok { width, content })) :=
  slotSteps_eq { width, content } 0 InPlace.on_pad

/-- What fills its slot is copied as it is. -/
theorem slotSteps_exact (stored : Stored) (hlen : stored.content.length = stored.width)
    (used : Nat) :
    slotSteps oid stored.width (InPlace.copy 0 stored.width stored.content) used dest region =
      some (match stored.checkSlot oid dest.length with
        | .error e => ⟨dest, region, .error e⟩
        | .ok () => ⟨dest.overwrite 0 stored.slot, region, .ok (stored.width, used)⟩) := by
  refine slotSteps_eq stored used fun hroom => ?_
  rw [InPlace.on_copy_over ((Nat.zero_add _).trans hlen) hroom, Stored.slot, fit_eq_self hlen]

theorem slotSteps_copy {content : Bytes} (hlen : content.length = width) :
    slotSteps oid width (InPlace.copy 0 width content) 0 dest region =
      some (attempt oid dest region offset (.ok { width, content })) :=
  slotSteps_exact { width, content } hlen 0

theorem slotSteps_clear :
    slotSteps oid width (InPlace.clear 0 width) 0 dest region =
      some (attempt oid dest region offset (.ok { width, content := [] })) := by
  refine slotSteps_eq { width, content := [] } 0 fun hroom => ?_
  rw [InPlace.on_clear_over (Nat.zero_le _) hroom, Stored.slot, fit_nil, Nat.sub_zero]

theorem intSteps_eq (n : Int64) :
    intSteps t width n dest region =
      some (attempt t.oid dest region offset (storeInt t width n)) := by
  rw [intSteps, storeInt]
  split
  next => exact slotSteps_copy (length_ofIntLE _ _)
  next => rfl

theorem floatSteps_eq (x : Binary64) :
    floatSteps t x dest region = some (attempt t.oid dest region offset (storeFloat t x)) := by
  rw [floatSteps, storeFloat]
  split
  next => exact slotSteps_copy (length_ofNatLE _ _)
  next =>
    split
    next => rfl
    next => exact slotSteps_copy (length_ofNatLE _ _)

theorem primarySteps_eq :
    primarySteps t text width dest region =
      some (attempt t.oid dest region offset (storePrimary t text width)) := by
  rw [primarySteps, storePrimary]
  split
  next => rfl
  next => exact slotSteps_pad text

theorem variableSteps_eq (hsize : region.length < space 8) :
    variableSteps t text dest region offset =
      some (attempt t.oid dest region offset (storeVariable t text offset)) := by
  rw [variableSteps, storeVariable]
  split
  next =>
    have hsome : textEntry text ≠ [] := List.append_ne_nil_of_right_ne_nil _ (List.cons_ne_nil 0 [])
    rw [InPlace.on_entry hsize, attempt, Placed.write, Stored.checkEntry]
    dsimp only
    split
    next hlong =>
      rw [if_pos ⟨hsome, hlong⟩]
      rfl
    next hfits =>
      rw [if_neg fun h => hfits h.2, InPlace.entryLen_eq]
      exact slotSteps_exact ⟨_, _, textEntry text⟩ (length_ofNatLE _ _) _
  next => rfl

/-- Writing a value step by step comes to what is computed, and no step reaches outside. -/
theorem writeSteps_eq (v : CellValue) (oid : UInt32) (dest : Bytes) (storageLen : Nat)
    (region : Bytes) (offset : Nat) (primary : Bool) (hsize : region.length < space 8) :
    v.writeSteps oid dest storageLen region offset primary =
      some (v.place oid dest storageLen region offset primary) := by
  cases hpackable : ColumnType.packable? oid with
  | none => rw [writeSteps, place, hpackable]
  | some t =>
    obtain ⟨-, rfl⟩ := ColumnType.packable?_eq_some.1 hpackable
    have hplace : v.place t.oid dest storageLen region offset primary =
        attempt t.oid dest region offset (v.store t storageLen offset primary) := place_oid ..
    rw [hplace, writeSteps, hpackable]
    cases t with
    | date => rfl
    | int2 | int4 | int8 =>
      cases v with
      | null => exact slotSteps_clear
      | int n => exact intSteps_eq n
      | _ => rfl
    | float4 | float8 =>
      cases v with
      | null => exact slotSteps_clear
      | int n => exact floatSteps_eq (Binary64.ofInt n.toInt)
      | float x => exact floatSteps_eq x
      | _ => rfl
    | timestamp | timestamptz =>
      cases v with
      | null => exact slotSteps_clear
      | timestamp micros => exact slotSteps_copy (length_ofIntLE _ _)
      | _ => rfl
    | bpchar =>
      cases v with
      | null => exact slotSteps_clear
      | bytes text => exact slotSteps_pad text
      | _ => rfl
    | varchar | text =>
      cases v with
      | null => exact slotSteps_clear
      | bytes text =>
        cases primary with
        | true => exact primarySteps_eq
        | false => exact variableSteps_eq hsize
      | _ => rfl

/-- A cell is written over the front of its destination and over its entry's part of the
region, and nowhere else.  The bytes are the same whatever stood in the buffers.  A cell
that is not written leaves both as they were, but for an entry that turns out to be
stray.  Step by step it is written alike. -/
theorem place_frame (v : CellValue) (oid : UInt32) (width offset : Nat) (primary : Bool) :
    ∃ slot entry : Bytes, ∀ dest region : Bytes,
      let placed := v.place oid dest width region offset primary
      (region.length < space 8 →
        v.writeSteps oid dest width region offset primary = some placed) ∧
      (∀ fixed used, placed.outcome = .ok (fixed, used) →
        slot.length = fixed ∧ entry.length = used ∧ Replaces dest 0 slot placed.dest ∧
          Replaces region offset entry placed.region) ∧
      (∀ e, placed.outcome = .error e → placed.dest = dest ∧
        (¬v.Stray oid dest region offset primary → placed.region = region)) ∧
      (v.Stray oid dest region offset primary →
        ∃ e, placed.outcome = .error e ∧ Replaces region offset entry placed.region) := by
  obtain ⟨slot, entry, hframe⟩ := place_replaces v oid width offset primary
  exact ⟨slot, entry, fun dest region => ⟨fun hsize =>
    writeSteps_eq v oid dest width region offset primary hsize, hframe dest region⟩⟩

/-- A text in the middle of a region, with room for its offset and without. -/
theorem place_frame_note :
    let placed :=
      (bytes [104, 105]).place 1043 (List.replicate 10 9) 16 (List.replicate 9 7) 2 false
    let cut := (bytes [104, 105]).place 1043 [9, 9, 9] 16 (List.replicate 9 7) 2 false
    (bytes [104, 105]).writeSteps 1043 [9, 9, 9] 16 (List.replicate 9 7) 2 false = some cut ∧
      placed.outcome = .ok (8, 5) ∧ placed.dest.length = 10 ∧ placed.dest.drop 8 = [9, 9] ∧
      placed.region.take 2 = [7, 7] ∧ placed.region.drop 7 = [7, 7] ∧
      cut.outcome = .error (.bounds (.slot 1043 8 3)) ∧ cut.dest = [9, 9, 9] ∧
      cut.region = placed.region := by
  intro placed cut
  obtain ⟨slot, entry, h⟩ := place_frame (bytes [104, 105]) 1043 16 2 false
  have hok : placed.outcome = .ok (8, 5) := rfl
  have herror : cut.outcome = .error (.bounds (.slot 1043 8 3)) := rfl
  obtain ⟨hslot, hentry, hdest, hregion⟩ :=
    (h (List.replicate 10 9) (List.replicate 9 7)).2.1 8 5 hok
  obtain ⟨hsteps, -, herr, hstray⟩ := h [9, 9, 9] (List.replicate 9 7)
  obtain ⟨e, -, hcut⟩ := hstray
    ⟨.varchar, [104, 105], rfl, rfl, rfl, rfl, by decide, by decide, by decide⟩
  have hback := hdest.drop_eq
  rw [hslot] at hback
  have hbehind := hregion.drop_eq
  rw [hentry] at hbehind
  exact ⟨hsteps (by decide), hok, hdest.length_eq, hback, hregion.take_eq, hbehind, herror,
    (herr _ herror).1, hcut.unique hregion⟩

end CellValue
end SeriesWire
