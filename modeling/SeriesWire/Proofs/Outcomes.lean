/-
Steps that can fail, taken apart.  A chain of steps succeeds only if each of
them does; a walk over a list succeeds if one step does wherever it can stand.
-/

namespace SeriesWire
namespace Outcome

theorem ok_bind {ε α β : Type} (a : α) (f : α → Except ε β) :
    (Except.ok a : Except ε α) >>= f = f a := rfl

theorem exists_of_isOk {ε α : Type} {x : Except ε α} (h : x.isOk = true) : ∃ a, x = .ok a := by
  cases x with
  | error e => cases h
  | ok a => exact ⟨a, rfl⟩

theorem exists_of_not_isOk {ε α : Type} {x : Except ε α} (h : x.isOk = false) :
    ∃ e, x = .error e := by
  cases x with
  | error e => exact ⟨e, rfl⟩
  | ok a => cases h

theorem bind_eq_ok {ε α β : Type} {x : Except ε α} {f : α → Except ε β} {b : β} :
    x >>= f = .ok b ↔ ∃ a, x = .ok a ∧ f a = .ok b := by
  cases x with
  | error e =>
    constructor
    · intro h; cases h
    · rintro ⟨a, h, -⟩; cases h
  | ok a =>
    constructor
    · intro h; exact ⟨a, rfl, h⟩
    · rintro ⟨a', h, hf⟩; cases h; exact hf

/-- A check in front of a chain of steps. -/
theorem check_eq_ok {ε α : Type} {c : Prop} [Decidable c] {e : ε} {rest : PUnit → Except ε α}
    {a : α} : (if c then throw e >>= rest else rest ⟨⟩) = .ok a ↔ ¬c ∧ rest ⟨⟩ = .ok a := by
  split
  next hc => exact ⟨nofun, fun h => absurd hc h.1⟩
  next hc => exact ⟨fun h => ⟨hc, h⟩, fun h => h.2⟩

theorem map_eq_ok {ε α β : Type} {x : Except ε α} {f : α → β} {b : β} :
    x.map f = .ok b ↔ ∃ a, x = .ok a ∧ f a = b := by
  cases x with
  | error e =>
    constructor
    · intro h; cases h
    · rintro ⟨a, h, -⟩; cases h
  | ok a =>
    constructor
    · intro h; exact ⟨a, rfl, Except.ok.inj h⟩
    · rintro ⟨a', h, rfl⟩; cases h; rfl

theorem mapError_eq_ok {ε ε' α : Type} {x : Except ε α} {f : ε → ε'} {a : α} :
    x.mapError f = .ok a ↔ x = .ok a := by
  cases x with
  | error e =>
    constructor <;> (intro h; cases h)
  | ok a' =>
    constructor <;> (intro h; cases h; rfl)

theorem mapError_bind {ε ε' α β : Type} (f : ε → ε') (x : Except ε α) (k : α → Except ε β) :
    (x >>= k).mapError f = x.mapError f >>= fun a => (k a).mapError f := by
  cases x <;> rfl

theorem mapError_mapM {ε ε' α β : Type} (f : ε → ε') (k : α → Except ε β) (l : List α) :
    (l.mapM k).mapError f = l.mapM fun a => (k a).mapError f := by
  induction l with
  | nil => rfl
  | cons a l ih =>
    rw [List.mapM_cons, List.mapM_cons, mapError_bind, ← ih]
    refine congrArg _ (funext fun b => ?_)
    rw [mapError_bind]
    rfl

/-- A walk whose state after `k` items is known to be `state k`. -/
theorem foldlM_ok {ε α σ : Type} {f : σ → α → Except ε σ} (state : Nat → σ) (l : List α)
    (k : Nat) (hstep : ∀ i (h : i < l.length), f (state (k + i)) l[i] = .ok (state (k + i + 1))) :
    l.foldlM f (state k) = .ok (state (k + l.length)) := by
  induction l generalizing k with
  | nil => rfl
  | cons a l ih =>
    have hfirst := hstep 0 (Nat.zero_lt_succ _)
    have hrest : ∀ i (h : i < l.length),
        f (state (k + 1 + i)) l[i] = .ok (state (k + 1 + i + 1)) := by
      intro i h
      have := hstep (i + 1) (Nat.succ_lt_succ h)
      rw [show k + (i + 1) = k + 1 + i by omega] at this
      exact this
    rw [List.foldlM_cons, bind_eq_ok]
    refine ⟨state (k + 1), hfirst, ?_⟩
    rw [ih (k + 1) hrest, List.length_cons, show k + 1 + l.length = k + (l.length + 1) by omega]

/-- A walk that only checks. -/
theorem forM_eq_ok {ε α : Type} {f : α → Except ε Unit} {l : List α} :
    l.forM f = .ok () ↔ ∀ a ∈ l, f a = .ok () := by
  induction l with
  | nil => exact ⟨fun _ a ha => absurd ha List.not_mem_nil, fun _ => rfl⟩
  | cons a l ih =>
    rw [List.forall_mem_cons, ← ih]
    exact bind_eq_ok.trans ⟨fun ⟨_, ha, hl⟩ => ⟨ha, hl⟩, fun ⟨ha, hl⟩ => ⟨(), ha, hl⟩⟩

theorem forM_eq_error {ε α : Type} {f : α → Except ε Unit} {l : List α} {e : ε}
    (h : l.forM f = .error e) : ∃ a ∈ l, f a = .error e := by
  induction l with
  | nil => cases h
  | cons a l ih =>
    change (f a >>= fun _ => l.forM f) = _ at h
    cases ha : f a with
    | error e' =>
      rw [ha] at h
      cases h
      exact ⟨a, List.mem_cons_self, ha⟩
    | ok done =>
      rw [ha] at h
      obtain ⟨a', ha', hfound⟩ := ih h
      exact ⟨a', List.mem_cons_of_mem _ ha', hfound⟩

/-- A walk stops at the first item that fails. -/
theorem mapM_first_error {ε α β : Type} {f : α → Except ε β} {l : List α} {e : ε}
    (h : l.mapM f = .error e) :
    ∃ i, ∃ hi : i < l.length, f l[i] = .error e ∧
      ∀ j (hj : j < i), ∃ b, f (l[j]) = .ok b := by
  induction l with
  | nil => cases h
  | cons a l ih =>
    rw [List.mapM_cons] at h
    cases ha : f a with
    | error e' =>
      rw [ha] at h
      cases h
      exact ⟨0, Nat.zero_lt_succ _, ha, fun j hj => absurd hj (Nat.not_lt_zero j)⟩
    | ok b =>
      rw [ha, ok_bind] at h
      cases hrest : l.mapM f with
      | error e' =>
        rw [hrest] at h
        cases h
        obtain ⟨i, hi, hfound, hbefore⟩ := ih hrest
        refine ⟨i + 1, Nat.succ_lt_succ hi, hfound, fun j hj => ?_⟩
        cases j with
        | zero => exact ⟨b, ha⟩
        | succ j => exact hbefore j (Nat.lt_of_succ_lt_succ hj)
      | ok bs =>
        rw [hrest] at h
        cases h

theorem mapM_eq_error {ε α β : Type} {f : α → Except ε β} {l : List α} {e : ε}
    (h : l.mapM f = .error e) : ∃ a ∈ l, f a = .error e := by
  obtain ⟨i, hi, hfound, -⟩ := mapM_first_error h
  exact ⟨l[i], List.getElem_mem hi, hfound⟩

theorem mapM_eq_ok {ε α β : Type} {f : α → Except ε β} {l : List α} {r : List β} :
    l.mapM f = .ok r ↔
      ∃ h : r.length = l.length, ∀ i (hi : i < l.length), f l[i] = .ok r[i] := by
  induction l generalizing r with
  | nil =>
    constructor
    · intro h
      cases h
      exact ⟨rfl, fun i hi => absurd hi (Nat.not_lt_zero i)⟩
    · rintro ⟨h, -⟩
      rw [List.eq_nil_of_length_eq_zero h]
      rfl
  | cons a l ih =>
    rw [List.mapM_cons, bind_eq_ok]
    constructor
    · rintro ⟨b, hb, h⟩
      rw [bind_eq_ok] at h
      obtain ⟨bs, hbs, h⟩ := h
      cases h
      obtain ⟨hlen, hall⟩ := ih.1 hbs
      refine ⟨by rw [List.length_cons, List.length_cons, hlen], fun i hi => ?_⟩
      cases i with
      | zero => exact hb
      | succ i => exact hall i (Nat.lt_of_succ_lt_succ hi)
    · rintro ⟨hlen, hall⟩
      cases r with
      | nil => cases hlen
      | cons b bs =>
        refine ⟨b, hall 0 (Nat.zero_lt_succ _), ?_⟩
        rw [bind_eq_ok]
        refine ⟨bs, ih.2 ⟨Nat.succ.inj hlen, fun i hi => ?_⟩, rfl⟩
        exact hall (i + 1) (Nat.succ_lt_succ hi)

/-- A walk succeeds if every step does. -/
theorem exists_mapM_eq_ok {ε α β : Type} {f : α → Except ε β} {l : List α} :
    (∃ r, l.mapM f = .ok r) ↔ ∀ i (hi : i < l.length), ∃ b, f l[i] = .ok b := by
  constructor
  · rintro ⟨r, h⟩ i hi
    obtain ⟨hlen, hall⟩ := mapM_eq_ok.1 h
    exact ⟨r[i], hall i hi⟩
  · intro hall
    cases h : l.mapM f with
    | ok r => exact ⟨r, rfl⟩
    | error e =>
      obtain ⟨i, hi, hfound, -⟩ := mapM_first_error h
      obtain ⟨b, hb⟩ := hall i hi
      rw [hfound] at hb
      cases hb

end Outcome
end SeriesWire
