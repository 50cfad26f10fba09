/-
How far a message reaches.  A reader is `Steady` if, wherever it succeeds, it
also does so in front of more bytes, with the same value and these bytes left
over; it is `Closing` if it succeeds only where nothing is left, so that it fails
in front of more.  Steady steps with a closing one behind them make a closing
reader, and what a closing reader accepts is `SelfDelimiting`: no message is the
beginning of another one.
-/
import SeriesWire.Proofs.Wire.Reads

namespace SeriesWire

open Bytes

/-- No message that `decode` accepts is the beginning of another one, so that
neither more bytes nor fewer make a message. -/
structure SelfDelimiting {α : Type} (decode : Bytes → Except WireError α) : Prop where
  eq_of_isPrefix : ∀ {a b : Bytes} {x y : α}, decode a = .ok x → decode b = .ok y → a <+: b → a = b
  rejects_longer : ∀ {a : Bytes} {x : α}, decode a = .ok x → ∀ extra, extra ≠ [] →
    ∃ e, decode (a ++ extra) = .error e
  rejects_shorter : ∀ {a : Bytes} {x : α}, decode a = .ok x → ∀ n, n < a.length →
    ∃ e, decode (a.take n) = .error e

/-- All three follow from the second. -/
theorem SelfDelimiting.of_longer {α : Type} {decode : Bytes → Except WireError α}
    (h : ∀ {a : Bytes} {x : α}, decode a = .ok x → ∀ extra, extra ≠ [] →
      ∃ e, decode (a ++ extra) = .error e) : SelfDelimiting decode where
  eq_of_isPrefix := by
    rintro a _ x y ha hb ⟨extra, rfl⟩
    by_cases hextra : extra = []
    · rw [hextra, List.append_nil]
    · obtain ⟨e, he⟩ := h ha extra hextra
      rw [he] at hb
      cases hb
  rejects_longer := h
  rejects_shorter := by
    intro a x ha n hn
    have hdropped : a.drop n ≠ [] := fun hnil => by
      rw [List.drop_eq_nil_iff] at hnil
      omega
    cases htaken : decode (a.take n) with
    | error e => exact ⟨e, rfl⟩
    | ok y =>
      obtain ⟨e, he⟩ := h htaken (a.drop n) hdropped
      rw [List.take_append_drop, ha] at he
      cases he

/-- The same reader with more bytes behind what is left. -/
def Reader.followedBy (r : Reader) (extra : Bytes) : Reader := { r with rest := r.rest ++ extra }

theorem Reader.advance_followedBy {r : Reader} {n : Nat} (h : n ≤ r.rest.length) (extra : Bytes) :
    (r.followedBy extra).advance n = (r.advance n).followedBy extra := by
  simp only [Reader.advance, Reader.followedBy, List.drop_append_of_le_length h]

namespace Read

variable {α β : Type} {m : ReadM α} {k : α → ReadM β}

/-- What `m` reads, it reads in front of more bytes too. -/
def Steady (m : ReadM α) : Prop :=
  ∀ r r' a, m r = .ok a r' → ∀ extra, m (r.followedBy extra) = .ok a (r'.followedBy extra)

/-- What `m` reads is all that is left. -/
def Closing (m : ReadM α) : Prop :=
  ∀ r r' a, m r = .ok a r' →
    ∀ extra, extra ≠ [] → ∃ e r'', m (r.followedBy extra) = .error e r''

/-! ## Steps -/

theorem steady_pure (a : α) : Steady (pure a) := by
  intro r r' a' h extra
  cases h
  rfl

theorem Steady.bind (hm : Steady m) (hk : ∀ a, Steady (k a)) : Steady (m >>= k) := by
  intro r r' b h extra
  obtain ⟨a, r'', ha, hb⟩ := bind_eq_ok.1 h
  exact bind_eq_ok.2 ⟨a, r''.followedBy extra, hm _ _ _ ha extra, hk a _ _ _ hb extra⟩

theorem Steady.ite {c : Prop} [Decidable c] {n : ReadM α} (hm : Steady m) (hn : Steady n) :
    Steady (if c then m else n) := by
  split
  · exact hm
  · exact hn

theorem steady_reject (cause : Malformation) : Steady (reject cause : ReadM α) :=
  fun _ _ _ h => nomatch h

theorem steady_bytes (n : Nat) : Steady (bytes n) := by
  intro r r' taken h extra
  simp only [bytes] at h
  split at h
  · cases h
  next hlen =>
    cases h
    have hroom : n ≤ r.rest.length := by
      rw [List.length_take] at hlen
      omega
    have htake : (r.followedBy extra).rest.take n = r.rest.take n :=
      List.take_append_of_le_length hroom
    simp only [bytes, htake, Reader.advance_followedBy hroom, hlen, if_false]

theorem steady_u16 : Steady u16 := (steady_bytes 2).bind fun _ => steady_pure _

theorem steady_u32 : Steady u32 := (steady_bytes 4).bind fun _ => steady_pure _

theorem steady_i16 : Steady i16 := (steady_bytes 2).bind fun _ => steady_pure _

theorem steady_i32 : Steady i32 := (steady_bytes 4).bind fun _ => steady_pure _

/-- The NUL that ends a text is the first one, whatever comes behind it. -/
theorem steady_text : Steady text := by
  intro r r' s h extra
  simp only [text] at h
  split at h
  · cases h
  next b tail hdrop =>
    split at h
    · cases h
    next hs =>
      cases h
      have hroom : (beforeNul r.rest).length + 1 ≤ r.rest.length := by
        have hlen := congrArg List.length hdrop
        rw [List.length_drop, List.length_cons] at hlen
        omega
      have hspelling : beforeNul (r.followedBy extra).rest = beforeNul r.rest :=
        beforeNul_append hroom extra
      have hnul : (r.followedBy extra).rest.drop (beforeNul r.rest).length =
          b :: (tail ++ extra) := by
        rw [Reader.followedBy, List.drop_append_of_le_length (Nat.le_of_succ_le hroom), hdrop,
          List.cons_append]
      simp only [text, hspelling, hnul, hs, Reader.advance_followedBy hroom]

theorem steady_many {item : ReadM α} (hitem : Steady item) (count : Nat) :
    Steady (many count item) := by
  induction count with
  | zero => exact steady_pure []
  | succ count ih =>
    intro r r' l h extra
    rw [many_succ] at h
    cases hfirst : item r with
    | error e r1 =>
      rw [hfirst] at h
      cases h
    | ok a r1 =>
      cases hrest : many count item r1 with
      | error e r2 =>
        simp only [hfirst, hrest] at h
        cases h
      | ok others r2 =>
        simp only [hfirst, hrest] at h
        cases h
        rw [many_succ, hitem _ _ _ hfirst extra]
        simp only [ih _ _ _ hrest extra]

theorem steady_counted {item : ReadM α} (hitem : Steady item) : Steady (counted item) :=
  steady_u16.bind fun _ => steady_many hitem _

/-- What is there before a step is also there with more bytes behind it. -/
theorem steady_has {n : Nat} {otherwise : Reader → Malformation} (hm : Steady m) :
    Steady (get >>= fun r : Reader => if r.has n then m else reject (otherwise r)) := by
  intro r r' a h extra
  change (if r.has n then m else reject (otherwise r)) r = _ at h
  show (if (r.followedBy extra).has n then m else reject _) _ = _
  by_cases hroom : r.has n = true
  · have hmore : (r.followedBy extra).has n = true := by
      rw [Reader.has, Reader.remaining, decide_eq_true_iff] at hroom ⊢
      rw [Reader.followedBy, List.length_append]
      omega
    rw [if_pos hroom] at h
    rw [if_pos hmore]
    exact hm _ _ _ h extra
  · rw [if_neg hroom] at h
    cases h

/-! ## The last step -/

theorem closing_finish (a : α) : Closing (finish >>= fun _ => pure a) := by
  intro r r' b h extra hextra
  obtain ⟨⟨⟩, r'', hfinish, -⟩ := bind_eq_ok.1 h
  have hnone : r.rest = [] := by
    by_cases hrest : r.rest = []
    · exact hrest
    · simp only [finish, hrest, if_false] at hfinish
      cases hfinish
  have hmore : (r.followedBy extra).rest ≠ [] := by
    rw [Reader.followedBy, hnone, List.nil_append]
    exact hextra
  have hrefused : finish (r.followedBy extra) = .error ((r.followedBy extra).fault
      (.trailing (r.followedBy extra).remaining)) (r.followedBy extra) := by
    simp only [finish, hmore, if_false]
  exact ⟨_, _, bind_error hrefused⟩

theorem Steady.closing_bind (hm : Steady m) (hk : ∀ a, Closing (k a)) : Closing (m >>= k) := by
  intro r r' b h extra hextra
  obtain ⟨a, r'', ha, hb⟩ := bind_eq_ok.1 h
  rw [bind_ok (hm _ _ _ ha extra)]
  exact hk a _ _ _ hb extra hextra

theorem Closing.ite {c : Prop} [Decidable c] {n : ReadM α} (hm : Closing m) (hn : Closing n) :
    Closing (if c then m else n) := by
  split
  · exact hm
  · exact hn

theorem closing_reject {k : α → ReadM β} (cause : Malformation) :
    Closing (reject cause >>= k) := by
  intro r r' b h
  obtain ⟨_, _, hreject, -⟩ := bind_eq_ok.1 h
  cases hreject

theorem Closing.selfDelimiting (hm : Closing m) (subject : String) :
    SelfDelimiting fun body => run subject body m := by
  apply SelfDelimiting.of_longer
  intro a x h extra hextra
  rw [run] at h
  split at h
  next y r' hread =>
    obtain ⟨e, r'', herror⟩ := hm _ _ _ hread extra hextra
    refine ⟨e, ?_⟩
    change m (.ofBody subject (a ++ extra)) = _ at herror
    rw [run, herror]
  next => cases h

end Read
end SeriesWire
