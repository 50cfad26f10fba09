/-
Interleaved waits and signals.  Any number of workers act on the same barriers
through any handles, one atomic access at a time and in any order; a `BarrierRun`
is how far they have come.  A name keeps the first barrier that is made for it, by
a signal or by a waiter, and no other name gets the same one (`Barriers.Reflects`),
so every receiver of a name is tied to the sender that its signals raise
(`Waiter.Tied`).  Hence no signal is lost, wherever it falls between the steps of a
waiter (`no_lost_wakeup`).
-/
import SeriesWire.Readiness

namespace SeriesWire

/-! ## Barriers and signals -/

namespace Barriers

variable {b : Barriers} {name other : String} {barrier : Nat} {signalled : String → Prop}

theorem lookup_append (senders : List (String × Nat)) (name other : String) (barrier : Nat) :
    lookup other (senders ++ [(name, barrier)]) =
      (lookup other senders).or (if name = other then some barrier else none) := by
  induction senders with
  | nil => rfl
  | cons sender rest ih =>
    rw [List.cons_append, lookup, lookup, ih]
    split <;> rfl

/-- A new barrier is closed, and so is one that does not exist. -/
theorem isOpen_append (flags : List Bool) (senders senders' : List (String × Nat)) (barrier : Nat) :
    isOpen ⟨flags ++ [false], senders⟩ barrier = isOpen ⟨flags, senders'⟩ barrier := by
  simp only [isOpen, List.getD_eq_getElem?_getD]
  rcases Nat.lt_trichotomy barrier flags.length with hlt | heq | hgt
  · rw [List.getElem?_append_left hlt]
  · rw [heq, List.getElem?_concat_length, List.getElem?_eq_none (Nat.le_refl _)]
    rfl
  · rw [List.getElem?_eq_none (by rw [List.length_append, List.length_singleton]; omega),
      List.getElem?_eq_none (Nat.le_of_lt hgt)]

/-- Each name has at most one barrier and shares it with no other, and the barrier
of a name is open exactly if the name was signalled. -/
structure Reflects (b : Barriers) (signalled : String → Prop) : Prop where
  lt : ∀ name barrier, b.find? name = some barrier → barrier < b.flags.length
  apart : ∀ name other barrier, b.find? name = some barrier → b.find? other = some barrier →
    name = other
  isOpen : ∀ name barrier, b.find? name = some barrier →
    (b.isOpen barrier = true ↔ signalled name)
  made : ∀ name, signalled name → ∃ barrier, b.find? name = some barrier

theorem reflects_empty : ({} : Barriers).Reflects fun _ => False where
  lt _ _ h := by cases h
  apart _ _ _ h := by cases h
  isOpen _ _ h := by cases h
  made _ h := h.elim

theorem Reflects.isReady_iff (h : b.Reflects signalled) (name : String) :
    b.isReady name = true ↔ signalled name := by
  rw [isReady]
  cases hfound : b.find? name with
  | some barrier => exact h.isOpen name barrier hfound
  | none =>
    refine ⟨nofun, fun hsignalled => ?_⟩
    obtain ⟨barrier, hmade⟩ := h.made name hsignalled
    rw [hfound] at hmade
    cases hmade

/-- What is made for one name is found under that name only. -/
theorem find?_obtain (b : Barriers) (name other : String) :
    (b.obtain name).1.find? other =
      if name = other then some (b.obtain name).2 else b.find? other := by
  cases hfound : b.find? name with
  | some barrier =>
    simp only [obtain, hfound]
    split
    next hsame => rw [← hsame, hfound]
    next => rfl
  | none =>
    simp only [obtain, hfound]
    rw [find?, lookup_append]
    split
    next hsame =>
      rw [← hsame]
      change (b.find? name).or _ = _
      rw [hfound, Option.none_or]
    next => exact Option.or_none

theorem isOpen_obtain (b : Barriers) (name : String) (barrier : Nat) :
    (b.obtain name).1.isOpen barrier = b.isOpen barrier := by
  cases hfound : b.find? name with
  | some found => simp only [obtain, hfound]
  | none =>
    simp only [obtain, hfound]
    exact isOpen_append _ _ _ _

/-- A barrier that was made stays the one of its name. -/
theorem find?_obtain_of_some (h : b.find? name = some barrier) (other : String) :
    (b.obtain other).1.find? name = some barrier := by
  rw [find?_obtain]
  split
  next hsame => simp only [obtain, hsame, h]
  next => exact h

theorem Reflects.obtain (h : b.Reflects signalled) (name : String) :
    (b.obtain name).1.Reflects signalled := by
  cases hfound : b.find? name with
  | some barrier =>
    have hsame : (b.obtain name).1 = b := by simp only [Barriers.obtain, hfound]
    rw [hsame]
    exact h
  | none =>
    have hlen : (b.obtain name).1.flags.length = b.flags.length + 1 := by
      simp only [Barriers.obtain, hfound, List.length_append, List.length_singleton]
    have hnew : (b.obtain name).2 = b.flags.length := by simp only [Barriers.obtain, hfound]
    -- Only the new name is at the new barrier, which lies behind all others.
    have hcases : ∀ other barrier, (b.obtain name).1.find? other = some barrier →
        (other = name ∧ barrier = b.flags.length) ∨
          (b.find? other = some barrier ∧ barrier < b.flags.length) := by
      intro other barrier hother
      rw [find?_obtain, hnew] at hother
      split at hother
      next hsame => exact .inl ⟨hsame.symm, (Option.some.inj hother).symm⟩
      next => exact .inr ⟨hother, h.lt other barrier hother⟩
    have hclosed : b.isOpen b.flags.length = false := by
      rw [Barriers.isOpen, List.getD_eq_getElem?_getD, List.getElem?_eq_none (Nat.le_refl _)]
      rfl
    refine ⟨?_, ?_, ?_, ?_⟩
    · intro other barrier hother
      rcases hcases other barrier hother with ⟨-, rfl⟩ | ⟨-, hlt⟩ <;> omega
    · intro first second barrier hfirst hsecond
      rcases hcases first barrier hfirst with ⟨rfl, hlast⟩ | ⟨hfirst, hlt⟩ <;>
        rcases hcases second barrier hsecond with ⟨rfl, hlast'⟩ | ⟨hsecond, hlt'⟩
      · rfl
      · omega
      · omega
      · exact h.apart first second barrier hfirst hsecond
    · intro other barrier hother
      rw [isOpen_obtain]
      rcases hcases other barrier hother with ⟨rfl, rfl⟩ | ⟨hother, -⟩
      · rw [hclosed]
        refine ⟨nofun, fun hsignalled => ?_⟩
        obtain ⟨barrier, hmade⟩ := h.made other hsignalled
        rw [hfound] at hmade
        cases hmade
      · exact h.isOpen other barrier hother
    · intro other hsignalled
      obtain ⟨barrier, hmade⟩ := h.made other hsignalled
      exact ⟨barrier, find?_obtain_of_some hmade name⟩

theorem find?_signal (b : Barriers) (name other : String) :
    (b.signal name).find? other = (b.obtain name).1.find? other := rfl

/-- A signal closes nothing. -/
theorem isOpen_signal (h : b.isOpen barrier = true) (name : String) :
    (b.signal name).isOpen barrier = true := by
  rw [← isOpen_obtain b name] at h
  simp only [signal, isOpen, List.getD_eq_getElem?_getD] at h ⊢
  by_cases hsame : (b.obtain name).2 = barrier
  · cases hflag : (b.obtain name).1.flags[barrier]? with
    | none =>
      rw [hflag] at h
      cases h
    | some flag =>
      rw [hsame, List.getElem?_set_self (List.getElem?_eq_some_iff.1 hflag).1]
      rfl
  · rw [List.getElem?_set_ne hsame]
    exact h

theorem Reflects.signal (h : b.Reflects signalled) (name : String) :
    (b.signal name).Reflects fun other => signalled other ∨ name = other := by
  have hmade := h.obtain name
  have hfound : (b.obtain name).1.find? name = some (b.obtain name).2 := by
    rw [find?_obtain, if_pos rfl]
  have hlt := hmade.lt name _ hfound
  have hraised : ∀ barrier, (b.signal name).isOpen barrier =
      if (b.obtain name).2 = barrier then true else (b.obtain name).1.isOpen barrier := by
    intro barrier
    simp only [Barriers.signal, Barriers.isOpen, List.getD_eq_getElem?_getD]
    split
    next hsame =>
      rw [← hsame, List.getElem?_set_self hlt]
      rfl
    next hne => rw [List.getElem?_set_ne hne]
  refine ⟨?_, ?_, ?_, ?_⟩
  · intro other barrier hother
    rw [Barriers.signal, List.length_set]
    exact hmade.lt other barrier hother
  · exact hmade.apart
  · intro other barrier hother
    rw [find?_signal] at hother
    rw [hraised]
    split
    next hsame =>
      rw [← hsame] at hother
      exact ⟨fun _ => .inr (hmade.apart name other _ hfound hother), fun _ => rfl⟩
    next hne =>
      rw [hmade.isOpen other barrier hother]
      refine ⟨.inl, fun hor => hor.resolve_right fun hsame => hne ?_⟩
      rw [← hsame, hfound] at hother
      exact Option.some.inj hother
  · rintro other (hsignalled | rfl)
    · exact hmade.made other hsignalled
    · exact ⟨_, hfound⟩

end Barriers

/-! ## Runs -/

/-- One atomic access, or the call of a wait, which does nothing yet. -/
inductive BarrierOp
  | signal (name : String)
  | isReady (name : String)
  | wait (name : String)
  /-- The next step of the waiter with this number. -/
  | advance (waiter : Nat)
  deriving DecidableEq, Repr

/-- The barriers and all who wait, in the order in which they came. -/
structure BarrierRun where
  barriers : Barriers := {}
  waiters : List Waiter := []
  deriving DecidableEq, Repr

namespace BarrierRun

def step (r : BarrierRun) : BarrierOp → BarrierRun
  | .signal name => { r with barriers := r.barriers.signal name }
  | .isReady _ => r
  | .wait name => { r with waiters := r.waiters ++ [{ name }] }
  | .advance i =>
    match r.waiters[i]? with
    | none => r
    | some w =>
      let (barriers, w) := w.step r.barriers
      { barriers, waiters := r.waiters.set i w }

def run (r : BarrierRun) (ops : List BarrierOp) : BarrierRun := ops.foldl step r

/-- The name that an operation is about. -/
def subject? (r : BarrierRun) : BarrierOp → Option String
  | .signal name | .isReady name | .wait name => some name
  | .advance i => r.waiters[i]?.map (·.name)

/-- What waiter `i` comes to when it is polled. -/
def polled? (r : BarrierRun) (i : Nat) : Option Bool :=
  (r.step (.advance i)).waiters[i]?.map Waiter.isReleased

end BarrierRun

/-- Whether the waiter has its receiver. -/
def Waiter.hasSubscribed (w : Waiter) : Bool :=
  match w.stage with
  | .looking | .missed => false
  | .subscribed _ | .released => true

/-- The receiver of a waiter belongs to the barrier of its name, and only a signal
for that name can have released it. -/
def Waiter.Tied (w : Waiter) (b : Barriers) (signalled : String → Prop) : Prop :=
  match w.stage with
  | .looking | .missed => True
  | .subscribed barrier => b.find? w.name = some barrier
  | .released => signalled w.name

/-- The state agrees with the signals so far. -/
structure BarrierRun.Inv (r : BarrierRun) (signalled : String → Prop) : Prop where
  barriers : r.barriers.Reflects signalled
  waiters : ∀ w ∈ r.waiters, w.Tied r.barriers signalled

namespace Waiter

variable {b b' : Barriers} {signalled signalled' : String → Prop} {w : Waiter}

theorem Tied.mono (h : w.Tied b signalled)
    (hkept : ∀ name barrier, b.find? name = some barrier → b'.find? name = some barrier)
    (hmore : ∀ name, signalled name → signalled' name) : w.Tied b' signalled' := by
  rw [Tied] at h ⊢
  cases hstage : w.stage with
  | looking | missed => trivial
  | subscribed barrier =>
    rw [hstage] at h
    exact hkept _ _ h
  | released =>
    rw [hstage] at h
    exact hmore _ h

theorem name_step (b : Barriers) (w : Waiter) : (w.step b).2.name = w.name := by
  simp only [step]
  split
  · split <;> rfl
  · rfl
  · split <;> rfl
  · rfl

/-- A step of a waiter makes at most the barrier of its own name. -/
theorem barriers_step (b : Barriers) (w : Waiter) :
    (w.step b).1 = b ∨ (w.step b).1 = (b.obtain w.name).1 := by
  simp only [step]
  split
  · split <;> exact .inl rfl
  · exact .inr rfl
  · split <;> exact .inl rfl
  · exact .inl rfl

theorem Tied.step (h : w.Tied b signalled) (hb : b.Reflects signalled) :
    (w.step b).2.Tied (w.step b).1 signalled := by
  rw [Tied] at h
  cases hstage : w.stage with
  | looking =>
    simp only [Waiter.step, hstage]
    split
    next barrier hfound => exact hfound
    next => trivial
  | missed =>
    simp only [Waiter.step, hstage]
    show (b.obtain w.name).1.find? w.name = some (b.obtain w.name).2
    rw [Barriers.find?_obtain, if_pos rfl]
  | subscribed barrier =>
    rw [hstage] at h
    simp only [Waiter.step, hstage]
    split
    next hopen => exact (hb.isOpen w.name barrier h).1 hopen
    next =>
      rw [Tied, hstage]
      exact h
  | released =>
    rw [hstage] at h
    simp only [Waiter.step, hstage]
    rw [Tied, hstage]
    exact h

/-- The receiver shows the signals of the name. -/
theorem Tied.isReleased_step_iff (h : w.Tied b signalled) (hb : b.Reflects signalled)
    (hsubscribed : w.hasSubscribed = true) :
    (w.step b).2.isReleased = true ↔ signalled w.name := by
  rw [Tied] at h
  rw [hasSubscribed] at hsubscribed
  cases hstage : w.stage with
  | looking | missed =>
    rw [hstage] at hsubscribed
    cases hsubscribed
  | subscribed barrier =>
    rw [hstage] at h
    rw [← hb.isOpen w.name barrier h]
    simp only [Waiter.step, hstage]
    split
    next hopen => exact ⟨fun _ => hopen, fun _ => rfl⟩
    next hclosed =>
      rw [isReleased, hstage]
      exact ⟨nofun, fun hopen => absurd hopen hclosed⟩
  | released =>
    rw [hstage] at h
    simp only [Waiter.step, hstage]
    rw [isReleased, hstage]
    exact ⟨fun _ => h, fun _ => rfl⟩

/-- How many steps of its own a waiter needs whose name was signalled. -/
def stepsLeft (w : Waiter) : Nat :=
  match w.stage with
  | .looking | .missed => 2
  | .subscribed _ => 1
  | .released => 0

theorem isReleased_of_stepsLeft (h : w.stepsLeft = 0) : w.isReleased = true := by
  rw [stepsLeft] at h
  rw [isReleased]
  cases hstage : w.stage with
  | released => rfl
  | _ =>
    rw [hstage] at h
    cases h

/-- A waiter that looks its signalled name up finds it, and a poll releases it. -/
theorem Tied.stepsLeft_step (h : w.Tied b signalled) (hb : b.Reflects signalled)
    (hsignalled : signalled w.name) : (w.step b).2.stepsLeft ≤ w.stepsLeft - 1 := by
  rw [Tied] at h
  cases hstage : w.stage with
  | looking =>
    obtain ⟨barrier, hmade⟩ := hb.made w.name hsignalled
    simp only [Waiter.step, stepsLeft, hstage, hmade]
    exact Nat.le_refl _
  | missed =>
    simp only [Waiter.step, stepsLeft, hstage]
    exact Nat.le_refl _
  | subscribed barrier =>
    rw [hstage] at h
    have hopen := (hb.isOpen w.name barrier h).2 hsignalled
    simp only [Waiter.step, stepsLeft, hstage, hopen, if_true]
    exact Nat.le_refl _
  | released =>
    simp only [Waiter.step, stepsLeft, hstage]
    exact Nat.le_refl _

end Waiter

namespace BarrierRun

variable {r : BarrierRun} {w : Waiter} {i : Nat} {signalled : String → Prop}

theorem inv_start : ({} : BarrierRun).Inv fun _ => False :=
  ⟨Barriers.reflects_empty, fun _ hw => absurd hw List.not_mem_nil⟩

theorem inv_step (h : r.Inv signalled) (op : BarrierOp) :
    (r.step op).Inv fun name => signalled name ∨ op = .signal name := by
  have hsame : ∀ op : BarrierOp, (∀ name, op ≠ .signal name) →
      (fun name => signalled name ∨ op = .signal name) = signalled :=
    fun op hop => funext fun name => propext (or_iff_left (hop name))
  cases op with
  | signal name =>
    have hadded : (fun other => signalled other ∨ BarrierOp.signal name = .signal other) =
        fun other => signalled other ∨ name = other := by
      simp only [BarrierOp.signal.injEq]
    rw [hadded]
    refine ⟨h.barriers.signal name, fun w hw => (h.waiters w hw).mono ?_ fun _ => .inl⟩
    intro other barrier hfound
    show (r.barriers.signal name).find? other = some barrier
    rw [Barriers.find?_signal]
    exact Barriers.find?_obtain_of_some hfound name
  | isReady name =>
    rw [hsame _ fun _ => BarrierOp.noConfusion]
    exact h
  | wait name =>
    rw [hsame _ fun _ => BarrierOp.noConfusion]
    refine ⟨h.barriers, fun w hw => ?_⟩
    rcases List.mem_append.1 hw with hw | hw
    · exact h.waiters w hw
    · rw [List.mem_singleton.1 hw]
      exact trivial
  | advance i =>
    rw [hsame _ fun _ => BarrierOp.noConfusion]
    cases hw : r.waiters[i]? with
    | none =>
      simp only [step, hw]
      exact h
    | some w =>
      have htied := h.waiters w (List.mem_of_getElem? hw)
      have hmade := w.barriers_step r.barriers
      simp only [step, hw]
      have hbarriers : (w.step r.barriers).1.Reflects signalled := by
        rcases hmade with hmade | hmade <;> rw [hmade]
        · exact h.barriers
        · exact h.barriers.obtain w.name
      refine ⟨hbarriers, fun w' hw' => ?_⟩
      rcases List.mem_or_eq_of_mem_set hw' with hw' | rfl
      · -- The other waiters keep their receivers, whatever this one makes.
        refine (h.waiters w' hw').mono (fun name barrier hfound => ?_) fun _ => id
        show (w.step r.barriers).1.find? name = some barrier
        rcases hmade with hmade | hmade <;> rw [hmade]
        · exact hfound
        · exact Barriers.find?_obtain_of_some hfound w.name
      · exact htied.step h.barriers

theorem run_append (r : BarrierRun) (ops more : List BarrierOp) :
    r.run (ops ++ more) = (r.run ops).run more := List.foldl_append

theorem inv_run (h : r.Inv signalled) (ops : List BarrierOp) :
    (r.run ops).Inv fun name => signalled name ∨ .signal name ∈ ops := by
  induction ops generalizing r signalled with
  | nil =>
    simp only [List.not_mem_nil, or_false]
    exact h
  | cons op ops ih =>
    have hrest := ih (inv_step h op)
    simp only [List.mem_cons, ← or_assoc, eq_comm (b := op)]
    exact hrest

theorem inv_ops (ops : List BarrierOp) :
    (({} : BarrierRun).run ops).Inv fun name => .signal name ∈ ops := by
  have h := inv_run inv_start ops
  simp only [false_or] at h
  exact h

/-! ## What is seen -/

theorem getElem?_step_advance (hw : r.waiters[i]? = some w) :
    (r.step (.advance i)).waiters[i]? = some (w.step r.barriers).2 := by
  have hlt : i < r.waiters.length := (List.getElem?_eq_some_iff.1 hw).1
  simp only [step, hw]
  exact List.getElem?_set_self hlt

/-- Only its own steps move a waiter. -/
theorem getElem?_step_of_ne {op : BarrierOp} (hop : op ≠ .advance i)
    (hw : r.waiters[i]? = some w) : (r.step op).waiters[i]? = some w := by
  cases op with
  | signal name | isReady name => exact hw
  | wait name =>
    have hlt : i < r.waiters.length := (List.getElem?_eq_some_iff.1 hw).1
    show (r.waiters ++ _)[i]? = some w
    rw [List.getElem?_append_left hlt, hw]
  | advance j =>
    have hne : j ≠ i := fun hsame => hop (by rw [hsame])
    cases hj : r.waiters[j]? with
    | none =>
      simp only [step, hj]
      exact hw
    | some w' =>
      simp only [step, hj]
      rw [List.getElem?_set_ne hne, hw]

theorem polled?_eq (hw : r.waiters[i]? = some w) :
    r.polled? i = some (w.step r.barriers).2.isReleased := by
  rw [polled?, getElem?_step_advance hw]
  rfl

/-- A waiter that was not released before and has no receiver is not released by
its next step. -/
theorem isReleased_step_of_not_subscribed {b : Barriers} (h : w.hasSubscribed = false) :
    (w.step b).2.isReleased = false := by
  rw [Waiter.hasSubscribed] at h
  cases hstage : w.stage with
  | looking =>
    simp only [Waiter.step, hstage]
    split <;> rfl
  | missed =>
    simp only [Waiter.step, hstage]
    rfl
  | subscribed barrier | released =>
    rw [hstage] at h
    cases h

theorem Inv.isReleased_step_iff (h : r.Inv signalled) (hw : r.waiters[i]? = some w) :
    (w.step r.barriers).2.isReleased = true ↔ w.hasSubscribed = true ∧ signalled w.name := by
  by_cases hsubscribed : w.hasSubscribed = true
  · rw [and_iff_right hsubscribed]
    exact (h.waiters w (List.mem_of_getElem? hw)).isReleased_step_iff h.barriers hsubscribed
  · rw [isReleased_step_of_not_subscribed (Bool.eq_false_iff.2 hsubscribed)]
    exact ⟨nofun, fun hboth => absurd hboth.1 hsubscribed⟩

theorem isOpen_step {barrier : Nat} (h : r.barriers.isOpen barrier = true) (op : BarrierOp) :
    (r.step op).barriers.isOpen barrier = true := by
  cases op with
  | signal name => exact Barriers.isOpen_signal h name
  | isReady name | wait name => exact h
  | advance i =>
    cases hw : r.waiters[i]? with
    | none =>
      simp only [step, hw]
      exact h
    | some w =>
      simp only [step, hw]
      rcases w.barriers_step r.barriers with hmade | hmade <;> rw [hmade]
      · exact h
      · rw [Barriers.isOpen_obtain]
        exact h

theorem isOpen_run {barrier : Nat} (h : r.barriers.isOpen barrier = true)
    (ops : List BarrierOp) : (r.run ops).barriers.isOpen barrier = true := by
  induction ops generalizing r with
  | nil => exact h
  | cons op ops ih => exact ih (isOpen_step h op)

/-- What is done for one name is not seen under another. -/
theorem Inv.step_apart (h : r.Inv signalled) {op : BarrierOp} {name : String}
    (hop : r.subject? op ≠ some name) :
    (r.step op).barriers.isReady name = r.barriers.isReady name ∧
      ∀ i w, r.waiters[i]? = some w → w.name = name →
        (r.step op).polled? i = r.polled? i := by
  have hnext := inv_step h op
  have hother : signalled name ∨ op = .signal name ↔ signalled name :=
    or_iff_left fun hsignal => hop (by rw [hsignal]; rfl)
  refine ⟨?_, ?_⟩
  · rw [Bool.eq_iff_iff, hnext.barriers.isReady_iff, h.barriers.isReady_iff]
    exact hother
  · rintro i w hw rfl
    have hne : op ≠ .advance i := by
      rintro rfl
      exact hop (by rw [subject?, hw]; rfl)
    have hkept := getElem?_step_of_ne hne hw
    rw [polled?_eq hkept, polled?_eq hw, Option.some.injEq, Bool.eq_iff_iff,
      hnext.isReleased_step_iff hkept, h.isReleased_step_iff hw, hother]

/-- Each step of its own brings a waiter nearer to its release once its name is
signalled, and nobody else can hold it up. -/
theorem Inv.stepsLeft_run (h : r.Inv signalled) (hw : r.waiters[i]? = some w)
    (hsignalled : signalled w.name) (ops : List BarrierOp) :
    ∃ w', (r.run ops).waiters[i]? = some w' ∧
      w'.stepsLeft ≤ w.stepsLeft - ops.count (.advance i) := by
  induction ops generalizing r w signalled with
  | nil => exact ⟨w, hw, Nat.le_refl _⟩
  | cons op ops ih =>
    have hnext := inv_step h op
    by_cases hop : op = .advance i
    · subst hop
      have hstep := getElem?_step_advance hw
      have hless := (h.waiters w (List.mem_of_getElem? hw)).stepsLeft_step h.barriers hsignalled
      rw [← Waiter.name_step r.barriers w] at hsignalled
      obtain ⟨w', hw', hle⟩ := ih hnext hstep (.inl hsignalled)
      refine ⟨w', hw', ?_⟩
      rw [List.count_cons_self]
      omega
    · obtain ⟨w', hw', hle⟩ := ih hnext (getElem?_step_of_ne hop hw) (.inl hsignalled)
      refine ⟨w', hw', ?_⟩
      rw [List.count_cons_of_ne hop]
      exact hle

/-- However waits and signals are interleaved: a receiver sees exactly the signals
of its name, and so does a query; what is open stays open; names do not meddle with
each other; and once its name is signalled a waiter is released after two more steps
of its own, whatever comes between them. -/
theorem no_lost_wakeup (ops : List BarrierOp) :
    let r := ({} : BarrierRun).run ops
    (∀ i w, r.waiters[i]? = some w → w.hasSubscribed = true →
      ∃ released, r.polled? i = some released ∧ (released = true ↔ .signal w.name ∈ ops)) ∧
    (∀ name, r.barriers.isReady name = true ↔ .signal name ∈ ops) ∧
    (∀ more barrier, r.barriers.isOpen barrier = true →
      (r.run more).barriers.isOpen barrier = true) ∧
    (∀ more name, r.barriers.isReady name = true → (r.run more).barriers.isReady name = true) ∧
    (∀ op name, r.subject? op ≠ some name →
      (r.step op).barriers.isReady name = r.barriers.isReady name ∧
        ∀ i w, r.waiters[i]? = some w → w.name = name → (r.step op).polled? i = r.polled? i) ∧
    ∀ i w more, r.waiters[i]? = some w → .signal w.name ∈ ops → 2 ≤ more.count (.advance i) →
      ∃ w', (r.run more).waiters[i]? = some w' ∧ w'.isReleased = true := by
  have hinv := inv_ops ops
  refine ⟨?_, hinv.barriers.isReady_iff, ?_, ?_, ?_, ?_⟩
  · intro i w hw hsubscribed
    refine ⟨_, polled?_eq hw, ?_⟩
    rw [hinv.isReleased_step_iff hw, and_iff_right hsubscribed]
  · exact fun more barrier hopen => isOpen_run hopen more
  · intro more name hready
    rw [← run_append, (inv_ops (ops ++ more)).barriers.isReady_iff]
    exact List.mem_append_left _ ((hinv.barriers.isReady_iff name).1 hready)
  · exact fun op name hop => hinv.step_apart hop
  · intro i w more hw hsignalled hsteps
    obtain ⟨w', hw', hle⟩ := hinv.stepsLeft_run hw hsignalled more
    refine ⟨w', hw', Waiter.isReleased_of_stepsLeft ?_⟩
    have hmost : w.stepsLeft ≤ 2 := by
      rw [Waiter.stepsLeft]
      split <;> omega
    omega

/-- The signal for `cpu` falls between the lookup of its waiter, which misses, and the
subscription. -/
def crossedOps : List BarrierOp :=
  [.wait "cpu", .advance 0, .signal "cpu", .wait "mem", .advance 1, .advance 1, .advance 0]

theorem wakeup_crossedOps :
    (({} : BarrierRun).run crossedOps).waiters =
        [⟨"cpu", .subscribed 0⟩, ⟨"mem", .subscribed 1⟩] ∧
      (({} : BarrierRun).run crossedOps).polled? 0 = some true ∧
      (({} : BarrierRun).run crossedOps).polled? 1 = some false := by
  have hwaiters : (({} : BarrierRun).run crossedOps).waiters =
      [⟨"cpu", .subscribed 0⟩, ⟨"mem", .subscribed 1⟩] := by decide
  obtain ⟨hpolled, -⟩ := no_lost_wakeup crossedOps
  have hcpu := hpolled 0 ⟨"cpu", .subscribed 0⟩ (by rw [hwaiters]; rfl) rfl
  have hmem := hpolled 1 ⟨"mem", .subscribed 1⟩ (by rw [hwaiters]; rfl) rfl
  obtain ⟨released, hcpu, hiff⟩ := hcpu
  obtain ⟨released', hmem, hiff'⟩ := hmem
  have hsignalled : BarrierOp.signal "cpu" ∈ crossedOps := by decide
  have hquiet : ¬BarrierOp.signal "mem" ∈ crossedOps := by decide
  refine ⟨hwaiters, ?_, ?_⟩
  · rw [hcpu, hiff.2 hsignalled]
  · rw [hmem, Bool.eq_false_iff.2 (mt hiff'.1 hquiet)]

end BarrierRun
end SeriesWire
