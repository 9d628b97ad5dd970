import Mathlib

/-!
# Monitors

An object with a mutex and condition variables. Any number of threads call its operations. A call
locks the mutex, waits on a condition variable until the predicate of that variable holds, changes
the state, and notifies the threads that wait on a condition variable, before or after it unlocks
the mutex. A `Monitor` says what the operations do, and `Monitor.Step` interleaves the steps of the
calls: a thread that waits has released the mutex and sleeps until a later notification, or wakes
up without one, and then has to lock the mutex again.

`Monitor.Inv` is the invariant of every run (`Monitor.Reachable.inv`): the mutex has at most one
holder, what a holder has found out about its predicate is still true, and **no wake-up is lost**:
if a thread sleeps although its predicate holds, then the thread whose change made the predicate
true has still to notify it. For this the operations must notify whatever they make true
(`Monitor.Notifies`).

`Monitor.Reachable.preserves` reduces properties of the shared state to the operations, which take
effect one at a time and only when their predicate holds.
-/

namespace Pipeline

open Function

/-- The operations of an object with a mutex and condition variables. -/
structure Monitor (S C K R : Type) where
  /-- The predicate that is waited for on a condition variable. -/
  Holds : C → S → Prop
  /-- The condition variable on which a call waits. -/
  waitsOn : K → Option C
  /-- What a call does to the shared state, and what it returns. -/
  act : K → S → S × R
  /-- The condition variable that is notified. -/
  notifies : K → Option C
  /-- The notification is made before the mutex is unlocked. -/
  notifiesLocked : K → Bool

namespace Monitor

/-- Where a thread is in a call. -/
inductive Pc (S K R : Type) where
  /-- Between two calls. -/
  | idle
  /-- About to lock the mutex. -/
  | entering (k : K)
  /-- The thread has locked the mutex, and tests the predicate. -/
  | testing (k : K)
  /-- The predicate did not hold: the thread is about to sleep. -/
  | parking (k : K)
  /-- The thread sleeps. -/
  | waiting (k : K)
  /-- The thread is awake again, and has to lock the mutex. -/
  | woken (k : K)
  /-- The predicate holds: the thread is about to change the state. -/
  | acting (k : K)
  /-- The thread has changed the state, which was `before`, and has the mutex. -/
  | changed (k : K) (r : R) (before : S)
  /-- The mutex is unlocked, the notification is still to make. -/
  | released (k : K) (r : R) (before : S)
  /-- The notification is made, the mutex is still to unlock. -/
  | leaving (k : K) (r : R)

variable {S C K R T : Type}

/-- The thread has the mutex. -/
def Pc.Holding : Pc S K R → Prop
  | testing _ | parking _ | acting _ | changed _ _ _ | leaving _ _ => True
  | idle | entering _ | waiting _ | woken _ | released _ _ _ => False

/-- The states of an object and its callers. `log` is the history of the changes: the calls and
their results in the order in which they had the mutex. -/
structure State (S K R T : Type) where
  shared : S
  owner : Option T
  pc : T → Pc S K R
  log : List (K × R)

/-- Nobody has called yet. -/
def start (s : S) : State S K R T := ⟨s, none, fun _ => .idle, []⟩

variable (M : Monitor S C K R)

/-- The predicate of the call holds. -/
def Guard (k : K) (s : S) : Prop := ∀ c ∈ M.waitsOn k, M.Holds c s

/-- `notify_all` on a condition variable, as a waiting thread sees it. -/
def wake [DecidableEq C] (c : Option C) : Pc S K R → Pc S K R
  | .waiting k => if M.waitsOn k = c then .woken k else .waiting k
  | p => p

/-- The thread has still to notify `c`, and its change has made the predicate of `c` true. -/
def Pending (c : C) : Pc S K R → Prop
  | .changed k _ before | .released k _ before =>
    M.notifies k = some c ∧ ¬ M.Holds c before ∧ M.Holds c (M.act k before).1
  | _ => False

/-- Whatever a call makes true is notified. -/
def Notifies : Prop :=
  ∀ k s c, M.Guard k s → ¬ M.Holds c s → M.Holds c (M.act k s).1 → M.notifies k = some c

variable [DecidableEq C] [DecidableEq T]

/-- One step of thread `t`. -/
inductive Step : State S K R T → T → State S K R T → Prop
  | call {s : State S K R T} {t : T} {k : K} (h : s.pc t = .idle) :
      Step s t { s with pc := update s.pc t (.entering k) }
  | lock {s : State S K R T} {t : T} {k : K} (h : s.pc t = .entering k ∨ s.pc t = .woken k)
      (h_free : s.owner = none) :
      Step s t { s with owner := some t, pc := update s.pc t (.testing k) }
  | pass {s : State S K R T} {t : T} {k : K} (h : s.pc t = .testing k)
      (h_guard : M.Guard k s.shared) : Step s t { s with pc := update s.pc t (.acting k) }
  | fail {s : State S K R T} {t : T} {k : K} (h : s.pc t = .testing k)
      (h_guard : ¬ M.Guard k s.shared) : Step s t { s with pc := update s.pc t (.parking k) }
  | sleep {s : State S K R T} {t : T} {k : K} (h : s.pc t = .parking k) :
      Step s t { s with owner := none, pc := update s.pc t (.waiting k) }
  | spurious {s : State S K R T} {t : T} {k : K} (h : s.pc t = .waiting k) :
      Step s t { s with pc := update s.pc t (.woken k) }
  | act {s : State S K R T} {t : T} {k : K} (h : s.pc t = .acting k) :
      Step s t { s with
        shared := (M.act k s.shared).1
        pc := update s.pc t (.changed k (M.act k s.shared).2 s.shared)
        log := s.log ++ [(k, (M.act k s.shared).2)] }
  | notifyLocked {s : State S K R T} {t : T} {k : K} {r : R} {before : S}
      (h : s.pc t = .changed k r before) (h_locked : M.notifiesLocked k = true) :
      Step s t { s with
        pc := update (fun u => M.wake (M.notifies k) (s.pc u)) t (.leaving k r) }
  | unlock {s : State S K R T} {t : T} {k : K} {r : R} (h : s.pc t = .leaving k r) :
      Step s t { s with owner := none, pc := update s.pc t .idle }
  | release {s : State S K R T} {t : T} {k : K} {r : R} {before : S}
      (h : s.pc t = .changed k r before) (h_locked : M.notifiesLocked k = false) :
      Step s t { s with owner := none, pc := update s.pc t (.released k r before) }
  | notify {s : State S K R T} {t : T} {k : K} {r : R} {before : S}
      (h : s.pc t = .released k r before) :
      Step s t { s with pc := update (fun u => M.wake (M.notifies k) (s.pc u)) t .idle }

/-- Some interleaving leads from one state to the other. -/
def Reachable : State S K R T → State S K R T → Prop :=
  Relation.ReflTransGen fun s s' => ∃ t, M.Step s t s'

/-- What holds in every state of a run. -/
structure Inv (s : State S K R T) : Prop where
  /-- The mutex has at most one holder. -/
  mutex : ∀ t, (s.pc t).Holding ↔ s.owner = some t
  /-- A thread that is about to sleep has reason to. -/
  parked : ∀ t k, s.pc t = .parking k → ¬ M.Guard k s.shared
  /-- A thread that is about to change the state may do so. -/
  passed : ∀ t k, s.pc t = .acting k → M.Guard k s.shared
  /-- **No wake-up is lost.** -/
  awake : ∀ t k c, s.pc t = .waiting k → M.waitsOn k = some c → M.Holds c s.shared →
    ∃ u, M.Pending c (s.pc u)

variable {M} {s s' : State S K R T} {t : T}

/-! ### Notifications -/

theorem wake_ne_waiting {c : C} {k : K} {p : Pc S K R} (hk : M.waitsOn k = some c) :
    M.wake (some c) p ≠ .waiting k := by
  intro h
  cases p with
  | waiting k' =>
    simp only [wake] at h
    split at h
    · cases h
    · next h_ne =>
      cases h
      exact h_ne hk
  | _ => cases h

/-- Whoever sleeps after a notification slept before. -/
theorem waiting_of_wake {o : Option C} {k : K} {p : Pc S K R} (h : M.wake o p = .waiting k) :
    p = .waiting k := by
  cases p with
  | waiting k' =>
    simp only [wake] at h
    split at h
    · cases h
    · exact h
  | _ => exact h

theorem parking_of_wake {o : Option C} {k : K} {p : Pc S K R} (h : M.wake o p = .parking k) :
    p = .parking k := by
  cases p with
  | waiting k' =>
    simp only [wake] at h
    split at h <;> cases h
  | _ => exact h

theorem acting_of_wake {o : Option C} {k : K} {p : Pc S K R} (h : M.wake o p = .acting k) :
    p = .acting k := by
  cases p with
  | waiting k' =>
    simp only [wake] at h
    split at h <;> cases h
  | _ => exact h

theorem wake_eq_of_not_waiting {o : Option C} {p : Pc S K R} (h : ∀ k, p ≠ .waiting k) :
    M.wake o p = p := by
  cases p with
  | waiting k => exact absurd rfl (h k)
  | _ => rfl

@[simp] theorem holding_wake {o : Option C} {p : Pc S K R} :
    (M.wake o p).Holding ↔ p.Holding := by
  cases p with
  | waiting k =>
    simp only [wake]
    split <;> exact Iff.rfl
  | _ => exact Iff.rfl

theorem Pending.wake {c : C} {o : Option C} {p : Pc S K R} (h : M.Pending c p) :
    M.Pending c (M.wake o p) := by
  rw [wake_eq_of_not_waiting]
  · exact h
  · rintro k rfl
    exact h

/-! ### The mutex -/

section Mutex

variable {pc : T → Pc S K R} {o : Option T} {p : Pc S K R}

theorem mutex_keeps (h : ∀ u, (pc u).Holding ↔ o = some u) (hp : p.Holding ↔ (pc t).Holding)
    (u : T) : (update pc t p u).Holding ↔ o = some u := by
  by_cases hu : u = t
  · subst hu
    rw [update_self, hp]
    exact h u
  · rw [update_of_ne hu]
    exact h u

theorem mutex_takes (h : ∀ u, (pc u).Holding ↔ o = some u) (h_free : o = none) (hp : p.Holding)
    (u : T) : (update pc t p u).Holding ↔ some t = some u := by
  by_cases hu : u = t
  · subst hu
    rw [update_self]
    exact iff_of_true hp rfl
  · rw [update_of_ne hu, h u, h_free]
    exact iff_of_false nofun fun h_eq => hu (Option.some.inj h_eq).symm

theorem mutex_drops (h : ∀ u, (pc u).Holding ↔ o = some u) (ht : (pc t).Holding)
    (hp : ¬ p.Holding) (u : T) : (update pc t p u).Holding ↔ none = some u := by
  by_cases hu : u = t
  · subst hu
    rw [update_self]
    exact iff_of_false hp nofun
  · rw [update_of_ne hu, h u, (h t).mp ht]
    exact iff_of_false (fun h_eq => hu (Option.some.inj h_eq).symm) nofun

end Mutex

omit [DecidableEq C] [DecidableEq T] in
/-- Two holders of the mutex are one. -/
theorem Inv.holder_unique (hI : M.Inv s) {u : T} (ht : (s.pc t).Holding) (hu : (s.pc u).Holding) :
    u = t :=
  Option.some.inj (((hI.mutex u).mp hu).symm.trans ((hI.mutex t).mp ht))

/-! ### The invariant -/

omit [DecidableEq C] [DecidableEq T] in
theorem Inv.start (s₀ : S) : M.Inv (start s₀ : State S K R T) where
  mutex _ := iff_of_false id nofun
  parked _ _ := nofun
  passed _ _ := nofun
  awake _ _ _ := nofun

omit [DecidableEq C] in
/-- As long as the state is not changed, what the holder of the mutex has found out stays true. -/
theorem Inv.parked_update (hI : M.Inv s) {p : Pc S K R}
    (hp : ∀ k, p = .parking k → ¬ M.Guard k s.shared) (u : T) (k : K)
    (h : update s.pc t p u = .parking k) : ¬ M.Guard k s.shared := by
  by_cases hu : u = t
  · subst hu
    rw [update_self] at h
    exact hp k h
  · rw [update_of_ne hu] at h
    exact hI.parked u k h

omit [DecidableEq C] in
theorem Inv.passed_update (hI : M.Inv s) {p : Pc S K R}
    (hp : ∀ k, p = .acting k → M.Guard k s.shared) (u : T) (k : K)
    (h : update s.pc t p u = .acting k) : M.Guard k s.shared := by
  by_cases hu : u = t
  · subst hu
    rw [update_self] at h
    exact hp k h
  · rw [update_of_ne hu] at h
    exact hI.passed u k h

omit [DecidableEq C] in
/-- A wake-up that is owed by another thread, or still by this one, is not lost. -/
theorem Inv.awake_update (hI : M.Inv s) {p : Pc S K R}
    (h_sleep : ∀ k, p = .waiting k → ¬ M.Guard k s.shared)
    (h_owe : ∀ c, M.Pending c (s.pc t) → M.Pending c p) (u : T) (k : K) (c : C)
    (h : update s.pc t p u = .waiting k) (hk : M.waitsOn k = some c) (h_holds : M.Holds c s.shared) :
    ∃ v, M.Pending c (update s.pc t p v) := by
  have h_guard : M.Guard k s.shared := fun c' hc' => by
    rw [hk, Option.mem_some_iff] at hc'
    exact hc' ▸ h_holds
  -- the thread that moves sleeps only on a guard that fails
  by_cases hu : u = t
  · subst hu
    rw [update_self] at h
    exact absurd h_guard (h_sleep k h)
  · rw [update_of_ne hu] at h
    obtain ⟨v, hv⟩ := hI.awake u k c h hk h_holds
    refine ⟨v, ?_⟩
    -- whoever owes the notification still does, also if it is the thread that moves
    by_cases hvt : v = t
    · subst hvt
      rw [update_self]
      exact h_owe c hv
    · rw [update_of_ne hvt]
      exact hv

/-- A notification wakes all who sleep on its variable; what others owe is still owed. -/
theorem Inv.awake_notify (hI : M.Inv s) {k₀ : K} {p : Pc S K R} (h_sleep : ∀ k, p ≠ .waiting k)
    (h_owed : ∀ c, M.Pending c (s.pc t) → M.notifies k₀ = some c) (u : T) (k : K) (c : C)
    (h : update (fun u => M.wake (M.notifies k₀) (s.pc u)) t p u = .waiting k)
    (hk : M.waitsOn k = some c) (h_holds : M.Holds c s.shared) :
    ∃ v, M.Pending c (update (fun u => M.wake (M.notifies k₀) (s.pc u)) t p v) := by
  by_cases hu : u = t
  · subst hu
    rw [update_self] at h
    exact absurd h (h_sleep k)
  · rw [update_of_ne hu] at h
    obtain ⟨v, hv⟩ := hI.awake u k c (waiting_of_wake h) hk h_holds
    refine ⟨v, ?_⟩
    by_cases hvt : v = t
    · subst hvt
      rw [h_owed c hv] at h
      exact absurd h (wake_ne_waiting hk)
    · rw [update_of_ne hvt]
      exact hv.wake

/-- A notification keeps the invariant. -/
theorem Inv.notified (hI : M.Inv s) {k₀ : K} {p : Pc S K R} (hp : p.Holding ↔ (s.pc t).Holding)
    (h_other : (∀ k, p ≠ .waiting k) ∧ (∀ k, p ≠ .parking k) ∧ ∀ k, p ≠ .acting k)
    (h_owed : ∀ c, M.Pending c (s.pc t) → M.notifies k₀ = some c) :
    M.Inv { s with pc := update (fun u => M.wake (M.notifies k₀) (s.pc u)) t p } := by
  obtain ⟨h_waiting, h_parking, h_acting⟩ := h_other
  refine ⟨?_, fun u k hu => ?_, fun u k hu => ?_, hI.awake_notify h_waiting h_owed⟩
  · exact mutex_keeps (fun u => by rw [holding_wake]; exact hI.mutex u) (by rw [holding_wake, hp])
  · dsimp only at hu ⊢
    by_cases hut : u = t
    · subst hut
      rw [update_self] at hu
      exact absurd hu (h_parking k)
    · rw [update_of_ne hut] at hu
      exact hI.parked u k (parking_of_wake hu)
  · dsimp only at hu ⊢
    by_cases hut : u = t
    · subst hut
      rw [update_self] at hu
      exact absurd hu (h_acting k)
    · rw [update_of_ne hut] at hu
      exact hI.passed u k (acting_of_wake hu)

/-- **Step lemma.** -/
theorem Inv.step (h_notifies : M.Notifies) (hI : M.Inv s) (h : M.Step s t s') : M.Inv s' := by
  cases h with
  | call h =>
    refine ⟨mutex_keeps hI.mutex ?_, hI.parked_update nofun, hI.passed_update nofun,
      hI.awake_update nofun ?_⟩
    · rw [h]; exact Iff.rfl
    · rw [h]; exact fun c => False.elim
  | lock h h_free =>
    refine ⟨mutex_takes hI.mutex h_free trivial, hI.parked_update nofun, hI.passed_update nofun,
      hI.awake_update nofun ?_⟩
    rcases h with h | h <;> · rw [h]; exact fun c => False.elim
  | pass h h_guard =>
    refine ⟨mutex_keeps hI.mutex ?_, hI.parked_update nofun, hI.passed_update ?_,
      hI.awake_update nofun ?_⟩
    · rw [h]; exact Iff.rfl
    · rintro _ ⟨⟩; exact h_guard
    · rw [h]; exact fun c => False.elim
  | fail h h_guard =>
    refine ⟨mutex_keeps hI.mutex ?_, hI.parked_update ?_, hI.passed_update nofun,
      hI.awake_update nofun ?_⟩
    · rw [h]; exact Iff.rfl
    · rintro _ ⟨⟩; exact h_guard
    · rw [h]; exact fun c => False.elim
  | @sleep k h =>
    refine ⟨mutex_drops hI.mutex (by rw [h]; trivial) id, hI.parked_update nofun,
      hI.passed_update nofun, hI.awake_update ?_ ?_⟩
    · rintro _ ⟨⟩; exact hI.parked t k h
    · rw [h]; exact fun c => False.elim
  | spurious h =>
    refine ⟨mutex_keeps hI.mutex ?_, hI.parked_update nofun, hI.passed_update nofun,
      hI.awake_update nofun ?_⟩
    · rw [h]; exact Iff.rfl
    · rw [h]; exact fun c => False.elim
  | @act k h =>
    have ht : (s.pc t).Holding := by rw [h]; trivial
    have h_guard := hI.passed t k h
    refine ⟨mutex_keeps hI.mutex (iff_of_true trivial ht), ?_, ?_, ?_⟩
    · -- nobody else is about to sleep
      intro u k' hu
      dsimp only at hu
      by_cases hut : u = t
      · subst hut; rw [update_self] at hu; cases hu
      · rw [update_of_ne hut] at hu
        exact absurd (hI.holder_unique ht (by rw [hu]; trivial)) hut
    · -- nor to change the state
      intro u k' hu
      dsimp only at hu
      by_cases hut : u = t
      · subst hut; rw [update_self] at hu; cases hu
      · rw [update_of_ne hut] at hu
        exact absurd (hI.holder_unique ht (by rw [hu]; trivial)) hut
    · -- a waiter whose condition held before has its waker, for any other the thread is the waker
      intro u k' c hu hk h_holds
      dsimp only at hu h_holds ⊢
      by_cases h_before : M.Holds c s.shared
      · have hut : u ≠ t := by
          rintro rfl
          rw [update_self] at hu
          cases hu
        rw [update_of_ne hut] at hu
        obtain ⟨v, hv⟩ := hI.awake u k' c hu hk h_before
        have hvt : v ≠ t := by
          rintro rfl
          rw [h] at hv
          exact hv
        exact ⟨v, by rw [update_of_ne hvt]; exact hv⟩
      · exact ⟨t, by
          rw [update_self]
          exact ⟨h_notifies k s.shared c h_guard h_before h_holds, h_before, h_holds⟩⟩
  | notifyLocked h h_locked =>
    refine hI.notified ?_ ⟨nofun, nofun, nofun⟩ ?_
    · rw [h]; exact Iff.rfl
    · rw [h]; exact fun c hc => hc.1
  | unlock h =>
    refine ⟨mutex_drops hI.mutex (by rw [h]; trivial) id, hI.parked_update nofun,
      hI.passed_update nofun, hI.awake_update nofun ?_⟩
    rw [h]; exact fun c => False.elim
  | release h h_locked =>
    refine ⟨mutex_drops hI.mutex (by rw [h]; trivial) id, hI.parked_update nofun,
      hI.passed_update nofun, hI.awake_update nofun ?_⟩
    rw [h]; exact fun c => id
  | notify h =>
    refine hI.notified ?_ ⟨nofun, nofun, nofun⟩ ?_
    · rw [h]; exact Iff.rfl
    · rw [h]; exact fun c hc => hc.1

/-- **The invariant holds in every run.** -/
theorem Reachable.inv (h_notifies : M.Notifies) {s₀ : S} (h : M.Reachable (start s₀) s) :
    M.Inv s := by
  induction h with
  | refl => exact .start s₀
  | tail _ h_step ih =>
    obtain ⟨t, h_step⟩ := h_step
    exact ih.step h_notifies h_step

/-! ### The shared state -/

/-- **The state changes only when a call takes effect**, and then its predicate holds. -/
theorem Step.shared_or (hI : M.Inv s) (h : M.Step s t s') :
    s'.shared = s.shared ∧ s'.log = s.log ∨
      ∃ k, M.Guard k s.shared ∧ s'.shared = (M.act k s.shared).1 ∧
        s'.log = s.log ++ [(k, (M.act k s.shared).2)] := by
  cases h with
  | @act k h => exact .inr ⟨k, hI.passed t k h, rfl, rfl⟩
  | _ => exact .inl ⟨rfl, rfl⟩

/-- **Run lemma.** What every call preserves when its predicate holds is preserved by every run. -/
theorem Reachable.preserves (h_notifies : M.Notifies) (hI : M.Inv s) (h : M.Reachable s s')
    {P : S → List (K × R) → Prop} (h_start : P s.shared s.log)
    (h_act : ∀ x log k, M.Guard k x → P x log →
      P (M.act k x).1 (log ++ [(k, (M.act k x).2)])) : P s'.shared s'.log ∧ M.Inv s' := by
  induction h with
  | refl => exact ⟨h_start, hI⟩
  | tail _ h_step ih =>
    obtain ⟨t, h_step⟩ := h_step
    obtain ⟨h_before, hI'⟩ := ih
    refine ⟨?_, hI'.step h_notifies h_step⟩
    rcases h_step.shared_or hI' with ⟨h_shared, h_log⟩ | ⟨k, h_guard, h_shared, h_log⟩
    · rw [h_shared, h_log]
      exact h_before
    · rw [h_shared, h_log]
      exact h_act _ _ k h_guard h_before

/-- Nobody is in a call. -/
def Quiet (s : State S K R T) : Prop := s.owner = none ∧ ∀ t, s.pc t = .idle

omit [DecidableEq C] [DecidableEq T] in
theorem Quiet.start (s₀ : S) : Quiet (start s₀ : State S K R T) := ⟨rfl, fun _ => rfl⟩

/-- **A call that meets nobody** runs from the lock to its return if its predicate holds. -/
theorem Reachable.exists_call {s₀ : State S K R T} (h : M.Reachable s₀ s) (h_quiet : Quiet s)
    (t : T) (k : K) (h_guard : M.Guard k s.shared) :
    ∃ s', M.Reachable s₀ s' ∧ Quiet s' ∧ s'.shared = (M.act k s.shared).1 ∧
      s'.log = s.log ++ [(k, (M.act k s.shared).2)] := by
  obtain ⟨sh, o, pc, log⟩ := s
  obtain ⟨h_free, h_idle⟩ := h_quiet
  dsimp only at h_free h_idle h_guard
  subst h_free
  -- nobody holds the lock and nobody calls: `t` goes through its call alone
  have h_acted := (((h
    |>.tail ⟨t, .call (k := k) (h_idle t)⟩)
    |>.tail ⟨t, .lock (k := k) (.inl (update_self ..)) rfl⟩)
    |>.tail ⟨t, .pass (k := k) (update_self ..) h_guard⟩)
    |>.tail ⟨t, .act (k := k) (update_self ..)⟩
  dsimp only [update_idem] at h_acted
  -- the two orders of notifying and unlocking
  cases h_locked : M.notifiesLocked k with
  | true =>
    refine ⟨_, (h_acted.tail ⟨t, .notifyLocked (update_self ..) h_locked⟩).tail
      ⟨t, .unlock (k := k) (r := (M.act k sh).2) (by simp)⟩, ⟨rfl, fun u => ?_⟩, rfl, rfl⟩
    by_cases hu : u = t
    · simp [hu]
    · simp [hu, h_idle, wake]
  | false =>
    refine ⟨_, (h_acted.tail ⟨t, .release (update_self ..) h_locked⟩).tail ⟨t, .notify (show _ =
      Pc.released k (M.act k sh).2 sh by simp)⟩, ⟨rfl, fun u => ?_⟩, rfl, rfl⟩
    by_cases hu : u = t
    · simp [hu]
    · simp [hu, h_idle, wake]

end Monitor

end Pipeline
