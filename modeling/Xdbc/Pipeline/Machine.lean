import Mathlib

/-!
# Staged pipelines over a shared buffer pool

A **pipeline** has `n` stages, each run by a fixed number of threads. Buffers are named by
integers and travel between the stages through first-in first-out queues:

* queue `0` is the free list, which every stage may pop from and push to;
* queue `k`, for `0 < k < n`, is filled by stage `k - 1` and drained by stage `k`;
* a queue from `n` on is private to the program that uses it.

A queue of capacity `c > 0` blocks its pushers while it holds `c` items; capacity `0` never
blocks. A thread is a deterministic program (`Op` says what it does next), so the interleaving of
the threads is the only choice a run makes; whatever a thread reads from outside the pipeline
is part of its initial local state.

The threads of different stages run different programs, so each stage has a type of local states
of its own.

A stage ends by counting. A thread that leaves its loop adds one to the counter of its stage and
then, in a *separate* step, compares the counter with the number of threads of the stage. A thread
that finds them equal pushes one end marker for every thread of the next stage. Several threads can
find them equal.

`Step` is the small-step relation, `exec` its executable form (`exec_eq_some_iff`), `Reachable`
the states of the runs that avoid a set of local states.
-/

namespace Pipeline

open Function

/-- A thread: its stage and its index in the stage. -/
abbrev Tid (n : ℕ) (par : ℕ → ℕ) : Type := (k : Fin n) × Fin (par k)

/-- The end marker that travels in the queues beside the buffer ids. -/
def marker : ℤ := -1

/-- The shared memory: the buffer pool and what lies outside of it. -/
structure Memory (β σ : Type) where
  /-- The buffers, by id. -/
  pool : ℤ → β
  /-- Everything shared that is not a buffer (files, sockets). -/
  world : σ

/-- Replace the contents of buffer `b`. -/
def Memory.write {β σ : Type} (m : Memory β σ) (b : ℤ) (x : β) : Memory β σ :=
  { m with pool := update m.pool b x }

@[simp] theorem Memory.write_pool_self {β σ : Type} (m : Memory β σ) (b : ℤ) (x : β) :
    (m.write b x).pool b = x := update_self _ _ _

theorem Memory.write_pool_of_ne {β σ : Type} (m : Memory β σ) {b b' : ℤ} (h : b' ≠ b) (x : β) :
    (m.write b x).pool b' = m.pool b' := update_of_ne h _ _

theorem Memory.write_pool {β σ : Type} (m : Memory β σ) (b b' : ℤ) (x : β) :
    (m.write b x).pool b' = if b' = b then x else m.pool b' := update_apply _ _ _ _

@[simp] theorem Memory.write_world {β σ : Type} (m : Memory β σ) (b : ℤ) (x : β) :
    (m.write b x).world = m.world := rfl

/-- What a thread does next. -/
inductive Op (L β σ : Type) : Type where
  /-- Take the oldest item of queue `q`; blocks while there is none. -/
  | pop (q : ℕ) (k : ℤ → L)
  /-- Append `v` to queue `q`; blocks while the queue is full. -/
  | push (q : ℕ) (v : ℤ) (k : L)
  /-- Read and write shared memory, touching the buffers `bs` of the pool. -/
  | work (bs : List ℤ) (f : Memory β σ → Memory β σ × L)
  /-- Leave the loop and report to the counter of the stage. -/
  | leave
  /-- Return without reporting. -/
  | quit

/-- The phases of a thread. Every phase keeps the local state, so that a buffer still named by a
local variable of a finished thread stays visible. -/
inductive Thread (L : Type) : Type where
  | running (l : L)
  /-- The counter is incremented, the comparison is still to come. -/
  | counted (l : L)
  /-- `left` more end markers are to be pushed. -/
  | signalling (l : L) (left : ℕ)
  | returned (l : L)
  /-- Returned without having reported. -/
  | quit (l : L)

namespace Thread

variable {L : Type}

/-- The local state of a thread, in whatever phase. -/
def loc : Thread L → L
  | running l => l
  | counted l => l
  | signalling l _ => l
  | returned l => l
  | quit l => l

@[simp] theorem loc_running (l : L) : (running l).loc = l := rfl
@[simp] theorem loc_counted (l : L) : (counted l).loc = l := rfl
@[simp] theorem loc_signalling (l : L) (m : ℕ) : (signalling l m).loc = l := rfl
@[simp] theorem loc_returned (l : L) : (returned l).loc = l := rfl
@[simp] theorem loc_quit (l : L) : (quit l).loc = l := rfl

/-- The thread has exited. -/
def Exited : Thread L → Prop
  | returned _ => True
  | quit _ => True
  | _ => False

instance (th : Thread L) : Decidable th.Exited := by
  cases th <;> (unfold Exited; infer_instance)

end Thread

/-- One entry of the history of pushes: the queue, the item, and the contents of the buffer it
names at the time of the push. -/
structure Push (β : Type) where
  queue : ℕ
  item : ℤ
  content : β

/-- A pipeline: the number of threads of each stage, the capacity of each queue, the program of each
thread. `L k` are the local states of the threads of stage `k`. -/
structure Machine (n : ℕ) (L : Fin n → Type) (β σ : Type) where
  par : ℕ → ℕ
  cap : ℕ → ℕ
  prog : (t : Tid n par) → L t.1 → Op (L t.1) β σ

variable {n : ℕ} {L : Fin n → Type} {β σ : Type}

/-- A state of the pipeline. The head of a queue is the item popped next; the newest push comes
first in the history. -/
structure State (M : Machine n L β σ) where
  queue : ℕ → List ℤ
  /-- How many threads of each stage have reported. -/
  finished : ℕ → ℕ
  mem : Memory β σ
  thread : (t : Tid n M.par) → Thread (L t.1)
  log : List (Push β)

namespace Machine

variable (M : Machine n L β σ)

/-- There is room for one more item in queue `q`. -/
def Room (s : State M) (q : ℕ) : Prop :=
  M.cap q = 0 ∨ (s.queue q).length < M.cap q

instance (s : State M) (q : ℕ) : Decidable (M.Room s q) := by
  unfold Room; infer_instance

end Machine

/-- One step of thread `t`. -/
inductive Step (M : Machine n L β σ) (s : State M) (t : Tid n M.par) : State M → Prop where
  | pop {l : L t.1} {q : ℕ} {k : ℤ → L t.1} {v : ℤ} {rest : List ℤ}
      (hrun : s.thread t = .running l) (hop : M.prog t l = .pop q k)
      (hq : s.queue q = v :: rest) :
      Step M s t { s with
        queue := update s.queue q rest
        thread := update s.thread t (.running (k v)) }
  | push {l : L t.1} {q : ℕ} {v : ℤ} {l' : L t.1}
      (hrun : s.thread t = .running l) (hop : M.prog t l = .push q v l')
      (hroom : M.Room s q) :
      Step M s t { s with
        queue := update s.queue q (s.queue q ++ [v])
        thread := update s.thread t (.running l')
        log := ⟨q, v, s.mem.pool v⟩ :: s.log }
  | work {l : L t.1} {bs : List ℤ} {f : Memory β σ → Memory β σ × L t.1}
      (hrun : s.thread t = .running l) (hop : M.prog t l = .work bs f) :
      Step M s t { s with
        mem := (f s.mem).1
        thread := update s.thread t (.running (f s.mem).2) }
  | leave {l : L t.1} (hrun : s.thread t = .running l) (hop : M.prog t l = .leave) :
      Step M s t { s with
        finished := update s.finished t.1 (s.finished t.1 + 1)
        thread := update s.thread t (.counted l) }
  | quit {l : L t.1} (hrun : s.thread t = .running l) (hop : M.prog t l = .quit) :
      Step M s t { s with thread := update s.thread t (.quit l) }
  | last {l : L t.1} (hcnt : s.thread t = .counted l) (hfin : s.finished t.1 = M.par t.1) :
      Step M s t { s with thread := update s.thread t (.signalling l (M.par (t.1 + 1))) }
  | notLast {l : L t.1} (hcnt : s.thread t = .counted l) (hfin : s.finished t.1 ≠ M.par t.1) :
      Step M s t { s with thread := update s.thread t (.returned l) }
  | signal {l : L t.1} {m : ℕ} (hsig : s.thread t = .signalling l (m + 1))
      (hroom : M.Room s (t.1 + 1)) :
      Step M s t { s with
        queue := update s.queue (t.1 + 1) (s.queue (t.1 + 1) ++ [marker])
        thread := update s.thread t (.signalling l m)
        log := ⟨t.1 + 1, marker, s.mem.pool marker⟩ :: s.log }
  | done {l : L t.1} (hsig : s.thread t = .signalling l 0) :
      Step M s t { s with thread := update s.thread t (.returned l) }

/-- A step moves one thread. -/
theorem Step.thread_of_ne {M : Machine n L β σ} {s s' : State M} {t u : Tid n M.par}
    (h : Step M s t s') (hu : u ≠ t) : s'.thread u = s.thread u := by
  cases h <;> exact update_of_ne hu _ _

/-- A thread gets into a set of local states by an operation it runs. -/
theorem Step.enters {M : Machine n L β σ} {s s' : State M} {t : Tid n M.par} {p : L t.1 → Prop}
    (h : Step M s t s') (h_before : ¬ p (s.thread t).loc) (h_after : p (s'.thread t).loc) :
    ∃ l, s.thread t = .running l ∧
      ((∃ q k v rest, M.prog t l = .pop q k ∧ s.queue q = v :: rest ∧ s'.log = s.log ∧ p (k v)) ∨
        (∃ q v l', M.prog t l = .push q v l' ∧ p l') ∨
        ∃ bs f, M.prog t l = .work bs f ∧ p (f s.mem).2) := by
  have h_phase : ∀ {th : Thread (L t.1)}, p (update s.thread t th t).loc → p th.loc := by
    intro th h
    rwa [update_self] at h
  cases h with
  | pop hrun hop hq => exact ⟨_, hrun, .inl ⟨_, _, _, _, hop, hq, rfl, h_phase h_after⟩⟩
  | push hrun hop hroom => exact ⟨_, hrun, .inr (.inl ⟨_, _, _, hop, h_phase h_after⟩)⟩
  | work hrun hop => exact ⟨_, hrun, .inr (.inr ⟨_, _, hop, h_phase h_after⟩)⟩
  -- from here on the program counter stays the same
  | leave hrun hop => rw [hrun] at h_before; exact absurd (h_phase h_after) h_before
  | quit hrun hop => rw [hrun] at h_before; exact absurd (h_phase h_after) h_before
  | last hcnt hfin => rw [hcnt] at h_before; exact absurd (h_phase h_after) h_before
  | notLast hcnt hfin => rw [hcnt] at h_before; exact absurd (h_phase h_after) h_before
  | signal hsig hroom => rw [hsig] at h_before; exact absurd (h_phase h_after) h_before
  | done hsig => rw [hsig] at h_before; exact absurd (h_phase h_after) h_before

/-- Thread `t` waits inside a push or a pop. -/
def Blocked (M : Machine n L β σ) (s : State M) (t : Tid n M.par) : Prop :=
  match s.thread t with
  | .running l =>
    match M.prog t l with
    | .pop q _ => s.queue q = []
    | .push q _ _ => ¬ M.Room s q
    | _ => False
  | .signalling _ (_ + 1) => ¬ M.Room s (t.1 + 1)
  | _ => False

instance (M : Machine n L β σ) (s : State M) (t : Tid n M.par) : Decidable (Blocked M s t) := by
  unfold Blocked
  split
  · split <;> infer_instance
  · infer_instance
  · infer_instance

/-- Some thread has not exited, and every thread that has not is blocked. -/
def Deadlock (M : Machine n L β σ) (s : State M) : Prop :=
  (∃ t, ¬ (s.thread t).Exited) ∧ ∀ t, ¬ (s.thread t).Exited → Blocked M s t

instance (M : Machine n L β σ) (s : State M) : Decidable (Deadlock M s) := by
  unfold Deadlock; infer_instance

/-! ### The executable step -/

/-- The step of thread `t` as a function: `none` where the thread is blocked or has exited. -/
def exec (M : Machine n L β σ) (s : State M) (t : Tid n M.par) : Option (State M) :=
  match s.thread t with
  | .running l =>
    match M.prog t l with
    | .pop q k =>
      match s.queue q with
      | [] => none
      | v :: rest => some { s with
          queue := update s.queue q rest
          thread := update s.thread t (.running (k v)) }
    | .push q v l' =>
      if M.Room s q then some { s with
          queue := update s.queue q (s.queue q ++ [v])
          thread := update s.thread t (.running l')
          log := ⟨q, v, s.mem.pool v⟩ :: s.log }
      else none
    | .work _ f => some { s with
        mem := (f s.mem).1
        thread := update s.thread t (.running (f s.mem).2) }
    | .leave => some { s with
        finished := update s.finished t.1 (s.finished t.1 + 1)
        thread := update s.thread t (.counted l) }
    | .quit => some { s with thread := update s.thread t (.quit l) }
  | .counted l =>
    if s.finished t.1 = M.par t.1 then
      some { s with thread := update s.thread t (.signalling l (M.par (t.1 + 1))) }
    else some { s with thread := update s.thread t (.returned l) }
  | .signalling l (m + 1) =>
    if M.Room s (t.1 + 1) then some { s with
        queue := update s.queue (t.1 + 1) (s.queue (t.1 + 1) ++ [marker])
        thread := update s.thread t (.signalling l m)
        log := ⟨t.1 + 1, marker, s.mem.pool marker⟩ :: s.log }
    else none
  | .signalling l 0 => some { s with thread := update s.thread t (.returned l) }
  | .returned _ => none
  | .quit _ => none

/-- `exec` computes exactly the steps of the relation. -/
theorem exec_eq_some_iff {M : Machine n L β σ} {s s' : State M} {t : Tid n M.par} :
    exec M s t = some s' ↔ Step M s t s' := by
  constructor
  · intro h
    unfold exec at h
    -- running: the five operations
    split at h
    · next l hrun =>
      split at h
      · next q k hop =>
        split at h
        · cases h
        · next v rest hq => cases h; exact .pop hrun hop hq
      · next q v l' hop =>
        split at h
        · next hroom => cases h; exact .push hrun hop hroom
        · cases h
      · next bs f hop => cases h; exact .work hrun hop
      · next hop => cases h; exact .leave hrun hop
      · next hop => cases h; exact .quit hrun hop
    · next l hcnt =>
      -- counting in: the last of its stage, or not
      split at h
      · next hfin => cases h; exact .last hcnt hfin
      · next hfin => cases h; exact .notLast hcnt hfin
    · next l m hsig =>
      -- handing on the markers, one by one
      split at h
      · next hroom => cases h; exact .signal hsig hroom
      · cases h
    · next l hsig => cases h; exact .done hsig
    · cases h
    · cases h
  · intro h
    cases h with
    | pop hrun hop hq => simp [exec, hrun, hop, hq]
    | push hrun hop hroom => simp [exec, hrun, hop, hroom]
    | work hrun hop => simp [exec, hrun, hop]
    | leave hrun hop => simp [exec, hrun, hop]
    | quit hrun hop => simp [exec, hrun, hop]
    | last hcnt hfin => simp [exec, hcnt, hfin]
    | notLast hcnt hfin => simp [exec, hcnt, hfin]
    | signal hsig hroom => simp [exec, hsig, hroom]
    | done hsig => simp [exec, hsig]

/-! ### Runs -/

/-- One step of some thread after which its local state avoids `bad`. -/
def Next (M : Machine n L β σ) (bad : (t : Tid n M.par) → L t.1 → Prop) (s s' : State M) : Prop :=
  ∃ t, Step M s t s' ∧ ¬ bad t (s'.thread t).loc

/-- `s'` is reached from `s` by a run none of whose steps leads a thread to a local state in
`bad`. -/
def Reachable (M : Machine n L β σ) (bad : (t : Tid n M.par) → L t.1 → Prop) (s s' : State M) : Prop :=
  Relation.ReflTransGen (Next M bad) s s'

/-- The runs without any restriction. -/
abbrev never {M : Machine n L β σ} : (t : Tid n M.par) → L t.1 → Prop := fun _ _ => False

/-- **Invariant rule.** What holds initially and survives every step holds in every reachable
state. -/
theorem Reachable.invariant {M : Machine n L β σ} {bad : (t : Tid n M.par) → L t.1 → Prop}
    {I : State M → Prop} {s s' : State M} (h : Reachable M bad s s') (h_init : I s)
    (h_step : ∀ s t s', I s → Step M s t s' → ¬ bad t (s'.thread t).loc → I s') : I s' := by
  induction h with
  | refl => exact h_init
  | tail _ hnext ih =>
    obtain ⟨t, hstep, hbad⟩ := hnext
    exact h_step _ t _ ih hstep hbad

/-- Run a schedule: the threads step in the order of the list. `none` where a thread cannot step or
gets to a local state in `bad`. -/
def execAll (M : Machine n L β σ) (bad : (t : Tid n M.par) → L t.1 → Prop)
    [∀ t l, Decidable (bad t l)] (s : State M) : List (Tid n M.par) → Option (State M)
  | [] => some s
  | t :: ts => (exec M s t).bind fun s' =>
    if bad t (s'.thread t).loc then none else execAll M bad s' ts

/-- A schedule that runs through is a run. -/
theorem execAll_reachable {M : Machine n L β σ} {bad : (t : Tid n M.par) → L t.1 → Prop}
    [∀ t l, Decidable (bad t l)] {s s' : State M} {ts : List (Tid n M.par)}
    (h : execAll M bad s ts = some s') : Reachable M bad s s' := by
  induction ts generalizing s with
  | nil => cases h; exact .refl
  | cons t ts ih =>
    simp only [execAll, Option.bind_eq_some_iff] at h
    obtain ⟨s₁, h_exec, h_rest⟩ := h
    split at h_rest
    · cases h_rest
    · next h_not => exact .head ⟨t, exec_eq_some_iff.mp h_exec, h_not⟩ (ih h_rest)

/-- A schedule that ends in a state satisfying a decidable test yields a reachable state that
satisfies it. -/
theorem exists_reachable_of_execAll (M : Machine n L β σ)
    (bad : (t : Tid n M.par) → L t.1 → Prop) [∀ t l, Decidable (bad t l)] (s : State M)
    (ts : List (Tid n M.par)) (p : State M → Prop) [DecidablePred p]
    (h : ((execAll M bad s ts).any fun s' => decide (p s')) = true) :
    ∃ s', Reachable M bad s s' ∧ p s' := by
  rw [Option.any_eq_true] at h
  obtain ⟨s', h_run, h_test⟩ := h
  exact ⟨s', execAll_reachable h_run, of_decide_eq_true h_test⟩

/-! ### Sums over an updated family -/

/-- Replacing one value of a family exchanges one summand. -/
theorem sum_update_add {ι A : Type} {X : ι → Type} [DecidableEq ι] [AddCommMonoid A]
    (F : ∀ i, X i → A) (g : ∀ i, X i) {S : Finset ι} {i : ι} (hi : i ∈ S) (x : X i) :
    (∑ j ∈ S, F j (update g i x j)) + F i (g i) = (∑ j ∈ S, F j (g j)) + F i x := by
  have hrest : ∑ j ∈ S.erase i, F j (update g i x j) = ∑ j ∈ S.erase i, F j (g j) :=
    Finset.sum_congr rfl fun j hj => by rw [update_of_ne (Finset.ne_of_mem_erase hj)]
  have hnew := Finset.sum_erase_add S (fun j => F j (update g i x j)) hi
  have hold := Finset.sum_erase_add S (fun j => F j (g j)) hi
  rw [← hnew, ← hold, hrest, update_self, add_assoc, add_assoc, add_comm (F i x)]

/-- An update outside the index set changes no summand. -/
theorem sum_update_of_notMem {ι A : Type} {X : ι → Type} [DecidableEq ι] [AddCommMonoid A]
    (F : ∀ i, X i → A) (g : ∀ i, X i) {S : Finset ι} {i : ι} (hi : i ∉ S) (x : X i) :
    (∑ j ∈ S, F j (update g i x j)) = ∑ j ∈ S, F j (g j) := by
  refine Finset.sum_congr rfl fun j hj => ?_
  rw [update_of_ne (ne_of_mem_of_not_mem hj hi)]

end Pipeline
