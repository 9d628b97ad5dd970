import Xdbc.Pipeline.Monitor

/-!
# `customQueue`

The queue between two stages, the same on the server and the client: a deque with a mutex, the
condition variable `d_condition` on which `pop` waits for an item, and the condition variable
`d_space_available` on which `push` waits for room. `push` and `setCapacity` notify after they have
unlocked the mutex, `pop` before.

As a `Monitor` the queue inherits the invariant that no wake-up is lost. Its calls take effect one
at a time, and what they do is what the machine of a pipeline takes for one step
(`queue_step_atomic`): append an item if there is room, take the oldest one if there is any.
-/

namespace Xdbc

open Pipeline

/-- The condition variables of a queue. -/
inductive CondVar where
  | dCondition
  | dSpaceAvailable
  deriving DecidableEq

/-- The data of a queue, the front of the deque first. A capacity of 0 means unlimited. -/
structure QueueData (α : Type) where
  dQueue : List α
  capacity : ℕ

/-- The member functions of a queue. -/
inductive QueueCall (α : Type) where
  | push (value : α)
  | pop
  | setCapacity (newCapacity : ℕ)
  | size

/-- What they return. -/
inductive QueueResult (α : Type) where
  | void
  /-- What `back()` refers to, if the deque is not empty. -/
  | value (rc : Option α)
  | size (n : ℕ)

section

variable {α : Type}

/-- `customQueue`. -/
def customQueue (α : Type) : Monitor (QueueData α) CondVar (QueueCall α) (QueueResult α) where
  Holds
    | .dCondition, q => q.dQueue ≠ []
    | .dSpaceAvailable, q => q.capacity = 0 ∨ q.dQueue.length < q.capacity
  waitsOn
    | .push _ => some .dSpaceAvailable
    | .pop => some .dCondition
    | .setCapacity _ => none
    | .size => none
  act
    | .push value, q => ({ q with dQueue := value :: q.dQueue }, .void)
    | .pop, q => ({ q with dQueue := q.dQueue.dropLast }, .value q.dQueue.getLast?)
    | .setCapacity newCapacity, q => ({ q with capacity := newCapacity }, .void)
    | .size, q => (q, .size q.dQueue.length)
  notifies
    | .push _ => some .dCondition
    | .pop => some .dSpaceAvailable
    | .setCapacity _ => some .dSpaceAvailable
    | .size => none
  notifiesLocked
    | .pop => true
    | _ => false

/-- A new queue. -/
def QueueData.empty (maxCapacity : ℕ) : QueueData α := ⟨[], maxCapacity⟩

/-- The items in the order in which they will be popped. -/
def QueueData.items (q : QueueData α) : List α := q.dQueue.reverse

theorem guard_push {v : α} {q : QueueData α} :
    (customQueue α).Guard (.push v) q ↔ q.capacity = 0 ∨ q.dQueue.length < q.capacity := by
  simp [Monitor.Guard, customQueue]

theorem guard_pop {q : QueueData α} : (customQueue α).Guard .pop q ↔ q.dQueue ≠ [] := by
  simp [Monitor.Guard, customQueue]

/-- Every member function notifies what it makes true. -/
theorem customQueue_notifies : (customQueue α).Notifies := by
  intro k q c h_guard h_not h_holds
  cases k with
  | push v =>
    cases c with
    | dCondition => rfl
    | dSpaceAvailable => exact absurd (guard_push.mp h_guard) h_not
  | pop =>
    cases c with
    | dCondition => exact absurd (guard_pop.mp h_guard) h_not
    | dSpaceAvailable => rfl
  | setCapacity n =>
    cases c with
    | dCondition => exact absurd h_holds h_not
    | dSpaceAvailable => rfl
  | size => exact absurd h_holds h_not

/-! ### One call at a time -/

/-- The calls as steps of a bounded queue. -/
inductive Atomic : QueueData α → QueueCall α × QueueResult α → QueueData α → Prop where
  | push {q q' : QueueData α} {v : α} (h_room : q.capacity = 0 ∨ q.items.length < q.capacity)
      (h_items : q'.items = q.items ++ [v]) (h_capacity : q'.capacity = q.capacity) :
      Atomic q (.push v, .void) q'
  | pop {q q' : QueueData α} {v : α} (h_items : q.items = v :: q'.items)
      (h_capacity : q'.capacity = q.capacity) : Atomic q (.pop, .value (some v)) q'
  | setCapacity {q q' : QueueData α} {c : ℕ} (h_items : q'.items = q.items)
      (h_capacity : q'.capacity = c) : Atomic q (.setCapacity c, .void) q'
  | size {q : QueueData α} : Atomic q (.size, .size q.items.length) q

/-- **A call is one step of a bounded queue.** -/
theorem atomic_act {k : QueueCall α} {q : QueueData α} (h : (customQueue α).Guard k q) :
    Atomic q (k, ((customQueue α).act k q).2) ((customQueue α).act k q).1 := by
  cases k with
  | push v =>
    refine .push ?_ ?_ rfl
    · rw [QueueData.items, List.length_reverse]
      exact guard_push.mp h
    · simp [QueueData.items, customQueue]
  | pop =>
    -- `pop` takes the last element of the deque, to which `push` adds in front
    obtain ⟨rest, v, h_last⟩ := List.eq_nil_or_concat' q.dQueue |>.resolve_left (guard_pop.mp h)
    have h_result : ((customQueue α).act .pop q).2 = .value (some v) := by
      simp [customQueue, h_last]
    rw [h_result]
    exact .pop (by simp [QueueData.items, customQueue, h_last]) rfl
  | setCapacity c => exact .setCapacity rfl rfl
  | size =>
    rw [show ((customQueue α).act .size q).2 = .size q.items.length by
      simp [customQueue, QueueData.items]]
    exact .size

/-! ### Histories -/

/-- The values of the pushes in a history. -/
def pushedValues (log : List (QueueCall α × QueueResult α)) : List α :=
  log.filterMap fun
    | (.push v, _) => some v
    | _ => none

/-- What the pops in a history have returned, each of them. -/
def popResults (log : List (QueueCall α × QueueResult α)) : List (QueueResult α) :=
  log.filterMap fun
    | (.pop, r) => some r
    | _ => none

/-- What a pop returns that finds the value `v`. -/
def popped (v : α) : QueueResult α := .value (some v)

/-- The capacity is not changed. -/
def CapacityFixed (log : List (QueueCall α × QueueResult α)) : Prop :=
  ∀ c r, (QueueCall.setCapacity c, r) ∉ log

/-- **First in, first out.** -/
theorem Atomic.fifo {q q' : QueueData α} {e : QueueCall α × QueueResult α} (h : Atomic q e q')
    {log : List (QueueCall α × QueueResult α)}
    (h_fifo : popResults log ++ q.items.map popped = (pushedValues log).map popped) :
    popResults (log ++ [e]) ++ q'.items.map popped = (pushedValues (log ++ [e])).map popped := by
  rw [popResults, pushedValues, List.filterMap_append, List.filterMap_append, ← pushedValues,
    ← popResults, List.map_append, ← h_fifo]
  cases h with
  | push h_room h_items => simp [h_items]
  | pop h_items => simp [h_items, popped]
  | setCapacity h_items => simp [h_items]
  | size => simp

/-- A pop takes the oldest value. -/
theorem Atomic.pop_oldest {q q' : QueueData α} {r : QueueResult α} (h : Atomic q (.pop, r) q') :
    ∃ v, r = popped v ∧ q.items = v :: q'.items := by
  cases h with
  | pop h_items => exact ⟨_, rfl, h_items⟩

/-- **A queue that is full does not grow.** -/
theorem Atomic.bounded {q q' : QueueData α} {e : QueueCall α × QueueResult α} (h : Atomic q e q')
    (h_call : ∀ c r, e ≠ (.setCapacity c, r)) {c bound : ℕ} (h_pos : 0 < c) (h_le : c ≤ bound)
    (h_capacity : q.capacity = c) (h_size : q.items.length ≤ bound) :
    q'.capacity = c ∧ q'.items.length ≤ bound := by
  cases h with
  | push h_room h_items h_same =>
    rw [h_items, List.length_append, List.length_singleton, h_same]
    exact ⟨h_capacity, by omega⟩
  | pop h_items h_same =>
    rw [h_items, List.length_cons] at h_size
    exact ⟨h_same.trans h_capacity, by omega⟩
  | setCapacity => exact absurd rfl (h_call _ _)
  | size => exact ⟨h_capacity, h_size⟩

section Runs

open Monitor (start)

variable {T : Type} [DecidableEq T]

/-- The states of a queue and its callers. -/
abbrev QueueState (α T : Type) : Type := Monitor.State (QueueData α) (QueueCall α) (QueueResult α) T

variable {s s' : QueueState α T}

/-- As long as the capacity is not changed the queue stays within what it had and may have. -/
theorem size_le_of_reachable (hI : (customQueue α).Inv s) (h : (customQueue α).Reachable s s')
    (h_fixed : CapacityFixed (s'.log.drop s.log.length)) (h_pos : 0 < s.shared.capacity) :
    s'.shared.capacity = s.shared.capacity ∧
      s'.shared.items.length ≤ max s.shared.items.length s.shared.capacity := by
  refine ((h.preserves customQueue_notifies hI (P := fun q log => s.log <+: log ∧
    (CapacityFixed (log.drop s.log.length) → q.capacity = s.shared.capacity ∧
      q.items.length ≤ max s.shared.items.length s.shared.capacity))
    ⟨List.prefix_rfl, fun _ => ⟨rfl, Nat.le_max_left _ _⟩⟩ ?_).1.2 h_fixed)
  rintro q log k h_guard ⟨⟨new, rfl⟩, h_before⟩
  refine ⟨⟨new ++ [(k, ((customQueue α).act k q).2)], by simp⟩, fun h_new => ?_⟩
  rw [List.drop_append_of_le_length (by simp), List.drop_left] at h_new
  rw [List.drop_left] at h_before
  obtain ⟨h_capacity, h_size⟩ := h_before fun c r h_mem => h_new c r (List.mem_append_left _ h_mem)
  exact (atomic_act h_guard).bounded (fun c r h_eq => h_new c r (by
    rw [← h_eq]; exact List.mem_append_right _ (List.mem_singleton_self _)))
    h_pos (Nat.le_max_right _ _) h_capacity h_size

/-- **The law of the queue.** In every run of any number of threads what the pops have returned,
and then the content of the deque from back to front, are the values pushed, in order: every pop has
returned a value, and no value twice. A pop takes the oldest value that is left. A push takes effect
only where there is room; a queue whose capacity is not changed does not grow beyond it, and one
that is larger than its capacity only shrinks. -/
theorem queue_law {maxCapacity : ℕ}
    (h : (customQueue α).Reachable (start (.empty maxCapacity) : QueueState α T) s) :
    popResults s.log ++ s.shared.dQueue.reverse.map popped = (pushedValues s.log).map popped ∧
      (∀ t s' r, (customQueue α).Step s t s' → s'.log = s.log ++ [(.pop, r)] →
        ∃ v, r = popped v ∧ s.shared.dQueue = s'.shared.dQueue ++ [v]) ∧
      (∀ t s' v r, (customQueue α).Step s t s' → s'.log = s.log ++ [(.push v, r)] →
        s'.shared.dQueue = v :: s.shared.dQueue ∧
          ¬ (0 < s.shared.capacity ∧ s.shared.capacity ≤ s.shared.dQueue.length)) ∧
      (0 < maxCapacity → CapacityFixed s.log → s.shared.dQueue.length ≤ maxCapacity) ∧
      ∀ s', (customQueue α).Reachable s s' → CapacityFixed (s'.log.drop s.log.length) →
        0 < s.shared.capacity →
        s'.shared.dQueue.length ≤ max s.shared.dQueue.length s.shared.capacity := by
  have hI := h.inv customQueue_notifies
  have h_length : ∀ q : QueueData α, q.items.length = q.dQueue.length := fun q =>
    List.length_reverse
  -- a step that adds a call to the history is that call taking effect
  have h_took : ∀ {t s' k r}, (customQueue α).Step s t s' → s'.log = s.log ++ [(k, r)] →
      (customQueue α).Guard k s.shared ∧ Atomic s.shared (k, r) s'.shared := by
    intro t s' k r h_step h_log
    rcases h_step.shared_or hI with ⟨-, h_same⟩ | ⟨k', h_guard, h_shared, h_new⟩
    · rw [h_same] at h_log
      simp at h_log
    · rw [h_log] at h_new
      simp only [List.append_cancel_left_eq, List.cons.injEq, Prod.mk.injEq, and_true] at h_new
      obtain ⟨rfl, rfl⟩ := h_new
      exact ⟨h_guard, h_shared ▸ atomic_act h_guard⟩
  refine ⟨?_, fun t s' r h_step h_log => ?_, fun t s' v r h_step h_log => ?_,
    fun h_pos h_fixed => ?_, fun s' h_run h_fixed h_pos => ?_⟩
  · exact (h.preserves customQueue_notifies (.start _)
      (P := fun q log => popResults log ++ q.items.map popped = (pushedValues log).map popped) rfl
      fun q log k h_guard h_fifo => (atomic_act h_guard).fifo h_fifo).1
  · obtain ⟨v, hr, h_items⟩ := (h_took h_step h_log).2.pop_oldest
    exact ⟨v, hr, by simpa [QueueData.items] using congrArg List.reverse h_items⟩
  · obtain ⟨h_guard, h_atomic⟩ := h_took h_step h_log
    rw [guard_push] at h_guard
    refine ⟨?_, by omega⟩
    cases h_atomic with
    | push h_room h_items => simpa [QueueData.items] using congrArg List.reverse h_items
  · have h_size := (size_le_of_reachable (.start _) h h_fixed h_pos).2
    rw [h_length] at h_size
    exact Nat.le_trans h_size (Nat.max_le.mpr ⟨Nat.zero_le _, Nat.le_refl _⟩)
  · have h_size := (size_le_of_reachable hI h_run h_fixed h_pos).2
    rwa [h_length, h_length] at h_size

/-- Two threads push 1, 2 and 3 and pop 1, and then the capacity is lowered below what is left. -/
theorem queue_law_shrinking :
    ∃ s s' : QueueState ℕ Bool, (customQueue ℕ).Reachable (start (.empty 3)) s ∧
      s.log = [(.push 1, .void), (.push 2, .void), (.push 3, .void), (.pop, popped 1),
        (.setCapacity 1, .void)] ∧
      popResults s.log ++ s.shared.dQueue.reverse.map popped = (pushedValues s.log).map popped ∧
      (customQueue ℕ).Reachable s s' ∧ s'.log = s.log ++ [(.pop, popped 2)] ∧
      s'.shared.dQueue.length ≤ max s.shared.dQueue.length s.shared.capacity := by
  have h_room : ∀ {v : ℕ} {q : QueueData ℕ}, q.dQueue.length < q.capacity →
      (customQueue ℕ).Guard (.push v) q := fun h => guard_push.mpr (.inr h)
  obtain ⟨s₁, h_run, h_quiet, h_shared₁, h_log₁⟩ := Monitor.Reachable.exists_call
    (M := customQueue ℕ) .refl (.start (QueueData.empty 3)) true (.push 1) (h_room (by decide))
  obtain ⟨s₂, h_run, h_quiet, h_shared₂, h_log₂⟩ := h_run.exists_call h_quiet true (.push 2)
    (by rw [h_shared₁]; exact h_room (by decide))
  obtain ⟨s₃, h_run, h_quiet, h_shared₃, h_log₃⟩ := h_run.exists_call h_quiet false (.push 3)
    (by rw [h_shared₂, h_shared₁]; exact h_room (by decide))
  obtain ⟨s₄, h_run, h_quiet, h_shared₄, h_log₄⟩ := h_run.exists_call h_quiet false .pop
    (by rw [h_shared₃, h_shared₂, h_shared₁]; exact guard_pop.mpr (by decide))
  obtain ⟨s, h_run, h_quiet, h_shared, h_log⟩ := h_run.exists_call h_quiet true (.setCapacity 1)
    nofun
  rw [h_log₄, h_log₃, h_log₂, h_log₁, h_shared₃, h_shared₂, h_shared₁] at h_log
  rw [h_shared₄, h_shared₃, h_shared₂, h_shared₁] at h_shared
  obtain ⟨s', h_more, -, -, h_popped⟩ := Monitor.Reachable.exists_call
    (M := customQueue ℕ) .refl h_quiet true .pop (by rw [h_shared]; exact guard_pop.mpr (by decide))
  have h_law := queue_law h_run
  refine ⟨s, s', h_run, h_log, h_law.1, h_more, ?_, h_law.2.2.2.2 s' h_more ?_ ?_⟩
  · rw [h_popped, h_shared]
    rfl
  · rw [h_popped, List.drop_left]
    rintro c r h_mem
    simp at h_mem
  · rw [h_shared]
    exact Nat.zero_lt_one

/-- A thread sleeps in `pop`; the other one has pushed 7 and has not notified it yet. -/
theorem exists_sleeper :
    ∃ s : QueueState ℕ Bool, (customQueue ℕ).Reachable (start (.empty 1)) s ∧
      s.pc false = .waiting .pop ∧ s.shared = ⟨[7], 1⟩ ∧ s.log = [(.push 7, .void)] := by
  have h_empty : ¬ (customQueue ℕ).Guard .pop (.empty 1) := fun h => guard_pop.mp h rfl
  have h_room : (customQueue ℕ).Guard (.push 7) (.empty 1) := guard_push.mpr (.inr Nat.zero_lt_one)
  refine ⟨_, ((((((((Relation.ReflTransGen.refl
    |>.tail ⟨false, .call (k := .pop) rfl⟩)
    |>.tail ⟨false, .lock (.inl rfl) rfl⟩)
    |>.tail ⟨false, .fail rfl h_empty⟩)
    |>.tail ⟨false, .sleep rfl⟩)
    |>.tail ⟨true, .call (k := .push 7) rfl⟩)
    |>.tail ⟨true, .lock (.inl rfl) rfl⟩)
    |>.tail ⟨true, .pass rfl h_room⟩)
    |>.tail ⟨true, .act rfl⟩), rfl, rfl, rfl⟩

/-- **No wake-up is lost.** If a thread sleeps in `pop` although there is an item, or in `push`
although there is room, then another thread has made it so and has not notified it yet. -/
theorem queue_no_lost_wakeup {maxCapacity : ℕ}
    (h : (customQueue α).Reachable (start (.empty maxCapacity) : QueueState α T) s) (t : T) :
    (s.pc t = .waiting .pop → s.shared.dQueue ≠ [] →
      ∃ u, u ≠ t ∧ (customQueue α).Pending .dCondition (s.pc u)) ∧
    ∀ v, s.pc t = .waiting (.push v) →
      s.shared.capacity = 0 ∨ s.shared.dQueue.length < s.shared.capacity →
      ∃ u, u ≠ t ∧ (customQueue α).Pending .dSpaceAvailable (s.pc u) := by
  have hI := h.inv customQueue_notifies
  have h_other : ∀ {k c u}, s.pc t = .waiting k → (customQueue α).Pending c (s.pc u) → u ≠ t := by
    rintro k c u h_wait h_pending rfl
    rw [h_wait] at h_pending
    exact h_pending
  refine ⟨fun h_wait h_item => ?_, fun v h_wait h_room => ?_⟩
  · obtain ⟨u, hu⟩ := hI.awake t .pop .dCondition h_wait rfl h_item
    exact ⟨u, h_other h_wait hu, hu⟩
  · obtain ⟨u, hu⟩ := hI.awake t (.push v) .dSpaceAvailable h_wait rfl h_room
    exact ⟨u, h_other h_wait hu, hu⟩

/-- The push has still to wake the sleeping thread. -/
theorem queue_no_lost_wakeup_sleeper :
    ∃ s : QueueState ℕ Bool, s.pc false = .waiting .pop ∧ s.shared.dQueue = [7] ∧
      ∃ u, u ≠ false ∧ (customQueue ℕ).Pending .dCondition (s.pc u) := by
  obtain ⟨s, h_run, h_wait, h_shared, -⟩ := exists_sleeper
  exact ⟨s, h_wait, by rw [h_shared],
    (queue_no_lost_wakeup h_run false).1 h_wait (by rw [h_shared]; exact List.cons_ne_nil _ _)⟩

end Runs

end

end Xdbc
