import Mathlib.Data.Int.Order.Basic
import Mathlib.Data.List.Basic
import Mathlib.Order.Basic
import Mathlib.Tactic.Common

/-!
# The time accounting of the profiler

Server and client measure their threads with the same code: every thread leaves time stamps of the
events `start`, `pop`, `push` and `end`, and `calculate_metrics` adds up the time it has waited and
the time it has worked.

A pop is measured from the last push, and a push and the end from the last pop and the last push.
The sums cover the time between `start` and `end` exactly if each of these is the preceding event,
or has its time stamp (`Trace.Complete`). Otherwise time is counted twice (`sum_spec`). So the sums
are right for a thread that pops and pushes in turn (`complete_iff_alternates`), and wrong for a
thread that stamps the pop of an end marker, or pushes twice for one pop.
-/

namespace Xdbc

/-! ### `calculate_metrics` -/

/-- The name of an event. -/
inductive EventName where
  | start
  | pop
  | push
  | stop
  deriving DecidableEq

/-- A time stamp, counted from the epoch of the clock. -/
structure ProfilingTimestamps where
  timestamp : ℤ
  thread : ℕ
  component : String
  event : EventName
  deriving DecidableEq

/-- The variables of the loop over the events of a thread; a time point is created at the epoch. -/
structure ThreadTimes where
  startTime : ℤ := 0
  popTime : ℤ := 0
  pushTime : ℤ := 0
  endTime : ℤ := 0
  waitingTime : ℤ := 0
  processingTime : ℤ := 0
  hasPopTime : Bool := false
  hasStartTime : Bool := false
  threadBuffersProcessed : ℕ := 0
  deriving DecidableEq

/-- The body of the loop. -/
def ThreadTimes.record (times : ThreadTimes) (e : ProfilingTimestamps) : ThreadTimes :=
  match e.event with
  | .start => { times with startTime := e.timestamp, hasStartTime := true }
  | .pop =>
    let waited :=
      if times.hasPopTime then e.timestamp - times.pushTime
      else if times.hasStartTime then e.timestamp - times.startTime
      else 0
    { times with
      popTime := e.timestamp, waitingTime := times.waitingTime + waited, hasPopTime := true }
  | .push =>
    { times with
      pushTime := e.timestamp
      processingTime := times.processingTime + (e.timestamp - times.popTime)
      threadBuffersProcessed := times.threadBuffersProcessed + 1 }
  | .stop =>
    let processed := if times.hasPopTime then e.timestamp - times.pushTime else 0
    { times with
      endTime := e.timestamp, processingTime := times.processingTime + processed }

/-- The events of a thread of a component. -/
def eventsPerComponentThread (timestamps : List ProfilingTimestamps) (component : String)
    (thread : ℕ) : List ProfilingTimestamps :=
  timestamps.filter fun ts => ts.component = component ∧ ts.thread = thread

/-- What `calculate_metrics` adds up for a thread of a component. -/
def calculateTimes (timestamps : List ProfilingTimestamps) (component : String) (thread : ℕ) :
    ThreadTimes :=
  (eventsPerComponentThread timestamps component thread).foldl ThreadTimes.record {}

/-! ### The events of a thread -/

/-- The events of a thread: it starts, pops before it pushes, and ends. The clock does not go
back. -/
structure Trace where
  start : ProfilingTimestamps
  events : List ProfilingTimestamps
  stop : ProfilingTimestamps
  start_event : start.event = .start
  stop_event : stop.event = .stop
  inner : ∀ e ∈ events, e.event = .pop ∨ e.event = .push
  first : ∀ e ∈ events.head?, e.event = .pop
  epoch : 0 ≤ start.timestamp
  sorted : (start :: events ++ [stop]).Pairwise fun d e => d.timestamp ≤ e.timestamp

/-- The events, in order. -/
def Trace.stamps (tr : Trace) : List ProfilingTimestamps := tr.start :: tr.events ++ [tr.stop]

/-- Every event is measured from a time stamp that is `last`, the one of the preceding event: a pop
and the end from the last push, a push from the last pop. -/
def Paired (last popTime pushTime : ℤ) : List ProfilingTimestamps → Prop
  | [] => last = pushTime
  | e :: es =>
    if e.event = .pop then last = pushTime ∧ Paired e.timestamp e.timestamp pushTime es
    else last = popTime ∧ Paired e.timestamp popTime e.timestamp es

/-- **No time is lost or counted twice**: the events behind the first pop are measured from the
preceding event, where the epoch stands for a push that has not been made. Without a pop nothing is
measured. -/
def Trace.Complete (tr : Trace) : Prop :=
  match tr.events with
  | [] => tr.start.timestamp = tr.stop.timestamp
  | e :: es => Paired e.timestamp e.timestamp 0 es

/-! ### The sums -/

variable {times : ThreadTimes} {last : ℤ}

/-- **The sums behind the first pop** are never too small, and right exactly for a paired list. -/
theorem sum_spec {es : List ProfilingTimestamps} {stop : ProfilingTimestamps}
    (h_stop : stop.event = .stop) (h_inner : ∀ e ∈ es, e.event = .pop ∨ e.event = .push)
    (h_has : times.hasPopTime = true) (h_pop : times.popTime ≤ last)
    (h_push : times.pushTime ≤ last)
    (h_last : ∀ e ∈ es ++ [stop], last ≤ e.timestamp)
    (h_sorted : (es ++ [stop]).Pairwise fun d e => d.timestamp ≤ e.timestamp) :
    let r := (es ++ [stop]).foldl ThreadTimes.record times
    times.waitingTime ≤ r.waitingTime ∧ times.processingTime ≤ r.processingTime ∧
      stop.timestamp - last ≤ (r.waitingTime + r.processingTime)
        - (times.waitingTime + times.processingTime) ∧
      ((r.waitingTime + r.processingTime) - (times.waitingTime + times.processingTime)
          = stop.timestamp - last ↔ Paired last times.popTime times.pushTime es) := by
  -- `last` is the time stamp of the event before, whichever it is
  induction es generalizing times last with
  | nil =>
    -- the end is measured from the last push
    have h_end : last ≤ stop.timestamp := h_last stop (List.mem_singleton_self stop)
    have h_record : times.record stop = { times with
        endTime := stop.timestamp
        processingTime := times.processingTime + (stop.timestamp - times.pushTime) } := by
      simp [ThreadTimes.record, h_stop, h_has]
    simp only [List.nil_append, List.foldl_cons, List.foldl_nil, h_record, Paired]
    omega
  | cons e es ih =>
    rw [List.cons_append] at h_last h_sorted
    obtain ⟨h_next, h_tail⟩ := List.pairwise_cons.mp h_sorted
    have h_e : last ≤ e.timestamp := h_last e List.mem_cons_self
    have h_rest : ∀ d ∈ es, d.event = .pop ∨ d.event = .push := fun d hd =>
      h_inner d (List.mem_cons_of_mem _ hd)
    rcases h_inner e List.mem_cons_self with h_event | h_event
    · -- a pop is measured from the last push, so it is right if that is the event before
      have h_record : times.record e = { times with
          popTime := e.timestamp
          waitingTime := times.waitingTime + (e.timestamp - times.pushTime)
          hasPopTime := true } := by
        simp [ThreadTimes.record, h_event, h_has]
      have h_has' : (times.record e).hasPopTime = true := by rw [h_record]
      have h_pop' : (times.record e).popTime ≤ e.timestamp := by rw [h_record]
      have h_push' : (times.record e).pushTime ≤ e.timestamp := by
        rw [h_record]
        exact h_push.trans h_e
      obtain ⟨h_wait, h_work, h_le, h_iff⟩ := ih h_rest h_has' h_pop' h_push' h_next h_tail
      rw [List.cons_append, List.foldl_cons, Paired, if_pos h_event]
      simp only [h_record] at h_wait h_work h_le h_iff ⊢
      refine ⟨by omega, by omega, by omega, ?_⟩
      rw [← h_iff]
      omega
    · -- a push is measured from the last pop
      have h_record : times.record e = { times with
          pushTime := e.timestamp
          processingTime := times.processingTime + (e.timestamp - times.popTime)
          threadBuffersProcessed := times.threadBuffersProcessed + 1 } := by
        simp [ThreadTimes.record, h_event]
      have h_has' : (times.record e).hasPopTime = true := by rwa [h_record]
      have h_pop' : (times.record e).popTime ≤ e.timestamp := by
        rw [h_record]
        exact h_pop.trans h_e
      have h_push' : (times.record e).pushTime ≤ e.timestamp := by rw [h_record]
      obtain ⟨h_wait, h_work, h_le, h_iff⟩ := ih h_rest h_has' h_pop' h_push' h_next h_tail
      rw [List.cons_append, List.foldl_cons, Paired, if_neg (by rw [h_event]; decide)]
      simp only [h_record] at h_wait h_work h_le h_iff ⊢
      refine ⟨by omega, by omega, by omega, ?_⟩
      rw [← h_iff]
      omega

/-! ### When the accounting is complete -/

/-- The variables behind `start`. -/
def ThreadTimes.started (start : ℤ) : ThreadTimes where
  startTime := start
  hasStartTime := true

/-- The variables behind the first pop. -/
def ThreadTimes.firstPop (start pop : ℤ) : ThreadTimes where
  startTime := start
  hasStartTime := true
  popTime := pop
  waitingTime := pop - start
  hasPopTime := true

/-- The sums cover the time of the thread, and neither is negative. -/
def Accounts (times : ThreadTimes) (tr : Trace) : Prop :=
  times.waitingTime + times.processingTime = tr.stop.timestamp - tr.start.timestamp ∧
    0 ≤ times.waitingTime ∧ 0 ≤ times.processingTime

instance (times : ThreadTimes) (tr : Trace) : Decidable (Accounts times tr) :=
  inferInstanceAs (Decidable (_ ∧ _ ∧ _))

/-- **The time accounting is complete exactly where every event is measured from the preceding
one**, or from a time stamp that is the same. -/
theorem accounts_iff (timestamps : List ProfilingTimestamps) (component : String) (thread : ℕ)
    (tr : Trace) (h_trace : eventsPerComponentThread timestamps component thread = tr.stamps) :
    Accounts (calculateTimes timestamps component thread) tr ↔ tr.Complete := by
  rw [calculateTimes, h_trace, Trace.stamps, List.cons_append, List.foldl_cons]
  have h_start : ThreadTimes.record {} tr.start = .started tr.start.timestamp := by
    simp [ThreadTimes.record, ThreadTimes.started, tr.start_event]
  rw [h_start]
  have h_sorted := tr.sorted
  have h_inner := tr.inner
  have h_first := tr.first
  unfold Trace.Complete
  cases h_events : tr.events with
  | nil =>
    -- without a pop nothing is measured
    rw [h_events] at h_sorted
    have h_le : tr.start.timestamp ≤ tr.stop.timestamp := by simpa using h_sorted
    rw [List.nil_append, List.foldl_cons, List.foldl_nil]
    simp only [Accounts, ThreadTimes.record, ThreadTimes.started, tr.stop_event]
    simp
    omega
  | cons e es =>
    rw [h_events] at h_sorted h_inner h_first
    have h_pop : e.event = .pop := h_first e rfl
    obtain ⟨h_start_le, h_sorted⟩ := List.pairwise_cons.mp h_sorted
    obtain ⟨h_e_le, h_sorted⟩ := List.pairwise_cons.mp h_sorted
    have h_e : tr.start.timestamp ≤ e.timestamp := h_start_le e List.mem_cons_self
    have h_record : ThreadTimes.record (.started tr.start.timestamp) e
        = .firstPop tr.start.timestamp e.timestamp := by
      simp [ThreadTimes.record, ThreadTimes.started, ThreadTimes.firstPop, h_pop]
    rw [List.cons_append, List.foldl_cons, h_record]
    have h_rest : ∀ d ∈ es, d.event = .pop ∨ d.event = .push := fun d hd =>
      h_inner d (List.mem_cons_of_mem _ hd)
    obtain ⟨h_wait, h_work, -, h_iff⟩ := sum_spec tr.stop_event h_rest
      (show (ThreadTimes.firstPop tr.start.timestamp e.timestamp).hasPopTime = true from rfl)
      (le_refl e.timestamp) (tr.epoch.trans h_e) h_e_le h_sorted
    simp only [ThreadTimes.firstPop] at h_wait h_work h_iff ⊢
    rw [← h_iff, Accounts]
    omega

/-! ### Pops and pushes in turn -/

/-- A push follows every pop, and nothing else. -/
def Alternates : List ProfilingTimestamps → Prop
  | [] => True
  | [_] => False
  | d :: e :: es => d.event = .pop ∧ e.event = .push ∧ Alternates es

/-- Behind a push, pops and pushes in turn are measured from the preceding event. -/
theorem paired_of_alternates {es : List ProfilingTimestamps} (h : Alternates es) (pop push : ℤ) :
    Paired push pop push es := by
  induction es using Alternates.induct generalizing pop push with
  | case1 => rfl
  | case2 e => exact h.elim
  | case3 d e es ih =>
    obtain ⟨h_pop, h_push, h_rest⟩ := h
    rw [Paired, if_pos h_pop, Paired, if_neg (by rw [h_push]; decide)]
    exact ⟨rfl, rfl, ih h_rest _ _⟩

/-- If time passes between any two events, nothing else is. -/
theorem alternates_of_paired {es : List ProfilingTimestamps}
    (h_inner : ∀ e ∈ es, e.event = .pop ∨ e.event = .push) {pop push : ℤ} (h_lt : pop < push)
    (h_later : ∀ e ∈ es, push < e.timestamp)
    (h_sorted : es.Pairwise fun d e => d.timestamp < e.timestamp) (h : Paired push pop push es) :
    Alternates es := by
  induction es using Alternates.induct generalizing pop push with
  | case1 => trivial
  | case2 e =>
    have h_e : push < e.timestamp := h_later e List.mem_cons_self
    rw [Paired] at h
    split at h
    · have h_end : e.timestamp = push := h.2
      omega
    · omega
  | case3 d e es ih =>
    have h_d : push < d.timestamp := h_later d List.mem_cons_self
    obtain ⟨h_next, h_sorted⟩ := List.pairwise_cons.mp h_sorted
    have h_e : d.timestamp < e.timestamp := h_next e List.mem_cons_self
    -- the pairs come in the order of their stamps
    rw [Paired] at h
    split at h
    · next h_pop =>
      have h_rest := h.2
      rw [Paired] at h_rest
      split at h_rest
      · omega
      · next h_not =>
        have h_push := (h_inner e (List.mem_cons_of_mem _ List.mem_cons_self)).resolve_left h_not
        refine ⟨h_pop, h_push, ih (fun f hf => h_inner f ?_) h_e ?_ ?_ h_rest.2⟩
        · exact List.mem_cons_of_mem _ (List.mem_cons_of_mem _ hf)
        · exact (List.pairwise_cons.mp h_sorted).1
        · exact (List.pairwise_cons.mp h_sorted).2
    · omega

/-- **Where time passes between any two events**, the accounting is complete exactly for a thread
that pops and pushes in turn, at least once. -/
theorem complete_iff_alternates (tr : Trace)
    (h_strict : tr.stamps.Pairwise fun d e => d.timestamp < e.timestamp) :
    tr.Complete ↔ tr.events ≠ [] ∧ Alternates tr.events := by
  have h_inner := tr.inner
  have h_first := tr.first
  have h_epoch := tr.epoch
  rw [Trace.stamps] at h_strict
  unfold Trace.Complete
  cases h_events : tr.events with
  | nil =>
    rw [h_events] at h_strict
    have h_lt : tr.start.timestamp < tr.stop.timestamp := by simpa using h_strict
    simp
    omega
  | cons e es =>
    rw [h_events] at h_strict h_inner h_first
    have h_pop : e.event = .pop := h_first e rfl
    obtain ⟨h_start_lt, h_strict⟩ := List.pairwise_cons.mp h_strict
    have h_e : tr.start.timestamp < e.timestamp := h_start_lt e List.mem_cons_self
    rw [and_iff_right (List.cons_ne_nil _ _)]
    cases es with
    | nil =>
      -- a pop that is followed by the end
      constructor
      · intro h_end
        have h_zero : e.timestamp = 0 := h_end
        omega
      · exact fun h => h.elim
    | cons d es =>
      obtain ⟨h_e_lt, h_strict⟩ := List.pairwise_cons.mp h_strict
      have h_d : e.timestamp < d.timestamp := h_e_lt d List.mem_cons_self
      change Paired e.timestamp e.timestamp 0 (d :: es) ↔ _
      rw [Paired]
      constructor
      · intro h
        split at h
        · omega
        · next h_not =>
          have h_push :=
            (h_inner d (List.mem_cons_of_mem _ List.mem_cons_self)).resolve_left h_not
          obtain ⟨h_d_lt, h_strict⟩ := List.pairwise_cons.mp h_strict
          refine ⟨h_pop, h_push, alternates_of_paired (fun f hf => h_inner f ?_) h_d
            (fun f hf => h_d_lt f (List.mem_append_left _ hf)) ?_ h.2⟩
          · exact List.mem_cons_of_mem _ (List.mem_cons_of_mem _ hf)
          · exact (List.pairwise_append.mp h_strict).1
      · rintro ⟨-, h_push, h_rest⟩
        rw [if_neg (by rw [h_push]; decide)]
        exact ⟨rfl, paired_of_alternates h_rest _ _⟩

/-! ### Two threads -/

/-- A time stamp of a thread of the compressor or the sender. -/
def stampOf (component : String) (event : EventName) (timestamp : ℤ) : ProfilingTimestamps where
  timestamp := timestamp
  thread := 0
  component := component
  event := event

/-- A compression thread with three buffers: the end marker leaves no time stamp. -/
def compTrace : Trace where
  start := stampOf "comp" .start 10
  events := [stampOf "comp" .pop 11, stampOf "comp" .push 13, stampOf "comp" .pop 13,
    stampOf "comp" .push 20, stampOf "comp" .pop 24, stampOf "comp" .push 25]
  stop := stampOf "comp" .stop 27
  start_event := rfl
  stop_event := rfl
  inner := by decide
  first := by decide
  epoch := by decide
  sorted := by decide

/-- A send thread with one buffer: the pop of the end marker leaves a time stamp. -/
def sendTrace : Trace where
  start := stampOf "send" .start 10
  events := [stampOf "send" .pop 11, stampOf "send" .push 13, stampOf "send" .pop 16]
  stop := stampOf "send" .stop 17
  start_event := rfl
  stop_event := rfl
  inner := by decide
  first := by decide
  epoch := by decide
  sorted := by decide

/-- The stamps of the compression thread, which stand behind those of a send thread, cover its
time. -/
theorem accounts_compTrace :
    Accounts (calculateTimes (sendTrace.stamps ++ compTrace.stamps) "comp" 0) compTrace :=
  (accounts_iff (sendTrace.stamps ++ compTrace.stamps) "comp" 0 compTrace (by decide)).mpr
    (by simp [Trace.Complete, compTrace, Paired, stampOf])

/-- **The wait for the end marker is counted twice**, as waiting and as processing. -/
theorem not_accounts_sendTrace :
    ¬ Accounts (calculateTimes sendTrace.stamps "send" 0) sendTrace := by
  decide

end Xdbc
