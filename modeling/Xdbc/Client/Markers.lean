import Xdbc.Client.Shutdown
import Xdbc.Pipeline.Markers

/-!
# The end markers of the client

How many end markers the stages of the client push: `marking` discharges the obligations of the
pipeline library, also where a receive thread cannot connect (`parked`) and where a serialization
thread forgets its output buffer, so the runs need not be restricted.
-/

namespace Xdbc.Client

open Bytes Pipeline

variable (env : RuntimeEnv) (ext : External)

/-! ### Receive threads that cannot connect -/

/-- A receive thread that cannot connect gets nowhere. -/
def parked (i : ℕ) (l : Receive) : Prop := ext.connects i = false → l = .start

section Programs

variable {σ : Type}

theorem receive_stays (thr : ℕ) (bad : Receive → Prop) {l : Receive} (h : parked ext thr l) :
    Stays (parked ext thr) bad (receive (σ := σ) ext thr l) := by
  by_cases h_connects : ext.connects thr = true
  · exact .of_forall (fun l => by simp [parked, h_connects]) _ _
  · rw [Bool.not_eq_true] at h_connects
    rw [h h_connects]
    simp [receive, h_connects, Stays]

theorem receive_signs (thr : ℕ) (bad : Receive → Prop) {l : Receive}
    (h_none : NoMarker Receive.held l) (h : parked ext thr l) :
    Signs 4 0 (fun _ => false) bad l (receive (σ := σ) ext thr l) := by
  by_cases h_connects : ext.connects thr = true
  · exact (receive_orderly ext thr h_connects bad l).signs (receive_honest ext thr bad l h_none)
  · rw [Bool.not_eq_true] at h_connects
    rw [h h_connects]
    simp [receive, h_connects, Signs]

variable {ext} in
/-- A receive thread that can connect reports. -/
theorem receive_ne_quit {thr : ℕ} (h_connects : ext.connects thr = true) {l : Receive} :
    receive (σ := σ) ext thr l ≠ .quit := by
  intro h
  cases l with
  | start => simp only [receive, h_connects, if_true] at h; cases h
  | readSocket ps b => cases ps <;> cases h
  | _ => cases h

/-! ### Serialization threads that forget a buffer -/

/-- No serialization thread has a marker for a buffer in hand, even if it forgets one. -/
theorem serialize_noMarker (bad : Ser → Prop) (l : Ser) (h : NoMarker Ser.held l) :
    Stays (NoMarker Ser.held) bad (serialize (σ := σ) env ext l) := by
  cases l with
  | popIn =>
    intro v _ _
    dsimp only
    -- the marker ends the thread
    split
    · simp [NoMarker, Ser.held]
    · split <;> simp_all [NoMarker, Ser.held]
  | inspect b =>
    intro m _
    rw [NoMarker, held_inspectHeader]
    exact h
  | row d =>
    simp only [serialize]
    repeat' split
    all_goals exact fun _ _ => h
  | pqOpen b n o =>
    intro m
    dsimp only
    split <;> exact fun _ => h
  | pqRow d =>
    simp only [serialize]
    split
    · intro m
      simp only [PqSerVars.emitRow]
      split <;> exact fun _ => h
    · split <;> exact fun _ _ => h
  -- the free queue delivers no marker
  | popOut b n cells => intro v hv _; have := hv rfl; simp_all [NoMarker, Ser.held]
  | flushPop d => intro v hv _; have := hv rfl; simp_all [NoMarker, Ser.held]
  | pqPopOut b n => intro v hv _; have := hv rfl; simp_all [NoMarker, Ser.held]
  | pqFlushPop d => intro v hv _; have := hv rfl; simp_all [NoMarker, Ser.held]
  | assign d => exact fun _ _ => h
  | emit d => exact fun _ _ => h
  | thrown b o => exact fun _ _ => h
  | _ => simp_all [serialize, Stays, NoMarker, Ser.held]

variable {env ext} in
/-- A serialization thread pushes buffers it has in hand. -/
theorem mem_held_of_serialize_push {l : Ser} {q : ℕ} {v : ℤ} {l' : Ser}
    (h : serialize (σ := σ) env ext l = .push q v l') : v ∈ l.held := by
  cases l with
  | row d =>
    simp only [serialize] at h
    repeat' split at h
    all_goals cases h
  | pqRow d =>
    simp only [serialize] at h
    repeat' split at h
    all_goals cases h
  | _ => cases h <;> simp [Ser.held]

end Programs

/-! ### The client's markers -/

/-- What holds of the program points of all threads. -/
def Unmarked : (t : Tid 4 (parallelism env)) → Local t.1 → Prop
  | ⟨0, i⟩, l => NoMarker Receive.held l ∧ parked ext i l
  | ⟨1, _⟩, l => NoMarker Decomp.held l
  | ⟨2, _⟩, l => NoMarker Ser.held l
  | ⟨3, _⟩, l => NoMarker Write.held l

/-- The client's programs do with the markers what they must. -/
def marking : Marking (machine env ext) never where
  ended := ended
  wf := Unmarked env ext
  signs := by
    rintro ⟨k, i⟩ l h_wf
    match k, i, l, h_wf with
    | 0, i, l, h_wf => exact receive_signs ext i _ h_wf.1 h_wf.2
    | 1, i, l, h_wf =>
      exact (decompress_orderly env ext _ l).signs (decompress_honest env ext _ l h_wf)
    | 2, i, l, h_wf =>
      exact (serialize_orderly env ext _ l).signs_of_push fun q v l' h =>
        h_wf v (mem_held_of_serialize_push h)
    | 3, i, l, h_wf => exact (write_orderly ext i _ l).signs (write_honest ext i _ l h_wf)
  stays := by
    rintro ⟨k, i⟩ l h_wf
    match k, i, l, h_wf with
    | 0, i, l, h_wf =>
      exact (receive_honest ext i _ l h_wf.1).stays.and (receive_stays ext i _ h_wf.2)
    | 1, i, l, h_wf => exact (decompress_honest env ext _ l h_wf).stays
    | 2, i, l, h_wf => exact serialize_noMarker env ext _ l h_wf
    | 3, i, l, h_wf => exact (write_honest ext i _ l h_wf).stays

variable {env} in
/-- When the threads start, no marker has been pushed. -/
theorem marked_initial (h_staff : Staffed env) :
    (marking env ext).Marked (initial env ext) := by
  refine (marking env ext).marked_initial (fun t => ?_) (fun k hk => h_staff.pos k (by omega))
    (fun t => ⟨_, rfl, ?_⟩) (fun q hq => ?_) (by decide) (fun _ => rfl) rfl
  · obtain ⟨k, i⟩ := t
    match k with
    | 0 => exact ⟨fun b hb => absurd hb (Multiset.notMem_zero b), fun _ => rfl⟩
    | 1 => exact fun b hb => absurd hb (Multiset.notMem_zero b)
    | 2 => exact fun b hb => absurd hb (Multiset.notMem_zero b)
    | 3 => exact fun b hb => absurd hb (Multiset.notMem_zero b)
  · obtain ⟨k, i⟩ := t
    match k with
    | 0 => rfl
    | 1 => rfl
    | 2 => rfl
    | 3 => rfl
  · change marker ∉ initialQueue env q
    match q, hq with
    | 0, _ => exact marker_notMem_firstIds _
    | 1, _ => exact List.not_mem_nil
    | 2, _ => exact List.not_mem_nil
    | 3, _ => exact List.not_mem_nil

/-! ### The markers of the receive threads -/

section Receive

variable {env ext} {s : State (machine env ext)}

private theorem exited_of_stage
    (h_exited : ∀ i : Fin env.rcvParallelism, (s.thread ⟨0, i⟩).Exited)
    (t : Tid 4 (parallelism env)) (h_zero : (t.1 : ℕ) = 0) : (s.thread t).Exited := by
  obtain ⟨k, i⟩ := t
  obtain rfl : k = 0 := Fin.ext h_zero
  exact h_exited i

/-- **The receive threads wake the decompressors up**, when they have exited, exactly if all of them
could connect. -/
theorem receivers_signal_iff (h_staff : Staffed env)
    (h_run : Reachable (machine env ext) never (initial env ext) s)
    (h_exited : ∀ i : Fin env.rcvParallelism, (s.thread ⟨0, i⟩).Exited) :
    env.decompParallelism ≤ markers s 1 ↔ Connected env ext := by
  have h_marked := (marking env ext).marked h_run (marked_initial ext h_staff)
  refine (h_marked.pushed_iff _ (k := 0) (by decide) h_staff.decomp
    (exited_of_stage h_exited)).trans ?_
  constructor
  · -- a thread that cannot connect has quit at its start, without reporting
    intro h_normal i hi
    by_contra h_not
    rw [Bool.not_eq_true] at h_not
    have h_start : (s.thread ⟨0, i, hi⟩).loc = Receive.start := (h_marked.wf ⟨0, i, hi⟩).2 h_not
    refine h_normal ⟨0, i, hi⟩ rfl ?_
    rw [h_start]
    change receive ext i .start = .quit
    simp [receive, h_not]
  · rintro h_connected ⟨k, i⟩ h_zero
    obtain rfl : k = 0 := Fin.ext h_zero
    exact receive_ne_quit (h_connected i i.2)

/-- If all receive threads can connect, none that have exited leave a decompressor waiting. -/
theorem not_starves (h_staff : Staffed env) (h_connected : Connected env ext)
    (h_run : Reachable (machine env ext) never (initial env ext) s)
    (h_exited : ∀ i : Fin env.rcvParallelism, (s.thread ⟨0, i⟩).Exited)
    (i : Fin env.decompParallelism) : ¬ Starves s ⟨1, i⟩ :=
  ((marking env ext).marked h_run (marked_initial ext h_staff)).not_starves _ (k := 0) (by decide)
    ((receivers_signal_iff h_staff h_run h_exited).mpr h_connected) rfl

end Receive

end Xdbc.Client
