import Xdbc.Pipeline.Machine

/-!
# The threads of one stage

A `Crew` is the threads of one stage that take their buffers from one queue, with the rest of the
pipeline left open: it feeds the queue with any buffers and markers, and does what it likes with the
buffers that are neither queued nor in the hands of the crew. What the crew has taken, and which
thread has taken it, is remembered (`popped`).

A law about a crew is proved by induction on `Crew.Run`, with one case for each `Turn`.
-/

namespace Pipeline

open Function

/-- The state of the threads of a stage. -/
structure Crew (T : ℕ) (L β σ : Type) where
  queue : List ℤ
  mem : Memory β σ
  thread : Fin T → L
  /-- The contents of the buffers taken, in order. -/
  popped : List (Fin T × β)

/-- Whose turn it is. -/
inductive Turn (T : ℕ) (β : Type) where
  /-- The buffer `v` is queued with the given contents. -/
  | feed (v : ℤ) (content : β)
  | feedMarker
  /-- A buffer elsewhere gets other contents. -/
  | outside (v : ℤ) (content : β)
  | thread (t : Fin T)

namespace Crew

variable {T : ℕ} {L β σ : Type}

/-- The buffer is neither queued nor in the hands of the crew. -/
def Elsewhere (held : L → Multiset ℤ) (s : Crew T L β σ) (v : ℤ) : Prop :=
  v ∉ s.queue ∧ ∀ t, v ∉ held (s.thread t)

instance (held : L → Multiset ℤ) (s : Crew T L β σ) (v : ℤ) : Decidable (s.Elsewhere held v) :=
  instDecidableAnd

section Run

variable (held : L → Multiset ℤ) (prog : Fin T → L → Op L β σ)

/-- One turn. A thread that has nothing to pop, or has ended, has none. -/
def exec (s : Crew T L β σ) : Turn T β → Option (Crew T L β σ)
  | .feed v c =>
    if v ≠ marker ∧ s.Elsewhere held v then
      some { s with queue := s.queue ++ [v], mem := s.mem.write v c }
    else none
  | .feedMarker => some { s with queue := s.queue ++ [marker] }
  | .outside v c => if s.Elsewhere held v then some { s with mem := s.mem.write v c } else none
  | .thread t =>
    match prog t (s.thread t) with
    | .pop _ k =>
      match s.queue with
      | [] => none
      | v :: rest => some { s with
          queue := rest
          thread := update s.thread t (k v)
          popped := if v = marker then s.popped else s.popped ++ [(t, s.mem.pool v)] }
    | .push _ _ l => some { s with thread := update s.thread t l }
    | .work _ f => some { s with mem := (f s.mem).1, thread := update s.thread t (f s.mem).2 }
    | .leave => none
    | .quit => none

/-- The runs from `s₀`. -/
inductive Run (s₀ : Crew T L β σ) : Crew T L β σ → Prop where
  | start : Run s₀ s₀
  | step {s s' : Crew T L β σ} (h : Run s₀ s) (a : Turn T β) (h_exec : s.exec held prog a = some s') :
      Run s₀ s'

variable {held prog} {s₀ s s' : Crew T L β σ}

/-- Turns taken one after the other are a run. -/
theorem run_of_foldlM {as : List (Turn T β)} (h : Run held prog s₀ s)
    (h_exec : as.foldlM (exec held prog) s = some s') : Run held prog s₀ s' := by
  induction as generalizing s with
  | nil =>
    cases h_exec
    exact h
  | cons a as ih =>
    rw [List.foldlM_cons] at h_exec
    obtain ⟨s₁, h_first, h_rest⟩ := Option.bind_eq_some_iff.mp h_exec
    exact ih (h.step a h_first) h_rest

/-- A thread goes on by itself. -/
theorem Run.work {t : Fin T} {l l' : L} {bs : List ℤ} {f : Memory β σ → Memory β σ × L}
    {m : Memory β σ} (h : Run held prog s₀ s) (h_thread : s.thread t = l)
    (hop : prog t l = .work bs f) (hf : f s.mem = (m, l')) :
    Run held prog s₀ { s with mem := m, thread := update s.thread t l' } := by
  refine h.step (.thread t) ?_
  simp only [exec, h_thread, hop, hf]

/-- A thread takes a buffer that has been elsewhere. -/
theorem Run.take {t : Fin T} {l : L} {q : ℕ} {k : ℤ → L} {v : ℤ} (h : Run held prog s₀ s)
    (h_thread : s.thread t = l) (hop : prog t l = .pop q k) (h_queue : s.queue = [])
    (hv : v ≠ marker) (h_else : s.Elsewhere held v) (c : β) :
    Run held prog s₀ { s with
      mem := s.mem.write v c
      thread := update s.thread t (k v)
      popped := s.popped ++ [(t, c)] } := by
  refine (h.step (.feed v c) (if_pos ⟨hv, h_else⟩)).step (.thread t) ?_
  simp only [exec, h_thread, hop, h_queue, List.nil_append, if_neg hv, Memory.write_pool_self]

variable (held prog s₀) in
/-- Turns that lead to a state satisfying a decidable test. -/
theorem exists_run (as : List (Turn T β)) (p : Crew T L β σ → Prop) [DecidablePred p]
    (h : ((as.foldlM (exec held prog) s₀).any fun s => decide (p s)) = true) :
    ∃ s, Run held prog s₀ s ∧ p s := by
  rw [Option.any_eq_true] at h
  obtain ⟨s, h_exec, h_test⟩ := h
  exact ⟨s, run_of_foldlM .start h_exec, of_decide_eq_true h_test⟩

/-- What the thread `t` has taken. -/
def taken (s : Crew T L β σ) (t : Fin T) : List β := (s.popped.filter (·.1 = t)).map Prod.snd

theorem taken_popped {t : Fin T} {c : β} (h : s'.popped = s.popped ++ [(t, c)]) :
    s'.taken t = s.taken t ++ [c] := by
  simp [taken, h]

theorem taken_popped_of_ne {t u : Fin T} {c : β} (h : s'.popped = s.popped ++ [(t, c)])
    (hu : u ≠ t) : s'.taken u = s.taken u := by
  simp [taken, h, hu.symm]

/-- If no other thread has taken a buffer, the thread has taken all of them. -/
theorem taken_eq_popped {t : Fin T} (h : ∀ x ∈ s.popped, x.1 = t) :
    s.taken t = s.popped.map Prod.snd := by
  rw [taken, List.filter_eq_self.mpr fun x hx => decide_eq_true (h x hx)]

/-- **Two threads that have taken buffers have taken fewer than all**, each of them. -/
theorem length_taken_lt {t : Fin T} {x : Fin T × β} (hx : x ∈ s.popped) (h_ne : x.1 ≠ t) :
    (s.taken t).length < s.popped.length := by
  rw [taken, List.length_map]
  exact List.length_filter_lt_length_iff_exists.mpr ⟨x, hx, by simpa using h_ne⟩

end Run

end Crew

end Pipeline
