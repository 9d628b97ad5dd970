import Xdbc.Pipeline.Progress

/-!
# The first stages of a pipeline

A program that uses only the first `m` queues of a pipeline of `n` stages can be put into another
pipeline of `m` stages, with other threads behind it. What has been shown of it there holds here
too: who holds which buffer (`Honest.within`), that it keeps the order of the end markers
(`Orderly.within`) and how much it holds while it waits (`Bounded.within`).
-/

namespace Pipeline

open Function

variable {β σ L₀ : Type} {n m k : ℕ} {op : Op L₀ β σ} {l : L₀} {bad : L₀ → Prop}

/-- The operation uses only the first `m` queues. -/
def Op.Within (m : ℕ) : Op L₀ β σ → Prop
  | .pop q _ => q < m
  | .push q _ _ => q < m
  | _ => True

theorem Honest.within {held : L₀ → Multiset ℤ} {wf : L₀ → Prop}
    (h : Honest n held wf bad l op) (h_op : op.Within m) (hm : m ≤ n) :
    Honest m held wf bad l op := by
  cases op with
  | pop q f =>
    obtain ⟨h_id, h_marker, -⟩ := h
    have hq : q < m := h_op
    exact ⟨fun v _ => h_id v (hq.trans_le hm), fun h_pos _ => h_marker h_pos (hq.trans_le hm),
      fun v h_ge => absurd hq (Nat.not_lt.mpr h_ge)⟩
  | push q v l' => exact ⟨h_op, h.2⟩
  | work bs f => exact h
  | leave => trivial
  | quit => trivial

theorem Orderly.within {ended : L₀ → Bool} (h : Orderly n k ended bad l op) (h_op : op.Within m)
    (hm : m ≤ n) (hk : k + 1 < m) (h_quit : op ≠ .quit) : Orderly m k ended bad l op := by
  cases op with
  | pop q f => exact ⟨fun _ => h.1 (lt_of_lt_of_le h_op hm), h.2⟩
  | push q v l' => exact h
  | work bs f => exact h
  | leave => exact ⟨hk, h.2⟩
  | quit => exact absurd rfl h_quit

theorem Bounded.within {held full idle : ℕ} {takesFree : Prop}
    (h : Bounded n held full idle takesFree op) (hm : m ≤ n) :
    Bounded m held full idle takesFree op := by
  cases op with
  | pop q f => exact ⟨fun hq => h.1 (hq.trans_le hm), h.2⟩
  | push q v l' => exact h
  | work bs f => trivial
  | leave => exact h
  | quit => exact h

/-! ### What a running thread does -/

variable {L : Fin n → Type} {M : Machine n L β σ} {s s' : State M} {t : Tid n M.par} {q : ℕ}

theorem Step.of_pop (h : Step M s t s') {l : L t.1} {f : ℤ → L t.1}
    (hrun : s.thread t = .running l) (hop : M.prog t l = .pop q f) :
    ∃ v rest, s.queue q = v :: rest ∧ s' = { s with
      queue := update s.queue q rest
      thread := update s.thread t (.running (f v)) } := by
  have h_exec := exec_eq_some_iff.mpr h
  simp only [exec, hrun, hop] at h_exec
  split at h_exec
  · cases h_exec
  · next v rest hq => exact ⟨v, rest, hq, (Option.some.inj h_exec).symm⟩

theorem Step.of_push (h : Step M s t s') {l l' : L t.1} {v : ℤ}
    (hrun : s.thread t = .running l) (hop : M.prog t l = .push q v l') :
    s' = { s with
      queue := update s.queue q (s.queue q ++ [v])
      thread := update s.thread t (.running l')
      log := ⟨q, v, s.mem.pool v⟩ :: s.log } := by
  have h_exec := exec_eq_some_iff.mpr h
  simp only [exec, hrun, hop] at h_exec
  split at h_exec
  · exact (Option.some.inj h_exec).symm
  · cases h_exec

theorem Step.of_work (h : Step M s t s') {l : L t.1} {bs : List ℤ}
    {f : Memory β σ → Memory β σ × L t.1} (hrun : s.thread t = .running l)
    (hop : M.prog t l = .work bs f) :
    s' = { s with
      mem := (f s.mem).1
      thread := update s.thread t (.running (f s.mem).2) } := by
  have h_exec := exec_eq_some_iff.mpr h
  simp only [exec, hrun, hop] at h_exec
  exact (Option.some.inj h_exec).symm

theorem Step.of_quit (h : Step M s t s') {l : L t.1} (hrun : s.thread t = .running l)
    (hop : M.prog t l = .quit) : s' = { s with thread := update s.thread t (.quit l) } := by
  have h_exec := exec_eq_some_iff.mpr h
  simp only [exec, hrun, hop] at h_exec
  exact (Option.some.inj h_exec).symm

/-- A step changes one thread. -/
theorem Step.thread_eq (h : Step M s t s') : s'.thread = update s.thread t (s'.thread t) := by
  funext u
  by_cases hu : u = t
  · subst hu
    rw [update_self]
  · rw [update_of_ne hu, h.thread_of_ne hu]

/-- A sum over a stage follows the thread that moves. -/
theorem Step.stageSum_eq (h : Step M s t s') (F : (j : Fin n) → Thread (L j) → ℕ)
    (ht : (t.1 : ℕ) = k) :
    stageSum k F s'.thread + F t.1 (s.thread t) = stageSum k F s.thread + F t.1 (s'.thread t) := by
  rw [h.thread_eq, stageSum_update F s.thread ht, update_self]

/-- The threads of the other stages keep theirs. -/
theorem Step.stageSum_of_ne (h : Step M s t s') (F : (j : Fin n) → Thread (L j) → ℕ)
    (ht : (t.1 : ℕ) ≠ k) : stageSum k F s'.thread = stageSum k F s.thread := by
  rw [h.thread_eq, stageSum_update_eq fun h_eq => absurd h_eq ht]

end Pipeline
