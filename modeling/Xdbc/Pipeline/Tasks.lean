import Xdbc.Pipeline.Signals

/-!
# Task queues

A private queue of the pipeline can hand out work that is fixed before the threads start: it is
filled with the tasks and one end marker for every thread that takes from it, and nothing is pushed
to it later. A `Tasks` says which local states still want a task. As every thread stops to want tasks
with the first marker it takes, there is a marker left for each thread that wants one
(`Tasks.supplied`): nobody waits for a task (`Supplied.ne_nil`), and when nobody wants one any more,
all tasks have been taken (`Supplied.ids_eq_zero`).
-/

namespace Pipeline

open Function Finset

variable {n : ℕ} {L : Fin n → Type} {β σ : Type}

/-- What a task queue `p` asks of the operation `op` of a thread in local state `l`. -/
def Polite (n p : ℕ) {L₀ : Type} (wants : L₀ → Bool) (l : L₀) : Op L₀ β σ → Prop
  | .pop q f =>
    (q = p → wants l = true ∧ ∀ v, wants (f v) = if v = marker then false else true) ∧
    (q ≠ p → q < n ∧ ∀ v, wants (f v) = wants l)
  | .push _ _ l' => wants l' = wants l
  | .work _ f => ∀ m, wants (f m).2 = wants l
  | .leave => True
  | .quit => True

/-- Which local states still want a task of queue `p`, and that every program is polite. -/
structure Tasks {M : Machine n L β σ} {bad : (t : Tid n M.par) → L t.1 → Prop}
    (C : Custody M bad) (p : ℕ) where
  wants : (k : Fin n) → L k → Bool
  le : n ≤ p
  polite : ∀ t l, C.wf t l → Polite n p (wants t.1) l (M.prog t l)

namespace Tasks

variable {M : Machine n L β σ} {bad : (t : Tid n M.par) → L t.1 → Prop} {C : Custody M bad}
  {p : ℕ} (T : Tasks C p)

/-- How many threads still want a task. -/
def wanting (thread : (t : Tid n M.par) → Thread (L t.1)) : ℕ :=
  ∑ t, (thread t).counts (T.wants t.1)

/-- The state of a task queue that started with `k` markers. -/
structure Supplied (k : ℕ) (s : State M) : Prop where
  /-- A marker is left for every thread that wants a task. -/
  count : T.wanting s.thread = (s.queue p).count marker
  order : (s.queue p).Pairwise fun a b => a = marker → b = marker
  /-- The tasks are taken before the first marker. -/
  drained : (s.queue p).count marker < k → ids (s.queue p) = 0

variable {T} {s s' : State M} {t : Tid n M.par} {k : ℕ}

/-- The queue is filled with the tasks and then the markers. -/
theorem supplied_initial {ts : List ℤ} (h_queue : s.queue p = ts ++ List.replicate k marker)
    (h_tasks : marker ∉ ts) (h_count : T.wanting s.thread = k) : T.Supplied k s := by
  have h_k : (s.queue p).count marker = k := by
    rw [h_queue, List.count_append, List.count_eq_zero.mpr h_tasks, List.count_replicate_self,
      Nat.zero_add]
  refine ⟨h_count.trans h_k.symm, ?_, fun h => absurd h_k h.ne⟩
  rw [h_queue, List.pairwise_append]
  refine ⟨List.Pairwise.imp_of_mem (R := fun _ _ => True) (fun ha _ _ h => absurd (h ▸ ha) h_tasks)
    (List.pairwise_of_forall fun _ _ => trivial), ?_, ?_⟩
  · exact List.pairwise_replicate.mpr (.inr fun _ => rfl)
  · exact fun _ _ _ hb _ => List.eq_of_mem_replicate hb

/-- Nothing is taken from the queue. -/
private theorem Supplied.congr (hI : T.Supplied k s) (h_queue : s'.queue p = s.queue p)
    (h_wanting : T.wanting s'.thread = T.wanting s.thread) : T.Supplied k s' := by
  obtain ⟨h_count, h_order, h_drained⟩ := hI
  refine ⟨?_, ?_, ?_⟩
  · rw [h_queue, h_wanting]; exact h_count
  · rw [h_queue]; exact h_order
  · rw [h_queue]; exact h_drained

private theorem wanting_update (th : Thread (L t.1)) :
    T.wanting (update s.thread t th) + (s.thread t).counts (T.wants t.1)
      = T.wanting s.thread + th.counts (T.wants t.1) :=
  sum_update_add (fun t th => th.counts (T.wants t.1)) s.thread (mem_univ t) th

/-- A thread that keeps wanting, or not wanting, changes nothing. -/
private theorem wanting_update_eq {th : Thread (L t.1)}
    (h : T.wants t.1 th.loc = T.wants t.1 (s.thread t).loc) :
    T.wanting (update s.thread t th) = T.wanting s.thread := by
  have h_up := wanting_update (T := T) (s := s) (t := t) th
  rw [Thread.counts_of_loc_eq h] at h_up
  exact Nat.add_right_cancel h_up

/-- **Step lemma.** -/
theorem Supplied.step {S : Signals C} {pool : Multiset ℤ} (hI : T.Supplied k s)
    (hK : C.Kept pool s) (hH : S.Handed s) (hstep : Step M s t s') : T.Supplied k s' := by
  have h_wf := hK.wf t
  have h_lt := t.1.2
  have h_le := T.le
  cases hstep with
  | @pop l q f v rest hrun hop hq =>
    rw [hrun, Thread.loc_running] at h_wf
    have h_polite := T.polite t l h_wf
    rw [hop] at h_polite
    by_cases h_eq : q = p
    · subst h_eq
      obtain ⟨h_wants, h_next⟩ := h_polite.1 rfl
      -- the thread wanted an item, and whether it wants another one depends on this item
      have h_up := wanting_update (T := T) (s := s) (.running (f v))
      rw [hrun, Thread.counts, Thread.counts, Thread.loc_running, Thread.loc_running, h_wants,
        h_next v, if_pos rfl, hI.count, hq, List.count_cons] at h_up
      have h_order := hI.order
      have h_drained := hI.drained
      rw [hq] at h_order h_drained
      have h_rest : update s.queue q rest q = rest := update_self _ _ _
      by_cases hv : v = marker
      · -- the thread has been told to end: one marker less, and one thread less that wants a task
        subst hv
        refine ⟨?_, ?_, fun _ => ?_⟩
        · change T.wanting (update s.thread t _) = List.count marker (update s.queue q rest q)
          rw [h_rest]
          simp only [if_true, beq_self_eq_true, Bool.false_eq_true, if_false] at h_up
          omega
        · change (update s.queue q rest q).Pairwise _
          rw [h_rest]
          exact h_order.of_cons
        · change ids (update s.queue q rest q) = 0
          rw [h_rest, Multiset.eq_zero_iff_forall_notMem]
          intro u hu
          obtain ⟨hu, h_ne⟩ := mem_ids.mp hu
          exact h_ne ((List.pairwise_cons.mp h_order).1 u hu rfl)
      · -- a task: the thread still wants the next one
        refine ⟨?_, ?_, fun h_count => ?_⟩
        · change T.wanting (update s.thread t _) = List.count marker (update s.queue q rest q)
          rw [h_rest]
          simp only [if_neg hv, if_true, beq_iff_eq] at h_up
          omega
        · change (update s.queue q rest q).Pairwise _
          rw [h_rest]
          exact h_order.of_cons
        · change List.count marker (update s.queue q rest q) < k at h_count
          rw [h_rest] at h_count
          rw [List.count_cons, if_neg (by simpa using hv), ids_cons hv] at h_drained
          exact absurd (h_drained h_count) Multiset.cons_ne_zero
    · -- the thread has not asked for a task
      exact hI.congr (update_of_ne (Ne.symm h_eq) _ _) (wanting_update_eq (by
        rw [hrun]; exact (h_polite.2 h_eq).2 v))
  | @push l q v l' hrun hop hroom =>
    rw [hrun, Thread.loc_running] at h_wf
    have h_polite := T.polite t l h_wf
    have h_honest := C.honest t l h_wf
    rw [hop] at h_polite h_honest
    -- nobody adds to the task queue
    have h_ne : p ≠ q := by have := h_honest.1; omega
    exact hI.congr (update_of_ne h_ne _ _) (wanting_update_eq (by rw [hrun]; exact h_polite))
  | @work l bs f hrun hop =>
    rw [hrun, Thread.loc_running] at h_wf
    have h_polite := T.polite t l h_wf
    rw [hop] at h_polite
    exact hI.congr rfl (wanting_update_eq (by rw [hrun]; exact h_polite s.mem))
  | leave hrun hop => exact hI.congr rfl (wanting_update_eq (by rw [hrun]; rfl))
  | quit hrun hop => exact hI.congr rfl (wanting_update_eq (by rw [hrun]; rfl))
  | last hcnt hfin => exact hI.congr rfl (wanting_update_eq (by rw [hcnt]; rfl))
  | notLast hcnt hfin => exact hI.congr rfl (wanting_update_eq (by rw [hcnt]; rfl))
  | @signal l m hsig hroom =>
    -- the threads of the last stage push no markers
    have h_stopped := hH.stopped t
    have h_orderly := S.orderly t _ h_wf
    rw [hsig] at h_stopped h_orderly
    rw [Thread.loc_signalling, show M.prog t l = .leave from h_stopped] at h_orderly
    have h_ne : p ≠ t.1 + 1 := by have := h_orderly.1; omega
    exact hI.congr (update_of_ne h_ne _ _) (wanting_update_eq (by rw [hsig]; rfl))
  | done hsig => exact hI.congr rfl (wanting_update_eq (by rw [hsig]; rfl))

/-- **Run lemma.** -/
theorem supplied {S : Signals C} {pool : Multiset ℤ} (h : Reachable M bad s s')
    (h_kept : C.Kept pool s) (h_handed : S.Handed s) (h_init : T.Supplied k s) :
    C.Kept pool s' ∧ S.Handed s' ∧ T.Supplied k s' :=
  h.invariant (I := fun s => C.Kept pool s ∧ S.Handed s ∧ T.Supplied k s)
    ⟨h_kept, h_handed, h_init⟩ fun _ _ _ hI hstep hbad =>
    ⟨hI.1.step C hstep hbad, hI.2.1.step S hI.1 hstep hbad, hI.2.2.step hI.1 hI.2.1 hstep⟩

/-- Nobody waits for a task. -/
theorem Supplied.ne_nil {pool : Multiset ℤ} (hI : T.Supplied k s) (hK : C.Kept pool s) {l : L t.1}
    {q : ℕ} {f : ℤ → L t.1} (hrun : s.thread t = .running l) (hop : M.prog t l = .pop q f)
    (hq : n ≤ q) : s.queue q ≠ [] := by
  have h_wf := hK.wf t
  rw [hrun, Thread.loc_running] at h_wf
  have h_polite := T.polite t l h_wf
  rw [hop] at h_polite
  obtain rfl : q = p := by
    by_contra h_ne
    exact absurd (h_polite.2 h_ne).1 (by omega)
  have h_one : (s.thread t).counts (T.wants t.1) ≤ T.wanting s.thread :=
    single_le_sum (f := fun t => (s.thread t).counts (T.wants t.1)) (fun _ _ => Nat.zero_le _)
      (mem_univ t)
  rw [hrun, Thread.counts, Thread.loc_running, (h_polite.1 rfl).1, if_pos rfl] at h_one
  intro h_nil
  have h_count := hI.count
  rw [h_nil, List.count_nil] at h_count
  omega

/-- When nobody wants a task any more, all tasks have been taken. -/
theorem Supplied.ids_eq_zero (hI : T.Supplied k s) (hk : 0 < k)
    (h_none : ∀ t, T.wants t.1 (s.thread t).loc = false) : ids (s.queue p) = 0 := by
  refine hI.drained ?_
  have h_zero : T.wanting s.thread = 0 := sum_eq_zero fun t _ => by
    rw [Thread.counts, h_none]; rfl
  rw [← hI.count, h_zero]
  exact hk

end Tasks

end Pipeline
