import Xdbc.Pipeline.Tasks

/-!
# The jobs of a task queue

A task taken from a task queue stands for a number of jobs, which the thread that has taken it does
one after the other. `Jobs` says what a task is worth, what a thread has still to do, and what its
next operation does of it, in any monoid in which one can cancel.

No job is lost or done twice: what has been done and what is still to be done, in the queue and by
the threads, is always the same (`Does.total`), whichever thread takes which task. The end markers
are counted in the same way (`tickets`), so a queue that ends with one marker for each thread is
empty when nobody wants a task any more (`queue_eq_nil`).

Nothing is asked here of the other queues or of the order of the end markers in them.
-/

namespace Pipeline

open Function Finset

variable {n : ℕ} {L : Fin n → Type} {β σ A : Type}

/-! ### The obligation of a program -/

/-- The operation of a thread of stage `k` adds nothing to queue `p`. -/
def Spares (p k : ℕ) {L₀ : Type} : Op L₀ β σ → Prop
  | .push q _ _ => q ≠ p
  | .leave => k + 1 ≠ p
  | _ => True

section Programs

variable [AddCancelCommMonoid A]

/-- What the jobs of a task queue `p` ask of the operation `op` of a thread in local state `l`: it
does some of what the thread has to do, and a task adds what it is worth. -/
def Works (p : ℕ) (worth : ℤ → A) {L₀ : Type} (todo does : L₀ → A) (bad : L₀ → Prop) (l : L₀) :
    Op L₀ β σ → Prop
  | .pop q f => ∀ v, ¬ bad (f v) → does l + todo (f v) = todo l + if q = p then worth v else 0
  | .push _ _ l' => ¬ bad l' → does l + todo l' = todo l
  | .work _ f => ∀ m, ¬ bad (f m).2 → does l + todo (f m).2 = todo l
  | .leave => does l = 0
  | .quit => does l = 0

/-- A thread that takes no task has nothing to do. -/
theorem works_of_idle {p : ℕ} {worth : ℤ → A} {L₀ : Type} {wants : L₀ → Bool} {bad : L₀ → Prop}
    {l : L₀} {op : Op L₀ β σ} (h : Polite n p wants l op) (h_none : wants l = false) :
    Works p worth (fun _ => 0) (fun _ => 0) bad l op := by
  cases op with
  | pop q f =>
    have h_ne : q ≠ p := by
      intro h_eq
      rw [(h.1 h_eq).1] at h_none
      cases h_none
    intro v _
    rw [if_neg h_ne]
  | push q v l' => exact fun _ => zero_add _
  | work bs f => exact fun _ _ => zero_add _
  | leave => rfl
  | quit => rfl

/-- What the tasks of queue `p` are worth, what a thread has to do, and what its next operation does
of it. -/
structure Jobs (M : Machine n L β σ) (bad : (t : Tid n M.par) → L t.1 → Prop) (p : ℕ) (A : Type)
    [AddCancelCommMonoid A] where
  worth : ℤ → A
  todo : (k : Fin n) → L k → A
  does : (k : Fin n) → L k → A
  spares : ∀ t l, Spares p t.1 (M.prog t l)
  works : ∀ t l, Works p worth (todo t.1) (does t.1) (bad t) l (M.prog t l)

end Programs

/-- A thread that has exited has left by its program. -/
theorem Thread.Stopped.left {L₀ : Type} {prog : L₀ → Op L₀ β σ} {th : Thread L₀}
    (h : th.Stopped prog) (h_exited : th.Exited) : prog th.loc = .leave ∨ prog th.loc = .quit := by
  cases th with
  | returned l => exact .inl h
  | quit l => exact .inr h
  | _ => exact h_exited.elim

/-! ### Runs and what they do -/

namespace Jobs

variable [AddCancelCommMonoid A] {M : Machine n L β σ} {bad : (t : Tid n M.par) → L t.1 → Prop}
  {p : ℕ} (J : Jobs M bad p A)

/-- What the step of a thread does. -/
def look (s : State M) (t : Tid n M.par) : A :=
  match s.thread t with
  | .running l => J.does t.1 l
  | _ => 0

/-- All that is still to be done. -/
def total (s : State M) : A :=
  ((s.queue p).map J.worth).sum + ∑ t, J.todo t.1 (s.thread t).loc

/-- A run, with all that its steps do. -/
inductive Does (s₀ : State M) : A → State M → Prop where
  | start : Does s₀ 0 s₀
  | step {done : A} {s s' : State M} {t : Tid n M.par} (h : Does s₀ done s)
      (hstep : Step M s t s') (h_good : ¬ bad t (s'.thread t).loc) :
      Does s₀ (done + J.look s t) s'

variable {J} {s₀ s s' : State M} {t : Tid n M.par} {done : A}

theorem Does.reachable (h : J.Does s₀ done s) : Reachable M bad s₀ s := by
  induction h with
  | start => exact .refl
  | step _ hstep h_good ih => exact ih.tail ⟨_, hstep, h_good⟩

variable (J) in
/-- Every run does something. -/
theorem exists_does (h : Reachable M bad s₀ s) : ∃ done, J.Does s₀ done s := by
  induction h with
  | refl => exact ⟨0, .start⟩
  | tail _ hnext ih =>
    obtain ⟨t, hstep, h_good⟩ := hnext
    obtain ⟨done, h_does⟩ := ih
    exact ⟨_, h_does.step hstep h_good⟩

/-- One thread moves, and the tasks in the queue change by `taken`. -/
private theorem total_update {th : Thread (L t.1)} (taken : A)
    (h_thread : s'.thread = update s.thread t th)
    (h_queue : ((s.queue p).map J.worth).sum = taken + ((s'.queue p).map J.worth).sum)
    (h_todo : done + J.todo t.1 th.loc = J.todo t.1 (s.thread t).loc + taken) :
    done + J.total s' = J.total s := by
  have h_sum := sum_update_add (fun t th => J.todo t.1 th.loc) s.thread (mem_univ t) th
  rw [← h_thread] at h_sum
  have h_all : (done + J.total s') + J.todo t.1 (s.thread t).loc
      = J.total s + J.todo t.1 (s.thread t).loc := by
    calc _ = done + (((s'.queue p).map J.worth).sum
            + (∑ t, J.todo t.1 (s'.thread t).loc + J.todo t.1 (s.thread t).loc)) := by
          rw [total]; ac_rfl
      _ = (done + J.todo t.1 th.loc) + (((s'.queue p).map J.worth).sum
            + ∑ t, J.todo t.1 (s.thread t).loc) := by rw [h_sum]; ac_rfl
      _ = _ := by rw [h_todo, total, h_queue]; ac_rfl
  exact add_right_cancel h_all

/-- A step that leaves the queue and the local state alone. -/
private theorem total_phase {th : Thread (L t.1)} (h_thread : s'.thread = update s.thread t th)
    (h_queue : s'.queue p = s.queue p) (h_loc : th.loc = (s.thread t).loc) :
    J.total s' = J.total s := by
  have h_zero : (0 : A) + J.total s' = J.total s := by
    refine total_update 0 h_thread ?_ ?_
    · rw [h_queue, zero_add]
    · rw [h_loc, zero_add, add_zero]
  rwa [zero_add] at h_zero

/-- **Step lemma.** What a step does is no longer to be done. -/
theorem total_step (h_stopped : ∀ t, (s.thread t).Stopped (M.prog t)) (hstep : Step M s t s')
    (h_good : ¬ bad t (s'.thread t).loc) : J.look s t + J.total s' = J.total s := by
  have h_works := J.works t (s.thread t).loc
  have h_spares := J.spares t (s.thread t).loc
  have h_left := h_stopped t
  cases hstep with
  | @pop l q f v rest hrun hop hq =>
    rw [hrun, Thread.loc_running, hop] at h_works
    change ¬ bad t (update s.thread t _ t).loc at h_good
    rw [update_self] at h_good
    rw [look, hrun]
    -- what a task is worth passes from the queue to the thread
    refine total_update (if q = p then J.worth v else 0) rfl ?_ ?_
    · change _ = _ + ((update s.queue q rest p).map J.worth).sum
      by_cases h_eq : q = p
      · subst h_eq
        rw [update_self, hq, List.map_cons, List.sum_cons, if_pos rfl]
      · rw [update_of_ne (Ne.symm h_eq), if_neg h_eq, zero_add]
    · rw [hrun]
      exact h_works v h_good
  | @push l q v l' hrun hop hroom =>
    rw [hrun, Thread.loc_running, hop] at h_works h_spares
    change ¬ bad t (update s.thread t _ t).loc at h_good
    rw [update_self] at h_good
    have h_ne : p ≠ q := Ne.symm h_spares
    rw [look, hrun]
    refine total_update 0 rfl ?_ ?_
    · change _ = _ + ((update s.queue q _ p).map J.worth).sum
      rw [update_of_ne h_ne, zero_add]
    · rw [hrun, add_zero]
      exact h_works h_good
  | @work l bs f hrun hop =>
    rw [hrun, Thread.loc_running, hop] at h_works
    change ¬ bad t (update s.thread t _ t).loc at h_good
    rw [update_self] at h_good
    rw [look, hrun]
    refine total_update 0 rfl (zero_add _).symm ?_
    rw [hrun, add_zero]
    exact h_works s.mem h_good
  | @leave l hrun hop =>
    rw [hrun, Thread.loc_running, hop] at h_works
    -- a thread that leaves has nothing more to do
    have h_none : J.look s t = 0 := by rw [look, hrun]; exact h_works
    rw [h_none, zero_add]
    exact total_phase rfl rfl (by rw [hrun]; rfl)
  | @quit l hrun hop =>
    rw [hrun, Thread.loc_running, hop] at h_works
    have h_none : J.look s t = 0 := by rw [look, hrun]; exact h_works
    rw [h_none, zero_add]
    exact total_phase rfl rfl (by rw [hrun]; rfl)
  | last hcnt hfin =>
    rw [look, hcnt, zero_add]
    exact total_phase rfl rfl (by rw [hcnt]; rfl)
  | notLast hcnt hfin =>
    rw [look, hcnt, zero_add]
    exact total_phase rfl rfl (by rw [hcnt]; rfl)
  | @signal l m hsig hroom =>
    -- the end markers go to another queue
    rw [hsig] at h_left h_spares
    rw [Thread.loc_signalling, show M.prog t l = .leave from h_left] at h_spares
    rw [look, hsig, zero_add]
    exact total_phase rfl (update_of_ne (Ne.symm h_spares) _ _) (by rw [hsig]; rfl)
  | done hsig =>
    rw [look, hsig, zero_add]
    exact total_phase rfl rfl (by rw [hsig]; rfl)

/-- **Run lemma.** What has been done and what is still to be done are what there was to do. -/
theorem Does.total (h : J.Does s₀ done s) (h_init : ∀ t, (s₀.thread t).Stopped (M.prog t)) :
    done + J.total s = J.total s₀ ∧ ∀ t, (s.thread t).Stopped (M.prog t) := by
  induction h with
  | start => exact ⟨zero_add _, h_init⟩
  | step _ hstep h_good ih =>
    obtain ⟨h_total, h_stopped⟩ := ih
    refine ⟨?_, Thread.stopped_of_step hstep h_stopped⟩
    rw [add_assoc, total_step h_stopped hstep h_good]
    exact h_total

/-- What a step does was still to be done. -/
theorem look_le_total {ω : Type} {J : Jobs M bad p (Multiset ω)}
    (h : ∀ l, J.does t.1 l ≤ J.todo t.1 l) : J.look s t ≤ J.total s := by
  have h_own : J.look s t ≤ J.todo t.1 (s.thread t).loc := by
    rw [look]
    split
    · next l hrun =>
      rw [hrun]
      exact h l
    · exact Multiset.zero_le _
  have h_one : J.todo t.1 (s.thread t).loc ≤ ∑ u, J.todo u.1 (s.thread u).loc :=
    single_le_sum (f := fun u => J.todo u.1 (s.thread u).loc) (fun _ _ => Multiset.zero_le _)
      (mem_univ t)
  exact (h_own.trans h_one).trans (Multiset.le_add_left _ _)

end Jobs

/-! ### When nobody wants a task any more -/

section Tickets

variable {M : Machine n L β σ} {bad : (t : Tid n M.par) → L t.1 → Prop} {p : ℕ}
  {s₀ s s' : State M} {t : Tid n M.par}

/-- Nothing is added to a task queue. -/
theorem queue_suffix_of_step (h_spares : ∀ t l, Spares p t.1 (M.prog t l))
    (h_stopped : ∀ t, (s.thread t).Stopped (M.prog t)) (hstep : Step M s t s') :
    s'.queue p <:+ s.queue p := by
  have h_own := h_spares t (s.thread t).loc
  have h_left := h_stopped t
  cases hstep with
  | @pop l q f v rest hrun hop hq =>
    change update s.queue q rest p <:+ s.queue p
    -- a pop from the queue takes the first item, every other step leaves it alone
    by_cases h_eq : q = p
    · subst h_eq
      rw [update_self, hq]
      exact List.suffix_cons v rest
    · rw [update_of_ne (Ne.symm h_eq)]
  | @push l q v l' hrun hop hroom =>
    rw [hrun, Thread.loc_running, hop] at h_own
    change update s.queue q _ p <:+ s.queue p
    rw [update_of_ne (Ne.symm h_own)]
  | @signal l m hsig hroom =>
    rw [hsig] at h_left h_own
    rw [Thread.loc_signalling, show M.prog t l = .leave from h_left] at h_own
    change update s.queue (t.1 + 1) _ p <:+ s.queue p
    rw [update_of_ne (Ne.symm h_own)]
  | _ => exact List.suffix_rfl

variable {wants : (k : Fin n) → L k → Bool}
  (h_spares : ∀ t l, Spares p t.1 (M.prog t l))
  (h_polite : ∀ t l, Polite n p (wants t.1) l (M.prog t l))

variable (bad) in
/-- The end markers: a thread that wants no task any more has taken one. -/
def tickets : Jobs M bad p ℕ where
  worth v := if v = marker then 1 else 0
  todo k l := if wants k l then 0 else 1
  does _ _ := 0
  spares := h_spares
  works := by
    intro t l
    have h := h_polite t l
    cases hop : M.prog t l with
    | pop q f =>
      rw [hop] at h
      intro v _
      dsimp only
      by_cases h_eq : q = p
      · obtain ⟨h_wants, h_next⟩ := h.1 h_eq
        rw [h_wants, h_next v, if_pos h_eq]
        by_cases hv : v = marker
        · rw [if_pos hv, if_pos hv]; rfl
        · rw [if_neg hv, if_neg hv]; rfl
      · rw [(h.2 h_eq).2 v, if_neg h_eq, zero_add, add_zero]
    | push q v l' =>
      rw [hop] at h
      intro _
      dsimp only
      rw [zero_add, show wants t.1 l' = wants t.1 l from h]
    | work bs f =>
      rw [hop] at h
      intro m _
      dsimp only
      rw [zero_add, show wants t.1 (f m).2 = wants t.1 l from h m]
    | leave => rfl
    | quit => rfl

theorem sum_markers (xs : List ℤ) :
    (xs.map fun v => if v = marker then 1 else 0).sum = xs.count marker := by
  induction xs with
  | nil => rfl
  | cons v xs ih => rw [List.map_cons, List.sum_cons, ih, List.count_cons, Nat.add_comm]; simp

include h_spares h_polite in
/-- **A queue that ends with a marker for each thread** that wants a task is empty when nobody wants
one any more. -/
theorem queue_eq_nil {ts : List ℤ} {k : ℕ} (hk : 0 < k)
    (h_queue : s₀.queue p = ts ++ List.replicate k marker) (h_tasks : marker ∉ ts)
    (h_init : ∀ t, (s₀.thread t).Stopped (M.prog t))
    (h_count : k + ∑ t, (if wants t.1 (s₀.thread t).loc then 0 else 1) = Fintype.card (Tid n M.par))
    (h_run : Reachable M bad s₀ s) (h_none : ∀ t, wants t.1 (s.thread t).loc = false) :
    s.queue p = [] := by
  have h_suffix : s.queue p <:+ s₀.queue p ∧ ∀ t, (s.thread t).Stopped (M.prog t) :=
    h_run.invariant (I := fun s => s.queue p <:+ s₀.queue p ∧ ∀ t, (s.thread t).Stopped (M.prog t))
      ⟨List.suffix_rfl, h_init⟩ fun s t s' hI hstep _ =>
      ⟨(queue_suffix_of_step h_spares hI.2 hstep).trans hI.1, Thread.stopped_of_step hstep hI.2⟩
  -- every thread has taken a marker, so none is left
  obtain ⟨done, h_does⟩ := (tickets bad h_spares h_polite).exists_does h_run
  obtain ⟨h_total, -⟩ := h_does.total h_init
  have h_taken : ∑ t, (if wants t.1 (s.thread t).loc then 0 else 1)
      = Fintype.card (Tid n M.par) := by
    simp [h_none, Finset.card_univ]
  have h_before : (tickets bad h_spares h_polite).total s₀
      = k + ∑ t, (if wants t.1 (s₀.thread t).loc then 0 else 1) := by
    change ((s₀.queue p).map fun v => if v = marker then 1 else 0).sum + _ = _
    rw [sum_markers, h_queue, List.count_append, List.count_eq_zero.mpr h_tasks,
      List.count_replicate_self, zero_add]
    rfl
  have h_after : (tickets bad h_spares h_polite).total s
      = (s.queue p).count marker + Fintype.card (Tid n M.par) := by
    change ((s.queue p).map fun v => if v = marker then 1 else 0).sum + _ = _
    rw [sum_markers, ← h_taken]
    rfl
  -- what is left is an end of the first queue, and so ends with a marker
  have h_zero : (s.queue p).count marker = 0 := by omega
  by_contra h_ne
  obtain ⟨front, h_eq⟩ := h_suffix.1
  have h_last : (s₀.queue p).getLast? = some marker := by
    obtain ⟨j, rfl⟩ := Nat.exists_eq_succ_of_ne_zero hk.ne'
    rw [h_queue, List.replicate_succ', ← List.append_assoc, List.getLast?_concat]
  rw [← h_eq, List.getLast?_append_of_ne_nil _ h_ne] at h_last
  exact List.count_eq_zero.mp h_zero (List.mem_of_getLast? h_last)

end Tickets

end Pipeline
