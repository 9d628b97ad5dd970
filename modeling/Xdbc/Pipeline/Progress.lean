import Xdbc.Pipeline.Signals

/-!
# Freedom from deadlock

All stages take buffers from one free list while bounded queues sit between them. Whether the
pipeline can lock up is a matter of counting, and a `Hands` says what is counted: how many ids a
thread of stage `k` can hold while it waits for room (`full k`) and while it waits for an item or
after it has exited (`idle k`), and which stages take from the free list at all.

`not_deadlock` needs three inequalities of the configuration:

* every queue between two stages has room for something;
* it has room for the surplus of end markers, `(P - 1) * Q` for `P` producers and `Q` consumers;
* for every stage `j` that takes from the free list, the pool has more ids than the queues up to
  stage `j` and the hands of all threads can take up together.

The proof looks at a deadlocked state from the last stage backwards. An unfinished stage has an
unfinished successor (`Stuck.alive_succ`), so the last stage is unfinished, and as nobody takes
from it, it waits for items. A stage whose output queue is empty can only wait for an item or for a
free buffer (`Stuck.waits`); if none of its threads waits for a free buffer, then its own queue is
empty too, and its predecessor is unfinished. The recursion ends at a stage where the free list is
empty and all queues behind it are empty, and there the ids do not add up.
-/

namespace Pipeline

open Function Finset

variable {n : ℕ} {L : Fin n → Type} {β σ : Type}

/-! ### Queues stay within their capacity -/

/-- No bounded queue is longer than its capacity. -/
def Fits {M : Machine n L β σ} (s : State M) : Prop :=
  ∀ q, M.cap q ≠ 0 → (s.queue q).length ≤ M.cap q

private theorem fits_update {M : Machine n L β σ} {queue : ℕ → List ℤ} {q : ℕ} {xs : List ℤ}
    (h : ∀ q, M.cap q ≠ 0 → (queue q).length ≤ M.cap q)
    (h_new : M.cap q ≠ 0 → xs.length ≤ M.cap q) :
    ∀ q', M.cap q' ≠ 0 → (update queue q xs q').length ≤ M.cap q' := by
  intro q' hcap
  by_cases h_eq : q' = q
  · subst h_eq; rw [update_self]; exact h_new hcap
  · rw [update_of_ne h_eq]; exact h q' hcap

private theorem fits_append {M : Machine n L β σ} {s : State M} {q : ℕ} (hroom : M.Room s q)
    (v : ℤ) (hcap : M.cap q ≠ 0) : (s.queue q ++ [v]).length ≤ M.cap q := by
  rw [List.length_append, List.length_singleton]
  rcases hroom with h | h
  · exact absurd h hcap
  · omega

theorem Fits.step {M : Machine n L β σ} {s s' : State M} {t : Tid n M.par} (hF : Fits s)
    (hstep : Step M s t s') : Fits s' := by
  cases hstep with
  | @pop l q k v rest hrun hop hq =>
    refine fits_update hF fun hcap => ?_
    have h_le := hF q hcap
    rw [hq, List.length_cons] at h_le
    omega
  | push hrun hop hroom => exact fits_update hF (fits_append hroom _)
  | signal hsig hroom => exact fits_update hF (fits_append hroom _)
  | work hrun hop => exact hF
  | leave hrun hop => exact hF
  | quit hrun hop => exact hF
  | last hcnt hfin => exact hF
  | notLast hcnt hfin => exact hF
  | done hsig => exact hF

theorem Fits.of_reachable {M : Machine n L β σ} {bad : (t : Tid n M.par) → L t.1 → Prop}
    {s s' : State M} (h : Reachable M bad s s') (hF : Fits s) : Fits s' :=
  h.invariant hF fun _ _ _ hI hstep _ => hI.step hstep

/-! ### How much a waiting thread holds -/

/-- The bounds on the number of ids in the hands of a thread at the operation `op`. -/
def Bounded (n : ℕ) {L₀ : Type} (held full idle : ℕ) (takesFree : Prop) : Op L₀ β σ → Prop
  | .pop q _ => (q < n → held ≤ idle) ∧ (q = 0 → takesFree)
  | .push _ _ _ => held ≤ full
  | .work _ _ => True
  | .leave => held ≤ idle
  | .quit => held ≤ idle

/-- How many ids the threads of a stage hold while they wait. -/
structure Hands {M : Machine n L β σ} {bad : (t : Tid n M.par) → L t.1 → Prop}
    (C : Custody M bad) where
  /-- The most ids a thread of stage `k` holds while it waits for room. -/
  full : ℕ → ℕ
  /-- The most ids it holds while it waits for an item, and after it has exited. -/
  idle : ℕ → ℕ
  /-- The threads of stage `k` take from the free list. -/
  takesFree : ℕ → Prop
  idle_le : ∀ k, idle k ≤ full k
  bounded : ∀ t l, C.wf t l →
    Bounded n (C.held t.1 l).card (full t.1) (idle t.1) (takesFree t.1) (M.prog t l)

section Deadlock

variable {M : Machine n L β σ} {bad : (t : Tid n M.par) → L t.1 → Prop} {C : Custody M bad}
  (S : Signals C) (H : Hands C)

/-- What is assumed of a deadlocked state: the invariants, and that private queues do not block. -/
structure Stuck (pool : Multiset ℤ) (s : State M) : Prop where
  clean : S.Clean
  kept : C.Kept pool s
  handed : S.Handed s
  fits : Fits s
  blocked : ∀ t, ¬ (s.thread t).Exited → Blocked M s t
  open_private : ∀ t l q f, s.thread t = .running l → M.prog t l = .pop q f → n ≤ q →
    s.queue q ≠ []

/-- The inequalities between the pool, the capacities and the numbers of threads. -/
structure Ample (N : ℕ) : Prop where
  par_pos : ∀ k, k < n → 0 < M.par k
  cap_free : M.cap 0 = 0
  cap_pos : ∀ k, 0 < k → k < n → 0 < M.cap k
  /-- The markers pushed beyond one for each consumer fit into the queue. -/
  surplus : ∀ k, k + 1 < n → (M.par k - 1) * M.par (k + 1) ≤ M.cap (k + 1)
  /-- With the queues up to stage `j` full and no other queued, some id is left over. -/
  enough : ∀ j, j < n → H.takesFree j →
    ∑ i ∈ range j, M.cap (i + 1) + ∑ i ∈ range n, M.par i * (if i < j then H.full i else H.idle i)
      < N

variable {S H} {pool : Multiset ℤ} {s : State M}

/-- A stage with a thread that has not exited. -/
def Alive (s : State M) (k : ℕ) : Prop := ∃ t : Tid n M.par, (t.1 : ℕ) = k ∧ ¬ (s.thread t).Exited

/-- A thread that has exited has popped a marker. -/
private theorem Stuck.ended_of_exited (hS : Stuck S pool s) {t : Tid n M.par}
    (ht : 0 < (t.1 : ℕ)) (h_exited : (s.thread t).Exited) :
    S.ended t.1 (s.thread t).loc = true := by
  refine S.ended_of_stopped hS.clean hS.kept ht ?_
  have h_stopped := hS.handed.stopped t
  rcases h_th : s.thread t with l | l | ⟨l, m⟩ | l | l <;> rw [h_th] at h_exited h_stopped
  · exact h_exited.elim
  · exact h_exited.elim
  · exact h_exited.elim
  · exact .inl h_stopped
  · exact .inr h_stopped

/-- An unfinished stage has an unfinished successor: had the successor finished, then the stage
would be signalling, and the surplus of markers has room. -/
theorem Stuck.alive_succ (hS : Stuck S pool s) (hA : Ample H pool.card) {k : ℕ}
    (hk : k + 1 < n) (h_alive : Alive s k) : Alive s (k + 1) := by
  by_contra h_dead
  have h_exited : ∀ t : Tid n M.par, (t.1 : ℕ) = k + 1 → (s.thread t).Exited := by
    intro t ht
    by_contra h
    exact h_dead ⟨t, ht, h⟩
  -- if the next stage had exited, this one would be complete
  obtain ⟨h_fin, h_ids, h_markers⟩ := hS.handed.complete S hk (hA.par_pos _ hk)
    fun t ht => hS.ended_of_exited (by omega) (h_exited t ht)
  obtain ⟨t, rfl, h_not⟩ := h_alive
  have h_blocked := hS.blocked t h_not
  have h_rep : (S.counts s t.1).rep = M.par t.1 := by
    rw [← (hS.handed.ok _ hk).count]; exact h_fin
  have h_one : (s.thread t).reported ≠ 0 :=
    ne_zero_of_stageSum_eq (F := fun _ th => th.reported) h_rep rfl fun _ th => th.reported_le_one
  have h_pend := le_stageSum (fun _ th => th.pending (M.par (t.1 + 1))) s.thread (t := t) rfl
  rcases h_th : s.thread t with l | l | ⟨l, m⟩ | l | l
  · exact h_one (by rw [h_th]; rfl)
  · -- a thread between counting and comparing is not blocked
    rw [Blocked, h_th] at h_blocked
    exact h_blocked
  · cases m with
    | zero => rw [Blocked, h_th] at h_blocked; exact h_blocked
    | succ m =>
      rw [Blocked, h_th] at h_blocked
      rw [h_th] at h_pend
      -- only markers are queued, and this thread has one more to push
      refine h_blocked (.inr (lt_of_lt_of_le ?_ (hA.surplus _ hk)))
      have h_len : (s.queue (t.1 + 1)).length = (s.queue (t.1 + 1)).count marker := by
        refine (List.count_eq_length.mpr fun v hv => ?_).symm
        by_contra hne
        have h_mem : v ∈ ids (s.queue (t.1 + 1)) := mem_ids.mpr ⟨hv, fun h => hne h.symm⟩
        rw [h_ids] at h_mem
        exact absurd h_mem (Multiset.notMem_zero v)
      rw [h_len]
      refine lt_of_lt_of_le (Nat.lt_add_of_pos_right ?_) h_markers
      exact lt_of_lt_of_le (Nat.succ_pos m) h_pend
  · exact h_not (by rw [h_th]; trivial)
  · exact h_not (by rw [h_th]; trivial)

/-- A thread whose output queue is empty waits for an item or for a free buffer. -/
theorem Stuck.waits (hS : Stuck S pool s) (hA : Ample H pool.card) {t : Tid n M.par}
    (h_not : ¬ (s.thread t).Exited) (h_empty : t.1 + 1 < n → s.queue (t.1 + 1) = []) :
    ∃ l q f, s.thread t = .running l ∧ M.prog t l = .pop q f ∧ s.queue q = [] ∧
      (q = 0 ∨ q = t.1 ∧ S.ended t.1 l = false) := by
  have h_blocked := hS.blocked t h_not
  have h_stopped := hS.handed.stopped t
  have h_orderly := S.orderly t _ (hS.kept.wf t)
  have h_honest := C.honest t _ (hS.kept.wf t)
  -- there is room in the output queue
  have h_room : t.1 + 1 < n → M.Room s (t.1 + 1) := by
    intro hlt
    refine .inr ?_
    rw [h_empty hlt]
    exact hA.cap_pos _ (Nat.succ_pos _) hlt
  rcases h_th : s.thread t with l | l | ⟨l, m⟩ | l | l <;>
    rw [h_th] at h_stopped h_orderly h_honest <;> rw [Blocked, h_th] at h_blocked
  · simp only at h_blocked
    rw [Thread.loc_running] at h_orderly h_honest
    -- only a pop or a push blocks
    rcases h_op : M.prog t l with ⟨q, f⟩ | ⟨q, v, l'⟩ | ⟨bs, f⟩ | _ | _ <;>
      rw [h_op] at h_blocked h_orderly h_honest
    · refine ⟨l, q, f, rfl, h_op, h_blocked, h_orderly.1 ?_⟩
      by_contra hge
      exact hS.open_private t l q f h_th h_op (not_lt.mp hge) h_blocked
    · -- a push is to the free list or to the output queue, and both have room
      refine absurd ?_ h_blocked
      rcases h_orderly.1 with rfl | rfl
      · exact .inl hA.cap_free
      · exact h_room h_honest.1
    · exact h_blocked.elim
    · exact h_blocked.elim
    · exact h_blocked.elim
  · exact h_blocked.elim
  · cases m with
    | zero => exact h_blocked.elim
    | succ m =>
      rw [Thread.loc_signalling, show M.prog t l = .leave from h_stopped] at h_orderly
      exact absurd (h_room h_orderly.1) h_blocked
  · exact h_blocked.elim
  · exact h_blocked.elim

/-- A blocked or exited thread holds at most `full` ids, and at most `idle` unless it waits for
room. -/
private theorem Stuck.held_le (hS : Stuck S pool s) (t : Tid n M.par) :
    (C.held t.1 (s.thread t).loc).card ≤ H.full t.1 ∧
      ((∀ l q v l', s.thread t = .running l → M.prog t l ≠ .push q v l') →
        (C.held t.1 (s.thread t).loc).card ≤ H.idle t.1) := by
  have h_bound := H.bounded t _ (hS.kept.wf t)
  have h_stopped := hS.handed.stopped t
  have h_idle : (C.held t.1 (s.thread t).loc).card ≤ H.idle t.1 →
      (C.held t.1 (s.thread t).loc).card ≤ H.full t.1 := fun h => h.trans (H.idle_le _)
  -- an exited thread holds what its program holds where it leaves
  by_cases h_ex : (s.thread t).Exited
  · rcases h_th : s.thread t with l | l | ⟨l, m⟩ | l | l <;>
      rw [h_th] at h_ex h_stopped h_bound h_idle
    · exact h_ex.elim
    · exact h_ex.elim
    · exact h_ex.elim
    · rw [show M.prog t (Thread.returned l).loc = .leave from h_stopped] at h_bound
      exact ⟨h_idle h_bound, fun _ => h_bound⟩
    · rw [show M.prog t (Thread.quit l).loc = .quit from h_stopped] at h_bound
      exact ⟨h_idle h_bound, fun _ => h_bound⟩
  · -- a blocked one waits for an item, for a free buffer or for room
    have h_blocked := hS.blocked t h_ex
    rcases h_th : s.thread t with l | l | ⟨l, m⟩ | l | l <;>
      rw [h_th] at h_stopped h_bound h_idle <;> rw [Blocked, h_th] at h_blocked
    · simp only [Thread.loc_running] at h_blocked h_bound h_idle ⊢
      rcases h_op : M.prog t l with ⟨q, f⟩ | ⟨q, v, l'⟩ | ⟨bs, f⟩ | _ | _ <;>
        rw [h_op] at h_blocked h_bound
      · have h_lt : q < n := by
          by_contra hge
          exact hS.open_private t l q f h_th h_op (not_lt.mp hge) h_blocked
        exact ⟨h_idle (h_bound.1 h_lt), fun _ => h_bound.1 h_lt⟩
      · exact ⟨h_bound, fun h => absurd h_op (h l q v l' rfl)⟩
      · exact h_blocked.elim
      · exact h_blocked.elim
      · exact h_blocked.elim
    · exact h_blocked.elim
    · rw [show M.prog t (Thread.signalling l m).loc = .leave from h_stopped] at h_bound
      exact ⟨h_idle h_bound, fun _ => h_bound⟩
    · exact h_blocked.elim
    · exact h_blocked.elim

/-- The ids do not add up where the free list and all queues behind stage `j` are empty. -/
private theorem Stuck.count (hS : Stuck S pool s) (hA : Ample H pool.card) {j : ℕ} (hj : j < n)
    (h_takes : H.takesFree j) (h_free : s.queue 0 = [])
    (h_empty : ∀ i, j < i → i < n → s.queue i = []) : False := by
  -- the queues hold at most what they have room for, and only up to stage `j`
  have h_queues : ∑ q ∈ range n, (ids (s.queue q)).card ≤ ∑ i ∈ range j, M.cap (i + 1) := by
    have h_split : ∑ q ∈ range n, (ids (s.queue q)).card
        = ∑ q ∈ range (j + 1), (ids (s.queue q)).card := by
      refine (sum_subset (range_subset_range.mpr hj) fun q hq hq' => ?_).symm
      rw [mem_range] at hq hq'
      rw [h_empty q (by omega) hq]
      rfl
    rw [h_split, sum_range_succ', h_free, ids_nil, Multiset.card_zero, add_zero]
    refine sum_le_sum fun i hi => (card_ids_le _).trans (hS.fits _ ?_)
    rw [mem_range] at hi
    exact (hA.cap_pos (i + 1) (Nat.succ_pos _) (by omega)).ne'
  have h_held : ∀ t : Tid n M.par, (C.held t.1 (s.thread t).loc).card
      ≤ if (t.1 : ℕ) < j then H.full t.1 else H.idle t.1 := by
    intro t
    obtain ⟨h_full, h_idle⟩ := hS.held_le (H := H) t
    split
    · exact h_full
    · next hge =>
      refine h_idle fun l q v l' hrun hop => ?_
      -- behind stage `j` nobody waits for room
      have h_not : ¬ (s.thread t).Exited := by rw [hrun]; exact fun h => h
      obtain ⟨l₁, q₁, f₁, hrun₁, hop₁, -⟩ := hS.waits hA h_not fun hlt =>
        h_empty _ (by omega) hlt
      rw [hrun] at hrun₁
      cases hrun₁
      rw [hop] at hop₁
      cases hop₁
  have h_threads : ∑ t : Tid n M.par, (C.held t.1 (s.thread t).loc).card
      ≤ ∑ i ∈ range n, M.par i * (if i < j then H.full i else H.idle i) := by
    refine (sum_le_sum fun t _ => h_held t).trans (le_of_eq ?_)
    rw [← univ_sigma_univ, sum_sigma, ← Fin.sum_univ_eq_sum_range
      fun i => M.par i * (if i < j then H.full i else H.idle i)]
    refine sum_congr rfl fun k _ => ?_
    change ∑ _i : Fin (M.par k), (if (k : ℕ) < j then H.full k else H.idle k) = _
    rw [sum_const, card_univ, Fintype.card_fin, smul_eq_mul]
  -- all ids are in a queue or in the hands of a thread
  have h_total : pool.card = ∑ q ∈ range n, (ids (s.queue q)).card
      + ∑ t : Tid n M.par, (C.held t.1 (s.thread t).loc).card := by
    rw [← hS.kept.total, Custody.total, Multiset.card_add]
    congr 1 <;> exact map_sum Multiset.cardHom _ _
  have h_enough := hA.enough j hj h_takes
  omega

/-- With all queues behind it empty, a stage cannot be unfinished. The induction goes towards the
first stage: either a thread of the stage waits for a free buffer, and the ids do not add up, or its
own queue is empty too, and the stage before it is unfinished. -/
private theorem Stuck.not_alive (hS : Stuck S pool s) (hA : Ample H pool.card) :
    ∀ j, j < n → (∀ i, j < i → i < n → s.queue i = []) → ¬ Alive s j := by
  intro j
  induction j with
  | zero =>
    rintro hj h_empty ⟨t, ht, h_not⟩
    obtain ⟨l, q, f, hrun, hop, hq, h_own⟩ := hS.waits hA h_not fun hlt =>
      h_empty _ (by omega) hlt
    obtain rfl : q = 0 := by omega
    -- the first stage pops from the free list only
    have h_bound := H.bounded t _ (hS.kept.wf t)
    rw [hrun, Thread.loc_running, hop] at h_bound
    exact hS.count hA hj (ht ▸ h_bound.2 rfl) hq h_empty
  | succ j ih =>
    rintro hj h_empty ⟨t, ht, h_not⟩
    obtain ⟨l, q, f, hrun, hop, hq, h_own⟩ := hS.waits hA h_not fun hlt =>
      h_empty _ (by omega) hlt
    -- the thread waits for a free buffer, or for an item
    rcases h_own with rfl | ⟨rfl, h_false⟩
    · have h_bound := H.bounded t _ (hS.kept.wf t)
      rw [hrun, Thread.loc_running, hop] at h_bound
      exact hS.count hA hj (ht ▸ h_bound.2 rfl) hq h_empty
    · rw [ht] at hq
      refine ih (by omega) (fun i hi hin => ?_) ?_
      · rcases Nat.lt_or_eq_of_le (Nat.succ_le_of_lt hi) with h | rfl
        · exact h_empty i h hin
        · exact hq
      · -- the producers cannot all have exited without leaving a marker
        by_contra h_dead
        have h_exited : ∀ u : Tid n M.par, (u.1 : ℕ) = j → (s.thread u).Exited := by
          intro u hu
          by_contra h
          exact h_dead ⟨u, hu, h⟩
        have h_marker := hS.handed.marker_mem S hS.kept hj h_exited ht
          (by rw [hrun]; exact h_false)
        rw [hq] at h_marker
        exact absurd h_marker List.not_mem_nil

/-- **Freedom from deadlock.** With an ample configuration, no state that satisfies the invariants
is a deadlock. -/
theorem not_deadlock (h_clean : S.Clean) (h_kept : C.Kept pool s) (h_handed : S.Handed s) (h_fits : Fits s)
    (h_private : ∀ t l q f, s.thread t = .running l → M.prog t l = .pop q f → n ≤ q →
      s.queue q ≠ []) (hA : Ample H pool.card) : ¬ Deadlock M s := by
  rintro ⟨⟨t, h_not⟩, h_blocked⟩
  have hS : Stuck S pool s := ⟨h_clean, h_kept, h_handed, h_fits, h_blocked, h_private⟩
  have h_up : ∀ d, t.1 + d < n → Alive s (t.1 + d) := by
    intro d
    induction d with
    | zero => exact fun _ => ⟨t, rfl, h_not⟩
    | succ d ih => exact fun hd => hS.alive_succ hA hd (ih (by omega))
  have h_last : Alive s (n - 1) := by
    have h := h_up (n - 1 - t.1) (by omega)
    rwa [Nat.add_sub_cancel' (by omega)] at h
  exact hS.not_alive hA (n - 1) (by have := t.1.pos; omega) (fun i _ _ => by omega) h_last

end Deadlock

end Pipeline
