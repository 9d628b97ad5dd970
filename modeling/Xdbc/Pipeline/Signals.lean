import Xdbc.Pipeline.Handoff

/-!
# End markers between two stages

The threads of stage `k` end by counting, and whoever sees the full count pushes one marker for
every thread of stage `k + 1`. The counting and the comparison are separate steps, so up to all
threads of the stage can see the full count, and between `Q` and `P * Q` markers are pushed in all
(`P` producers, `Q` consumers).

The state of one hand-off is five numbers and a queue, gathered in `Counts`. The invariant
`Counts.Ok` says:

* before the full count no marker has been pushed, popped or promised (`before`);
* from the full count on, the markers queued, popped and still promised stay between `Q` and
  `P * Q` (`after`), where a thread that has counted but not compared yet promises `Q`;
* in the queue no id stands behind a marker (`order`), and once a marker has been popped no id is
  left (`drained`).

Each move of a hand-off keeps the invariant (`Counts.Ok.move`), and each step of the pipeline is one
move for every hand-off (`Signals.Handed.step`). What a program must guarantee for this is a
`Signals`: it pops only from its own queue and the free list, pushes only to the next queue and the
free list, and neither pops again nor leaves before it has seen a marker.
-/

namespace Pipeline

open Function Finset

variable {n : ℕ} {L : Fin n → Type} {β σ : Type}

namespace Counts

/-- The markers queued, popped and promised. -/
def total (c : Counts) : ℕ := c.queue.count marker + c.ended + c.pend

/-- The invariant of a hand-off from `P` producers to `Q` consumers. -/
structure Ok (P Q : ℕ) (c : Counts) : Prop where
  count : c.fin = c.rep
  pend_le : c.pend ≤ c.rep * Q
  before : c.fin < P → marker ∉ c.queue ∧ c.ended = 0 ∧ c.sig = 0
  after : c.fin = P → Q ≤ c.total ∧ c.total ≤ P * Q
  order : c.queue.Pairwise fun a b => a = marker → b = marker
  drained : 0 < c.ended → ids c.queue = 0

variable {P Q : ℕ} {c : Counts}

theorem Ok.pop_id (h : c.Ok P Q) {v : ℤ} {rest : List ℤ} (hq : c.queue = v :: rest)
    (hv : v ≠ marker) : Ok P Q { c with queue := rest } where
  count := h.count
  pend_le := h.pend_le
  before hlt := by
    obtain ⟨h_mark, h_ended⟩ := h.before hlt
    rw [hq] at h_mark
    exact ⟨fun hm => h_mark (List.mem_cons_of_mem _ hm), h_ended⟩
  after heq := by
    have h_after := h.after heq
    simpa [total, hq, List.count_cons, hv] using h_after
  order := by
    have h_order := h.order
    rw [hq] at h_order
    exact h_order.of_cons
  drained hpos := by
    have h_ids := h.drained hpos
    rw [hq, ids_cons hv] at h_ids
    -- the queue had a buffer, so nobody behind it has ended
    exact absurd h_ids (Multiset.cons_ne_zero)

theorem Ok.pop_marker (h : c.Ok P Q) {rest : List ℤ} (hq : c.queue = marker :: rest) :
    Ok P Q { c with queue := rest, ended := c.ended + 1 } where
  count := h.count
  pend_le := h.pend_le
  before hlt := absurd (by rw [hq]; exact List.mem_cons_self) (h.before hlt).1
  after heq := by
    have h_after := h.after heq
    simp only [total, hq, List.count_cons_self] at h_after ⊢
    omega
  order := by
    have h_order := h.order
    rw [hq] at h_order
    exact h_order.of_cons
  drained _ := by
    have h_order := h.order
    rw [hq, List.pairwise_cons] at h_order
    -- behind a marker there are only markers
    have h_all : ∀ v ∈ rest, v = marker := fun v hv => h_order.1 v hv rfl
    change ids rest = 0
    rw [Multiset.eq_zero_iff_forall_notMem]
    exact fun v hv => (mem_ids.mp hv).2 (h_all v (mem_ids.mp hv).1)

theorem Ok.push_id (h : c.Ok P Q) (hlt : c.fin < P) {v : ℤ} (hv : v ≠ marker) :
    Ok P Q { c with queue := c.queue ++ [v] } where
  count := h.count
  pend_le := h.pend_le
  before _ := by
    obtain ⟨h_mark, h_ended⟩ := h.before hlt
    refine ⟨?_, h_ended⟩
    rw [List.mem_append, List.mem_singleton]
    exact fun hm => hm.elim h_mark fun he => hv he.symm
  after heq := absurd heq hlt.ne
  order := by
    obtain ⟨h_mark, -⟩ := h.before hlt
    refine List.pairwise_append.mpr ⟨h.order, List.pairwise_singleton _ _, ?_⟩
    exact fun a ha _ _ he => absurd (he ▸ ha) h_mark
  drained hpos := absurd (h.before hlt).2.1 hpos.ne'

theorem Ok.leave (h : c.Ok P Q) (hlt : c.fin < P) :
    Ok P Q { c with fin := c.fin + 1, rep := c.rep + 1, pend := c.pend + Q } where
  count := by simp only [h.count]
  pend_le := by
    have h_le := h.pend_le
    simp only [Nat.add_mul, one_mul]
    omega
  before _ := h.before hlt
  after heq := by
    -- nothing has been pushed yet, so the promises are all there is
    obtain ⟨h_mark, h_ended, -⟩ := h.before hlt
    have h_le := h.pend_le
    have h_rep : c.rep + 1 = P := by rw [← h.count]; exact heq
    subst h_rep
    simp only [total, List.count_eq_zero_of_not_mem h_mark, h_ended, Nat.add_mul, one_mul]
    omega
  order := h.order
  drained := h.drained

theorem Ok.last (h : c.Ok P Q) (hfin : c.fin = P) : Ok P Q { c with sig := c.sig + 1 } where
  count := h.count
  pend_le := h.pend_le
  before hlt := absurd hfin hlt.ne
  after := h.after
  order := h.order
  drained := h.drained

theorem Ok.notLast (h : c.Ok P Q) (hlt : c.fin < P) {pend : ℕ} (hp : c.pend = pend + Q) :
    Ok P Q { c with pend := pend } where
  count := h.count
  pend_le := le_trans (Nat.le.intro hp.symm) h.pend_le
  before := h.before
  after heq := absurd heq hlt.ne
  order := h.order
  drained := h.drained

theorem Ok.signal (h : c.Ok P Q) (hsig : 0 < c.sig) {pend : ℕ} (hp : c.pend = pend + 1) :
    Ok P Q { c with queue := c.queue ++ [marker], pend := pend } where
  count := h.count
  pend_le := le_trans (Nat.le.intro hp.symm) h.pend_le
  before hlt := absurd (h.before hlt).2.2 hsig.ne'
  after heq := by
    have h_after := h.after heq
    simp only [total, List.count_append, List.count_singleton_self] at h_after ⊢
    omega
  order := by
    refine List.pairwise_append.mpr ⟨h.order, List.pairwise_singleton _ _, ?_⟩
    exact fun a _ b hb _ => List.mem_singleton.mp hb
  drained hpos := by
    change ids (c.queue ++ [marker]) = 0
    rw [ids_append_marker]
    exact h.drained hpos

theorem Ok.done (h : c.Ok P Q) {sig : ℕ} (hs : sig ≤ c.sig) : Ok P Q { c with sig := sig } where
  count := h.count
  pend_le := h.pend_le
  before hlt := by
    obtain ⟨h_mark, h_ended, h_sig⟩ := h.before hlt
    exact ⟨h_mark, h_ended, Nat.le_zero.mp (h_sig ▸ hs)⟩
  after := h.after
  order := h.order
  drained := h.drained

/-- Every move keeps the invariant. -/
theorem Ok.move {c c' : Tally} (h : c.Ok P Q) (h_move : c.Move P Q c') : c'.Ok P Q := by
  have h_lt : c.rep < P → c.fin < P := fun hlt => h.count ▸ hlt
  cases h_move with
  | stay => exact h
  | pop_id hq hv => exact h.pop_id hq hv
  | pop_marker hq => exact h.pop_marker hq
  | push_id hlt hv => exact h.push_id (h_lt hlt) hv
  | leave hlt => exact h.leave (h_lt hlt)
  | last hfin => exact h.last hfin
  | notLast hle hfin hp => exact h.notLast (lt_of_le_of_ne (h.count ▸ hle) hfin) hp
  | signal hsig hp => exact h.signal hsig hp
  | done hs => exact h.done (hs ▸ Nat.le_succ _)

end Counts

/-! ### The obligation of a program -/

/-- What the end signals ask of the operation `op` of a thread of stage `k` in local state `l`,
where `ended` says whether the thread has popped a marker. -/
def Orderly (n k : ℕ) {L₀ : Type} (ended : L₀ → Bool) (bad : L₀ → Prop) (l : L₀) :
    Op L₀ β σ → Prop
  | .pop q f =>
    (q < n → q = 0 ∨ q = k ∧ ended l = false) ∧
    ∀ v, ¬ bad (f v) → ended (f v) = if q = k ∧ 0 < k ∧ v = marker then true else ended l
  | .push q _ l' => (q = 0 ∨ q = k + 1) ∧ (¬ bad l' → ended l' = ended l)
  | .work _ f => ∀ m, ¬ bad (f m).2 → ended (f m).2 = ended l
  | .leave => k + 1 < n ∧ (0 < k → ended l = true)
  | .quit => k + 1 = n

/-- An orderly operation that pushes no marker does with the markers what it must. -/
theorem Orderly.signs_of_push {k : ℕ} {L₀ : Type} {ended : L₀ → Bool} {bad : L₀ → Prop} {l : L₀}
    {op : Op L₀ β σ} (h : Orderly n k ended bad l op)
    (h_push : ∀ q v l', op = .push q v l' → v ≠ marker) : Signs n k ended bad l op := by
  cases op with
  | pop q f => exact h
  | push q v l' => exact ⟨h.1, h_push q v l' rfl, h.2⟩
  | work bs f => exact h
  | leave => trivial
  | quit => trivial

/-- Honest programs push no marker. -/
theorem Orderly.signs {k : ℕ} {L₀ : Type} {ended : L₀ → Bool} {held : L₀ → Multiset ℤ}
    {wf bad : L₀ → Prop} {l : L₀} {op : Op L₀ β σ} (h : Orderly n k ended bad l op)
    (h_honest : Honest n held wf bad l op) : Signs n k ended bad l op := by
  refine h.signs_of_push fun q v l' h_op => ?_
  rw [h_op] at h_honest
  exact h_honest.2.1

/-- Which local states have seen an end marker, and that every program is orderly. -/
structure Signals {M : Machine n L β σ} {bad : (t : Tid n M.par) → L t.1 → Prop}
    (C : Custody M bad) where
  /-- The thread has popped a marker. -/
  ended : (k : Fin n) → L k → Bool
  orderly : ∀ t l, C.wf t l → Orderly n t.1 (ended t.1) (bad t) l (M.prog t l)

namespace Signals

variable {M : Machine n L β σ} {bad : (t : Tid n M.par) → L t.1 → Prop} {C : Custody M bad}
  (S : Signals C)

/-- The state of the hand-off from stage `k` to stage `k + 1`. -/
def counts (s : State M) (k : ℕ) : Counts where
  fin := s.finished k
  rep := stageSum k (fun _ th => th.reported) s.thread
  pend := stageSum k (fun _ th => th.pending (M.par (k + 1))) s.thread
  sig := stageSum k (fun _ th => th.signals) s.thread
  ended := stageSum (k + 1) (fun j th => th.counts (S.ended j)) s.thread
  queue := s.queue (k + 1)

/-- The invariant: every hand-off is in order, and stopped threads have left by their program. -/
structure Handed (s : State M) : Prop where
  ok : ∀ k, k + 1 < n → (S.counts s k).Ok (M.par k) (M.par (k + 1))
  stopped : ∀ t, (s.thread t).Stopped (M.prog t)

theorem Handed.fin_le {s : State M} (hH : S.Handed s) {k : ℕ} (hk : k + 1 < n) :
    (S.counts s k).fin ≤ M.par k := by
  rw [(hH.ok k hk).count, ← mul_one (M.par k)]
  exact stageSum_le (F := fun _ th => th.reported) (by omega)
    fun t _ => (s.thread t).reported_le_one

/-- An end marker is queued only after the stage before has reported. -/
theorem Handed.reported_of_marker_mem {s : State M} (hH : S.Handed s) {k : ℕ} (hk : k + 1 < n)
    (h_mem : marker ∈ s.queue (k + 1)) (t : Tid n M.par) (ht : (t.1 : ℕ) = k) :
    (s.thread t).reported = 1 := by
  have h_ok := hH.ok k hk
  have h_full : (S.counts s k).rep = M.par k := by
    rw [← h_ok.count]
    refine (hH.fin_le S hk).antisymm (not_lt.mp fun h_lt => ?_)
    exact (h_ok.before h_lt).1 h_mem
  have h_ne := ne_zero_of_stageSum_eq (F := fun _ th => th.reported) h_full ht
    fun _ th => th.reported_le_one
  have h_le := (s.thread t).reported_le_one
  omega

/-- **Step lemma.** Every step to a good local state keeps every hand-off in order. -/
theorem Handed.step {pool : Multiset ℤ} {s s' : State M} {t : Tid n M.par}
    (hK : C.Kept pool s) (hH : S.Handed s) (hstep : Step M s t s')
    (hbad : ¬ bad t (s'.thread t).loc) : S.Handed s' where
  ok k hk := by
    have h_signs := (S.orderly t _ (hK.wf t)).signs (C.honest t _ (hK.wf t))
    exact Counts.Ok.move (c := tally S.ended s k) (hH.ok k hk) (hstep.move h_signs hbad hk)
  stopped := Thread.stopped_of_step hstep hH.stopped

/-- **Run lemma.** In every state of a run that avoids `bad`, ids are kept and every hand-off is
in order. -/
theorem handed {pool : Multiset ℤ} {s s' : State M} (h : Reachable M bad s s')
    (h_kept : C.Kept pool s) (h_handed : S.Handed s) : C.Kept pool s' ∧ S.Handed s' :=
  h.invariant (I := fun s => C.Kept pool s ∧ S.Handed s) ⟨h_kept, h_handed⟩
    fun _ _ _ hI hstep hbad =>
    ⟨hI.1.step C hstep hbad, hI.2.step S hI.1 hstep hbad⟩

/-- Before any thread has moved, every hand-off is in order. -/
theorem handed_initial {s : State M} (h_par : ∀ k, k + 1 < n → 0 < M.par k)
    (h_run : ∀ t, ∃ l, s.thread t = .running l ∧ S.ended t.1 l = false)
    (h_queue : ∀ k, k + 1 < n → marker ∉ s.queue (k + 1)) (h_fin : ∀ k, s.finished k = 0) :
    S.Handed s := by
  have h_zero : ∀ k (F : (j : Fin n) → Thread (L j) → ℕ),
      (∀ t, F t.1 (s.thread t) = 0) → stageSum k F s.thread = 0 := fun k F hF =>
    sum_eq_zero fun t _ => by rw [hF t, ite_self]
  have h_loc : ∀ t, (s.thread t).reported = 0 ∧ (s.thread t).signals = 0 ∧
      (∀ Q, (s.thread t).pending Q = 0) ∧ (s.thread t).counts (S.ended t.1) = 0 := by
    intro t
    obtain ⟨l, hl, h_ended⟩ := h_run t
    rw [hl]
    refine ⟨rfl, rfl, fun _ => rfl, ?_⟩
    rw [Thread.counts, Thread.loc_running, h_ended]
    rfl
  refine ⟨fun k hk => ?_, fun t => ?_⟩
  · -- all counts are zero
    have h_counts : S.counts s k = ⟨0, 0, 0, 0, 0, s.queue (k + 1)⟩ := by
      simp only [counts]
      rw [h_fin, h_zero _ _ fun t => (h_loc t).1, h_zero _ _ fun t => (h_loc t).2.2.1 _,
        h_zero _ _ fun t => (h_loc t).2.1, h_zero _ _ fun t => (h_loc t).2.2.2]
    rw [h_counts]
    refine ⟨rfl, Nat.zero_le _, fun _ => ⟨h_queue k hk, rfl, rfl⟩, fun h => ?_, ?_,
      fun h => absurd h (lt_irrefl 0)⟩
    · exact absurd h (h_par k hk).ne
    · refine List.Pairwise.imp_of_mem (R := fun _ _ => True) ?_ (List.pairwise_of_forall
        fun _ _ => trivial)
      exact fun ha _ _ h => absurd (h ▸ ha) (h_queue k hk)
  · obtain ⟨l, hl, -⟩ := h_run t
    rw [hl]
    trivial

/-! ### What the invariant says at the end of a stage -/

/-- If all producers have exited, a consumer that has not seen a marker still finds one. -/
theorem Handed.marker_mem {pool : Multiset ℤ} {s : State M} (hK : C.Kept pool s)
    (hH : S.Handed s) {k : ℕ} (hk : k + 1 < n)
    (h_exited : ∀ t : Tid n M.par, (t.1 : ℕ) = k → (s.thread t).Exited) {t : Tid n M.par}
    (ht : (t.1 : ℕ) = k + 1) (h_ended : S.ended t.1 (s.thread t).loc = false) :
    marker ∈ s.queue (k + 1) := by
  have h_returned : ∀ t : Tid n M.par, (t.1 : ℕ) = k → ∃ l, s.thread t = .returned l := by
    intro u hu
    have h_ex := h_exited u hu
    have h_stopped := hH.stopped u
    have h_orderly := S.orderly u _ (hK.wf u)
    rcases h_th : s.thread u with l | l | ⟨l, m⟩ | l | l
    · rw [h_th] at h_ex; exact h_ex.elim
    · rw [h_th] at h_ex; exact h_ex.elim
    · rw [h_th] at h_ex; exact h_ex.elim
    · exact ⟨l, rfl⟩
    · -- only the last stage quits
      rw [h_th] at h_stopped h_orderly
      rw [Thread.loc_quit, show M.prog u l = .quit from h_stopped] at h_orderly
      change (u.1 : ℕ) + 1 = n at h_orderly
      omega
  -- the producers have reported and promise nothing more, and the consumer has taken no marker
  have h_rep : (S.counts s k).rep = M.par k := by
    change stageSum k (fun _ th => th.reported) s.thread = M.par k
    refine stageSum_eq_of_forall (by omega) fun u hu => ?_
    obtain ⟨l, hl⟩ := h_returned u hu
    rw [hl]; rfl
  have h_pend : (S.counts s k).pend = 0 := by
    refine sum_eq_zero fun u _ => ?_
    split
    · next hu =>
      obtain ⟨l, hl⟩ := h_returned u hu
      rw [hl]; rfl
    · rfl
  have h_lt : (S.counts s k).ended < M.par (k + 1) := by
    change stageSum (k + 1) (fun j th => th.counts (S.ended j)) s.thread < M.par (k + 1)
    refine stageSum_lt ht ?_ fun _ th => th.counts_le_one _
    rw [Thread.counts, h_ended]; rfl
  have h_ok := hH.ok k hk
  have h_after := (h_ok.after (h_ok.count.trans h_rep)).1
  rw [Counts.total, h_pend] at h_after
  exact List.count_pos_iff.mp (by change 0 < (S.counts s k).queue.count marker; omega)

/-- If all consumers have seen a marker, all producers have reported and no id is left between
them; at most the surplus of markers is. -/
theorem Handed.complete {s : State M} (hH : S.Handed s) {k : ℕ} (hk : k + 1 < n)
    (h_par : 0 < M.par (k + 1))
    (h_ended : ∀ t : Tid n M.par, (t.1 : ℕ) = k + 1 → S.ended t.1 (s.thread t).loc = true) :
    s.finished k = M.par k ∧ ids (s.queue (k + 1)) = 0 ∧
      (s.queue (k + 1)).count marker + (S.counts s k).pend ≤ (M.par k - 1) * M.par (k + 1) := by
  have h_all : (S.counts s k).ended = M.par (k + 1) := by
    change stageSum (k + 1) (fun j th => th.counts (S.ended j)) s.thread = M.par (k + 1)
    refine stageSum_eq_of_forall hk fun t ht => ?_
    rw [Thread.counts, h_ended t ht]; rfl
  have h_ok := hH.ok k hk
  have h_fin : (S.counts s k).fin = M.par k := by
    -- before the stage has finished nobody behind it can have ended
    refine le_antisymm (hH.fin_le S hk) (not_lt.mp fun hlt => ?_)
    have h_none := (h_ok.before hlt).2.1
    omega
  refine ⟨h_fin, h_ok.drained (by omega), ?_⟩
  have h_after := (h_ok.after h_fin).2
  rw [Counts.total, h_all] at h_after
  rw [Nat.sub_mul, one_mul]
  change (S.counts s k).queue.count marker + _ ≤ _
  omega

/-- No thread returns before it has popped a marker. -/
def Clean : Prop :=
  ∀ (t : Tid n M.par) l, C.wf t l → M.prog t l = .quit → 0 < (t.1 : ℕ) → S.ended t.1 l = true

/-- A thread that has stopped has popped a marker, unless it belongs to the first stage. -/
theorem ended_of_stopped (h_clean : S.Clean) {pool : Multiset ℤ} {s : State M}
    (hK : C.Kept pool s) {t : Tid n M.par} (ht : 0 < (t.1 : ℕ))
    (h_stopped : M.prog t (s.thread t).loc = .leave ∨ M.prog t (s.thread t).loc = .quit) :
    S.ended t.1 (s.thread t).loc = true := by
  have h_orderly := S.orderly t _ (hK.wf t)
  rcases h_stopped with h | h
  · rw [h] at h_orderly
    exact h_orderly.2 ht
  · exact h_clean t _ (hK.wf t) h ht

/-- **Drained.** Once the threads of the last stage have exited, every thread has stopped, and the
queues between the stages hold no id. -/
theorem Handed.drain (h_clean : S.Clean) {pool : Multiset ℤ} {s : State M}
    (hK : C.Kept pool s) (hH : S.Handed s) (h_par : ∀ k, k < n → 0 < M.par k)
    (h_exited : ∀ t : Tid n M.par, (t.1 : ℕ) + 1 = n → (s.thread t).Exited) :
    (∀ k, 0 < k → k < n → ids (s.queue k) = 0) ∧
      ∀ t, M.prog t (s.thread t).loc = .leave ∨ M.prog t (s.thread t).loc = .quit := by
  -- the induction runs from the last stage to the first
  have h_stopped : ∀ d k, k + d + 1 = n → ∀ t : Tid n M.par, (t.1 : ℕ) = k →
      M.prog t (s.thread t).loc = .leave ∨ M.prog t (s.thread t).loc = .quit := by
    intro d
    induction d with
    | zero =>
      intro k hk t ht
      -- no consumer follows the last stage, and its threads have exited
      have h_ex := h_exited t (by omega)
      have h_st := hH.stopped t
      rcases h_th : s.thread t with l | l | ⟨l, m⟩ | l | l <;> rw [h_th] at h_ex h_st
      · exact h_ex.elim
      · exact h_ex.elim
      · exact h_ex.elim
      · exact .inl h_st
      · exact .inr h_st
    | succ d ih =>
      intro k hk t ht
      -- the consumers have ended, so the stage before is complete
      have h_next := ih (k + 1) (by omega)
      obtain ⟨h_fin, -⟩ := hH.complete S (k := k) (by omega) (h_par _ (by omega))
        fun u hu => S.ended_of_stopped h_clean hK (by omega) (h_next u hu)
      have h_rep : stageSum k (fun _ th => th.reported) s.thread = M.par k := by
        rw [← h_fin]
        exact ((hH.ok k (by omega)).count).symm
      -- a thread that has reported has left by its program
      have h_one := ne_zero_of_stageSum_eq h_rep ht fun _ th => th.reported_le_one
      have h_st := hH.stopped t
      rcases h_th : s.thread t with l | l | ⟨l, m⟩ | l | l <;> rw [h_th] at h_one h_st
      · exact absurd rfl h_one
      · exact .inl h_st
      · exact .inl h_st
      · exact .inl h_st
      · exact .inr h_st
  have h_all : ∀ t, M.prog t (s.thread t).loc = .leave ∨ M.prog t (s.thread t).loc = .quit :=
    fun t => h_stopped (n - 1 - t.1) t.1 (by omega) t rfl
  refine ⟨fun k h_pos hk => ?_, h_all⟩
  obtain ⟨j, rfl⟩ := Nat.exists_eq_succ_of_ne_zero h_pos.ne'
  exact (hH.complete S hk (h_par _ hk) fun u hu =>
    S.ended_of_stopped h_clean hK (by omega) (h_all u)).2.1

end Signals

end Pipeline
