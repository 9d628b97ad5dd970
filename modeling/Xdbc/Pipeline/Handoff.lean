import Xdbc.Pipeline.Custody

/-!
# The hand-off between two stages

What stage `k` and stage `k + 1` have to do with each other is six numbers and a queue: a `Tally`.
Whatever a thread does, it changes the tally of a hand-off in one of nine ways (`Tally.Move`), and
`Step.move` says so once for all programs. What a program must guarantee for this is `Signs`: it
pops only from its own queue and the free list, pushes only ids and only to the next queue and the
free list, and remembers whether it has seen a marker.

Invariants of a hand-off are then facts about moves, with no machine in sight.
-/

namespace Pipeline

open Function Finset

variable {n : ℕ} {L : Fin n → Type} {β σ : Type}

/-! ### Sums over the threads of one stage -/

section StageSum

variable {par : ℕ → ℕ}

/-- The sum of a quantity over the threads of stage `k`. -/
def stageSum (k : ℕ) (F : (j : Fin n) → Thread (L j) → ℕ)
    (thread : (t : Tid n par) → Thread (L t.1)) : ℕ :=
  ∑ t, if (t.1 : ℕ) = k then F t.1 (thread t) else 0

variable {k : ℕ} {F : (j : Fin n) → Thread (L j) → ℕ}
  {thread : (t : Tid n par) → Thread (L t.1)} {t : Tid n par}

variable (F thread) in
theorem stageSum_update (ht : (t.1 : ℕ) = k) (th : Thread (L t.1)) :
    stageSum k F (update thread t th) + F t.1 (thread t) = stageSum k F thread + F t.1 th := by
  have h := sum_update_add
    (fun (u : Tid n par) (th : Thread (L u.1)) => if (u.1 : ℕ) = k then F u.1 th else 0) thread
    (mem_univ t) th
  simpa [stageSum, ht] using h

/-- A thread that keeps its value, or belongs to another stage, does not change the sum. -/
theorem stageSum_update_eq {th : Thread (L t.1)}
    (h : (t.1 : ℕ) = k → F t.1 th = F t.1 (thread t)) :
    stageSum k F (update thread t th) = stageSum k F thread := by
  refine sum_congr rfl fun u _ => ?_
  by_cases hu : u = t
  · subst hu
    rw [update_self]
    split
    · next hk => exact h hk
    · rfl
  · rw [update_of_ne hu]

theorem stageSum_eq (hk : k < n) :
    stageSum k F thread = ∑ i : Fin (par k), F ⟨k, hk⟩ (thread ⟨⟨k, hk⟩, i⟩) := by
  rw [stageSum, ← univ_sigma_univ, sum_sigma, sum_eq_single ⟨k, hk⟩]
  · simp
  · intro j _ hj
    refine sum_eq_zero fun i _ => if_neg fun h => hj (Fin.ext h)
  · exact fun h => absurd (mem_univ _) h

/-- A bound on every thread of the stage bounds the sum. -/
theorem stageSum_le (hk : k < n) {c : ℕ}
    (h : ∀ t : Tid n par, (t.1 : ℕ) = k → F t.1 (thread t) ≤ c) :
    stageSum k F thread ≤ par k * c := by
  rw [stageSum_eq hk]
  refine le_trans (sum_le_card_nsmul _ _ c fun i _ => h ⟨⟨k, hk⟩, i⟩ rfl) ?_
  rw [card_univ, Fintype.card_fin, smul_eq_mul]

variable (F thread) in
theorem le_stageSum (ht : (t.1 : ℕ) = k) : F t.1 (thread t) ≤ stageSum k F thread := by
  have h := single_le_sum
    (f := fun t : Tid n par => if (t.1 : ℕ) = k then F t.1 (thread t) else 0)
    (fun _ _ => Nat.zero_le _) (mem_univ t)
  simpa [stageSum, ht] using h

/-- A thread of the stage that counts for nothing leaves a gap below the full sum. -/
theorem stageSum_lt (ht : (t.1 : ℕ) = k) (hzero : F t.1 (thread t) = 0)
    (hle : ∀ j th, F j th ≤ 1) : stageSum k F thread < par k := by
  obtain ⟨j, i⟩ := t
  subst ht
  rw [stageSum_eq j.2]
  have h := sum_lt_sum (s := univ) (f := fun i : Fin (par j) => F j (thread ⟨j, i⟩))
    (g := fun _ => 1) (fun i _ => hle _ _) ⟨i, mem_univ i, by rw [hzero]; exact one_pos⟩
  simpa using h

/-- If the sum is full, every thread of the stage counts. -/
theorem ne_zero_of_stageSum_eq (hsum : stageSum k F thread = par k) (ht : (t.1 : ℕ) = k)
    (hle : ∀ j th, F j th ≤ 1) : F t.1 (thread t) ≠ 0 :=
  fun hzero => absurd hsum (stageSum_lt ht hzero hle).ne

/-- If every thread of the stage counts for one, the sum is full. -/
theorem stageSum_eq_of_forall (hk : k < n)
    (h : ∀ t : Tid n par, (t.1 : ℕ) = k → F t.1 (thread t) = 1) : stageSum k F thread = par k := by
  rw [stageSum_eq hk, sum_congr rfl fun i _ => h ⟨⟨k, hk⟩, i⟩ rfl]
  simp

end StageSum

namespace Thread

variable {L₀ : Type}

/-- `1` for a thread that has reported to the counter of its stage. -/
def reported : Thread L₀ → ℕ
  | running _ => 0
  | counted _ => 1
  | signalling _ _ => 1
  | returned _ => 1
  | quit _ => 0

/-- The markers a thread may still push, when each push of markers is one of `Q`. -/
def pending (Q : ℕ) : Thread L₀ → ℕ
  | counted _ => Q
  | signalling _ m => m
  | _ => 0

@[simp] theorem pending_counted (Q : ℕ) (l : L₀) : (counted l).pending Q = Q := rfl
@[simp] theorem pending_signalling (Q m : ℕ) (l : L₀) : (signalling l m).pending Q = m := rfl
@[simp] theorem pending_returned (Q : ℕ) (l : L₀) : (returned l).pending Q = 0 := rfl

/-- `1` for a thread that is pushing markers. -/
def signals : Thread L₀ → ℕ
  | signalling _ _ => 1
  | _ => 0

/-- `1` for a thread whose local state satisfies `p`. -/
def counts (p : L₀ → Bool) (th : Thread L₀) : ℕ := if p th.loc then 1 else 0

theorem reported_le_one (th : Thread L₀) : th.reported ≤ 1 := by
  cases th <;> simp [reported]

/-- A report stands. -/
theorem reported_of_step {n : ℕ} {L : Fin n → Type} {β σ : Type} {M : Machine n L β σ}
    {s s' : State M} {t u : Tid n M.par} (h : Step M s t s') (hu : (s.thread u).reported = 1) :
    (s'.thread u).reported = 1 := by
  by_cases h_eq : u = t
  · subst h_eq
    have h_running : ∀ {l}, s.thread u ≠ .running l := by
      intro l hrun
      rw [hrun] at hu
      cases hu
    cases h with
    | pop hrun hop hq => exact absurd hrun h_running
    | push hrun hop hroom => exact absurd hrun h_running
    | work hrun hop => exact absurd hrun h_running
    | quit hrun hop => exact absurd hrun h_running
    | _ => change (update s.thread u _ u).reported = 1; rw [update_self]; rfl
  · rwa [h.thread_of_ne h_eq]

theorem counts_le_one (p : L₀ → Bool) (th : Thread L₀) : th.counts p ≤ 1 := by
  unfold counts; split <;> simp

theorem counts_of_loc_eq {p : L₀ → Bool} {th th' : Thread L₀} (h : p th.loc = p th'.loc) :
    th.counts p = th'.counts p := by
  unfold counts; rw [h]

end Thread

/-! ### One hand-off -/

/-- The state of the hand-off from one stage to the next. -/
@[ext]
structure Counts where
  /-- The counter of the producing stage. -/
  fin : ℕ
  /-- The producers that have reported. -/
  rep : ℕ
  /-- The markers the producers may still push. -/
  pend : ℕ
  /-- The producers that are pushing markers. -/
  sig : ℕ
  /-- The consumers that have popped a marker. -/
  ended : ℕ
  /-- The queue between the two stages. -/
  queue : List ℤ
/-- The state of a hand-off with its history. -/
structure Tally extends Counts where
  /-- The markers pushed so far. -/
  pushed : ℕ

/-- What one step does to a hand-off from `P` producers to `Q` consumers. -/
inductive Tally.Move (P Q : ℕ) (c : Tally) : Tally → Prop where
  | stay : Move P Q c c
  | pop_id {v : ℤ} {rest : List ℤ} (hq : c.queue = v :: rest) (hv : v ≠ marker) :
      Move P Q c { c with queue := rest }
  | pop_marker {rest : List ℤ} (hq : c.queue = marker :: rest) :
      Move P Q c { c with queue := rest, ended := c.ended + 1 }
  | push_id {v : ℤ} (hlt : c.rep < P) (hv : v ≠ marker) :
      Move P Q c { c with queue := c.queue ++ [v] }
  | leave (hlt : c.rep < P) :
      Move P Q c { c with fin := c.fin + 1, rep := c.rep + 1, pend := c.pend + Q }
  | last (hfin : c.fin = P) : Move P Q c { c with sig := c.sig + 1 }
  | notLast (hle : c.rep ≤ P) (hfin : c.fin ≠ P) {pend : ℕ} (hp : c.pend = pend + Q) :
      Move P Q c { c with pend := pend }
  | signal (hsig : 0 < c.sig) {pend : ℕ} (hp : c.pend = pend + 1) :
      Move P Q c { c with queue := c.queue ++ [marker], pend := pend, pushed := c.pushed + 1 }
  | done {sig : ℕ} (hs : c.sig = sig + 1) : Move P Q c { c with sig := sig }

/-! ### The obligation of a program -/

/-- What the operation `op` of a thread of stage `k` in local state `l` does with the queues and the
markers, where `ended` says whether the thread has popped a marker. -/
def Signs (n k : ℕ) {L₀ : Type} (ended : L₀ → Bool) (bad : L₀ → Prop) (l : L₀) : Op L₀ β σ → Prop
  | .pop q f =>
    (q < n → q = 0 ∨ q = k ∧ ended l = false) ∧
    ∀ v, ¬ bad (f v) → ended (f v) = if q = k ∧ 0 < k ∧ v = marker then true else ended l
  | .push q v l' => (q = 0 ∨ q = k + 1) ∧ v ≠ marker ∧ (¬ bad l' → ended l' = ended l)
  | .work _ f => ∀ m, ¬ bad (f m).2 → ended (f m).2 = ended l
  | .leave => True
  | .quit => True

/-! ### How one step changes the tally -/

section Tally

variable {M : Machine n L β σ}

/-- The number of end markers pushed to queue `q` so far. -/
def markers (s : State M) (q : ℕ) : ℕ :=
  s.log.countP fun e => e.queue = q ∧ e.item = marker

variable (ended : (k : Fin n) → L k → Bool)

/-- The hand-off from stage `k` to stage `k + 1`. -/
def tally (s : State M) (k : ℕ) : Tally where
  fin := s.finished k
  rep := stageSum k (fun _ th => th.reported) s.thread
  pend := stageSum k (fun _ th => th.pending (M.par (k + 1))) s.thread
  sig := stageSum k (fun _ th => th.signals) s.thread
  ended := stageSum (k + 1) (fun j th => th.counts (ended j)) s.thread
  queue := s.queue (k + 1)
  pushed := markers s (k + 1)

variable {ended} (s : State M) (t : Tid n M.par) {th : Thread (L t.1)} {k : ℕ}
  {queue : ℕ → List ℤ} {finished : ℕ → ℕ} {mem : Memory β σ} {log : List (Push β)}

/-- A step outside of the hand-off. -/
private theorem tally_eq (hfin : finished k = s.finished k)
    (hqueue : queue (k + 1) = s.queue (k + 1))
    (hlog : log.countP (fun e => e.queue = k + 1 ∧ e.item = marker) = markers s (k + 1))
    (hown : (t.1 : ℕ) = k → th.reported = (s.thread t).reported ∧
      th.pending (M.par (k + 1)) = (s.thread t).pending (M.par (k + 1)) ∧
      th.signals = (s.thread t).signals)
    (hended : (t.1 : ℕ) = k + 1 → ended t.1 th.loc = ended t.1 (s.thread t).loc) :
    tally (M := M) ended ⟨queue, finished, mem, update s.thread t th, log⟩ k = tally ended s k := by
  simp only [tally, markers] at hlog ⊢
  rw [hfin, hqueue, hlog, stageSum_update_eq fun h => (hown h).1,
    stageSum_update_eq fun h => (hown h).2.1, stageSum_update_eq fun h => (hown h).2.2,
    stageSum_update_eq fun h => Thread.counts_of_loc_eq (hended h)]

/-- A step of one of the producers of the hand-off. -/
private theorem tally_producer (ht : (t.1 : ℕ) = k) (rep pend sig : ℕ)
    (hrep : (tally ended s k).rep + th.reported = rep + (s.thread t).reported)
    (hpend : (tally ended s k).pend + th.pending (M.par (k + 1))
      = pend + (s.thread t).pending (M.par (k + 1)))
    (hsig : (tally ended s k).sig + th.signals = sig + (s.thread t).signals) :
    tally (M := M) ended ⟨queue, finished, mem, update s.thread t th, log⟩ k
      = ⟨⟨finished k, rep, pend, sig, (tally ended s k).ended, queue (k + 1)⟩,
        log.countP fun e => e.queue = k + 1 ∧ e.item = marker⟩ := by
  have h_rep := stageSum_update (fun _ th => th.reported) s.thread ht th
  have h_pend := stageSum_update (fun _ th => th.pending (M.par (k + 1))) s.thread ht th
  have h_sig := stageSum_update (fun _ th => th.signals) s.thread ht th
  have h_ended : stageSum (k + 1) (fun j th => th.counts (ended j)) (update s.thread t th)
      = stageSum (k + 1) (fun j th => th.counts (ended j)) s.thread :=
    stageSum_update_eq fun h => absurd (ht.symm.trans h) (by omega)
  simp only [tally, markers] at hrep hpend hsig ⊢
  rw [h_ended]
  congr 2 <;> omega

/-- A step of one of the consumers of the hand-off. -/
private theorem tally_consumer (ht : (t.1 : ℕ) = k + 1) (marked : ℕ)
    (hended : (tally ended s k).ended + th.counts (ended t.1)
      = marked + (s.thread t).counts (ended t.1)) :
    tally (M := M) ended ⟨queue, finished, mem, update s.thread t th, s.log⟩ k
      = { tally ended s k with fin := finished k, ended := marked, queue := queue (k + 1) } := by
  have h_ended := stageSum_update (fun j th => th.counts (ended j)) s.thread ht th
  have h_other : ∀ F : (j : Fin n) → Thread (L j) → ℕ,
      stageSum k F (update s.thread t th) = stageSum k F s.thread := fun F =>
    stageSum_update_eq fun h => absurd (ht.symm.trans h) (by omega)
  simp only [tally, markers] at hended ⊢
  rw [h_other, h_other, h_other]
  congr 2
  omega

/-- An update of a queue leaves the other queues alone. -/
private theorem queue_update_ne {q : ℕ} (hq : k + 1 ≠ q) (xs : List ℤ) :
    update queue q xs (k + 1) = queue (k + 1) :=
  update_of_ne hq _ _

end Tally

variable {M : Machine n L β σ} {ended : (k : Fin n) → L k → Bool}

/-- A thread that still runs has not reported. -/
theorem rep_lt {s : State M} {t : Tid n M.par} {l : L t.1} (hrun : s.thread t = .running l) :
    (tally ended s t.1).rep < M.par t.1 :=
  stageSum_lt rfl (by rw [hrun]; rfl) fun _ th => th.reported_le_one

variable (ended) in
theorem rep_le (s : State M) {k : ℕ} (hk : k < n) : (tally ended s k).rep ≤ M.par k := by
  rw [← mul_one (M.par k)]
  exact stageSum_le (F := fun _ th => th.reported) hk fun t _ => (s.thread t).reported_le_one

/-- **Step lemma.** Every step to a good local state is one move for each hand-off. -/
theorem Step.move {s s' : State M} {t : Tid n M.par} {bad : L t.1 → Prop} (hstep : Step M s t s')
    (h_signs : Signs n t.1 (ended t.1) bad (s.thread t).loc (M.prog t (s.thread t).loc))
    (hbad : ¬ bad (s'.thread t).loc) {k : ℕ} (hk : k + 1 < n) :
    (tally ended s k).Move (M.par k) (M.par (k + 1)) (tally ended s' k) := by
  cases hstep with
  | @pop l q f v rest hrun hop hq =>
    rw [hrun, Thread.loc_running, hop] at h_signs
    obtain ⟨h_own, h_ended⟩ := h_signs
    simp only [update_self, Thread.loc_running] at hbad
    have h_ended := h_ended v hbad
    -- only the queue of this hand-off counts
    by_cases hkq : k + 1 = q
    · subst hkq
      obtain h_zero | ⟨h_stage, h_false⟩ := h_own hk
      · omega
      -- the consumer that takes a marker has been told to end
      by_cases hv : v = marker
      · subst hv
        rw [if_pos ⟨h_stage, by omega, rfl⟩] at h_ended
        rw [tally_consumer s t h_stage.symm ((tally ended s k).ended + 1), update_self]
        · exact .pop_marker hq
        · simp [Thread.counts, hrun, h_ended, h_false]
      · rw [if_neg fun h => hv h.2.2] at h_ended
        rw [tally_consumer s t h_stage.symm (tally ended s k).ended, update_self]
        · exact .pop_id hq hv
        · simp [Thread.counts, hrun, h_ended]
    · -- a pop elsewhere does not end a consumer
      rw [tally_eq s t rfl (queue_update_ne hkq rest) rfl]
      · exact .stay
      · intro _; rw [hrun]; exact ⟨rfl, rfl, rfl⟩
      · intro ht
        rw [if_neg (by omega)] at h_ended
        rw [hrun]
        exact h_ended
  | @push l q v l' hrun hop hroom =>
    rw [hrun, Thread.loc_running, hop] at h_signs
    obtain ⟨h_own, hv, h_ended⟩ := h_signs
    simp only [update_self, Thread.loc_running] at hbad
    -- an id is pushed by a thread that has not reported yet
    by_cases hkq : k + 1 = q
    · subst hkq
      obtain rfl : k = t.1 := by omega
      rw [tally_producer s t rfl (tally ended s t.1).rep (tally ended s t.1).pend
        (tally ended s t.1).sig, update_self, List.countP_cons_of_neg (by simp [hv])]
      · exact .push_id (rep_lt hrun) hv
      all_goals rw [hrun]; rfl
    · rw [tally_eq s t rfl (queue_update_ne hkq _) (List.countP_cons_of_neg (by simp [hv]))]
      · exact .stay
      · intro _; rw [hrun]; exact ⟨rfl, rfl, rfl⟩
      · intro _; rw [hrun]; exact h_ended hbad
  | @work l bs f hrun hop =>
    rw [hrun, Thread.loc_running, hop] at h_signs
    simp only [update_self, Thread.loc_running] at hbad
    rw [tally_eq s t rfl rfl rfl]
    · exact .stay
    · intro _; rw [hrun]; exact ⟨rfl, rfl, rfl⟩
    · intro _; rw [hrun]; exact h_signs s.mem hbad
  | @leave l hrun hop =>
    -- the report promises the markers of all consumers until the comparison
    by_cases hkt : k = t.1
    · subst hkt
      rw [tally_producer s t rfl ((tally ended s t.1).rep + 1)
        ((tally ended s t.1).pend + M.par (t.1 + 1)) (tally ended s t.1).sig, update_self]
      · exact .leave (rep_lt hrun)
      all_goals rw [hrun]; rfl
    · rw [tally_eq s t (update_of_ne hkt _ _) rfl rfl]
      · exact .stay
      · exact fun h => absurd h.symm hkt
      · intro _; rw [hrun]; rfl
  | @quit l hrun hop =>
    rw [tally_eq s t rfl rfl rfl]
    · exact .stay
    · intro _; rw [hrun]; exact ⟨rfl, rfl, rfl⟩
    · intro _; rw [hrun]; rfl
  | @last l hcnt hfin =>
    -- the promise becomes that of the thread that signals
    by_cases hkt : k = t.1
    · subst hkt
      rw [tally_producer s t rfl (tally ended s t.1).rep (tally ended s t.1).pend
        ((tally ended s t.1).sig + 1)]
      · exact .last hfin
      all_goals rw [hcnt]; rfl
    · rw [tally_eq s t rfl rfl rfl]
      · exact .stay
      · exact fun h => absurd h.symm hkt
      · intro _; rw [hcnt]; rfl
  | @notLast l hcnt hfin =>
    by_cases hkt : k = t.1
    · subst hkt
      -- a thread that is not the last takes its promise back
      have h_pend := le_stageSum (fun _ th => th.pending (M.par (t.1 + 1))) s.thread (t := t) rfl
      rw [hcnt] at h_pend
      obtain ⟨pend, h_split⟩ : ∃ pend, (tally ended s t.1).pend = pend + M.par (t.1 + 1) :=
        ⟨_, (Nat.sub_add_cancel h_pend).symm⟩
      rw [tally_producer s t rfl (tally ended s t.1).rep pend (tally ended s t.1).sig]
      · exact .notLast (rep_le ended s t.1.2) hfin h_split
      · rw [hcnt]; rfl
      · rw [hcnt, h_split]; rfl
      · rw [hcnt]; rfl
    · rw [tally_eq s t rfl rfl rfl]
      · exact .stay
      · exact fun h => absurd h.symm hkt
      · intro _; rw [hcnt]; rfl
  | @signal l m hsig hroom =>
    by_cases hkt : k = t.1
    · subst hkt
      -- each marker redeems a part of the promise
      have h_pend := le_stageSum (fun _ th => th.pending (M.par (t.1 + 1))) s.thread (t := t) rfl
      have h_sig := le_stageSum (fun _ th => th.signals) s.thread (t := t) rfl
      rw [hsig] at h_pend h_sig
      obtain ⟨pend, h_split⟩ : ∃ pend, (tally ended s t.1).pend = pend + 1 :=
        ⟨_, (Nat.sub_add_cancel (le_trans (Nat.le_add_left 1 m) h_pend)).symm⟩
      rw [tally_producer s t rfl (tally ended s t.1).rep pend (tally ended s t.1).sig, update_self,
        List.countP_cons_of_pos (by simp)]
      · exact Tally.Move.signal (c := tally ended s t.1) h_sig h_split
      · rw [hsig]; rfl
      · rw [hsig, h_split]; simp only [Thread.pending]; omega
      · rw [hsig]; rfl
    · rw [tally_eq s t rfl (queue_update_ne (by omega) _)
        (List.countP_cons_of_neg (by simp; omega))]
      · exact .stay
      · exact fun h => absurd h.symm hkt
      · intro _; rw [hsig]; rfl
  | @done l hsig =>
    by_cases hkt : k = t.1
    · subst hkt
      -- all markers are pushed, and one thread less signals
      have h_sig := le_stageSum (fun _ th => th.signals) s.thread (t := t) rfl
      rw [hsig] at h_sig
      obtain ⟨sig, h_split⟩ : ∃ sig, (tally ended s t.1).sig = sig + 1 :=
        ⟨_, (Nat.sub_add_cancel h_sig).symm⟩
      rw [tally_producer s t rfl (tally ended s t.1).rep (tally ended s t.1).pend sig]
      · exact .done h_split
      · rw [hsig]; rfl
      · rw [hsig]; rfl
      · rw [hsig]; exact h_split
    · rw [tally_eq s t rfl rfl rfl]
      · exact .stay
      · exact fun h => absurd h.symm hkt
      · intro _; rw [hsig]; rfl

/-! ### How threads leave -/

/-- A thread that no longer runs has left by the operation its phase tells. -/
def Thread.Stopped {L₀ : Type} (prog : L₀ → Op L₀ β σ) : Thread L₀ → Prop
  | running _ => True
  | counted l => prog l = .leave
  | signalling l _ => prog l = .leave
  | returned l => prog l = .leave
  | quit l => prog l = .quit

/-- A thread that has reported has left by `leave`. -/
theorem Thread.Stopped.leave {L₀ : Type} {prog : L₀ → Op L₀ β σ} {th : Thread L₀}
    (h : th.Stopped prog) (h_reported : th.reported = 1) : prog th.loc = .leave := by
  cases th with
  | running l => cases h_reported
  | quit l => cases h_reported
  | _ => exact h

/-- A thread that has exited has reported, unless it has returned early. -/
theorem Thread.Stopped.reported {L₀ : Type} {prog : L₀ → Op L₀ β σ} {th : Thread L₀}
    (h : th.Stopped prog) (h_exited : th.Exited) (h_quit : prog th.loc ≠ .quit) :
    th.reported = 1 := by
  cases th with
  | returned l => rfl
  | quit l => exact absurd h h_quit
  | _ => exact h_exited.elim

private theorem stopped_update {thread : (t : Tid n M.par) → Thread (L t.1)} {t : Tid n M.par}
    {th : Thread (L t.1)} (h : ∀ t, (thread t).Stopped (M.prog t)) (h_new : th.Stopped (M.prog t)) :
    ∀ t', (update thread t th t').Stopped (M.prog t') := by
  intro t'
  by_cases h_eq : t' = t
  · subst h_eq; rwa [update_self]
  · rw [update_of_ne h_eq]; exact h t'

/-- A step keeps the record of how threads left. -/
theorem Thread.stopped_of_step {s s' : State M} {t : Tid n M.par} (hstep : Step M s t s')
    (h : ∀ u, (s.thread u).Stopped (M.prog u)) : ∀ u, (s'.thread u).Stopped (M.prog u) := by
  have h_own := h t
  cases hstep with
  | pop hrun hop hq => exact stopped_update h trivial
  | push hrun hop hroom => exact stopped_update h trivial
  | work hrun hop => exact stopped_update h trivial
  | leave hrun hop => exact stopped_update h hop
  | quit hrun hop => exact stopped_update h hop
  | last hcnt hfin => rw [hcnt] at h_own; exact stopped_update h h_own
  | notLast hcnt hfin => rw [hcnt] at h_own; exact stopped_update h h_own
  | signal hsig hroom => rw [hsig] at h_own; exact stopped_update h h_own
  | done hsig => rw [hsig] at h_own; exact stopped_update h h_own

end Pipeline
