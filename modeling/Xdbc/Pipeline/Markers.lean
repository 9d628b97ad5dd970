import Xdbc.Pipeline.Handoff

/-!
# How many end markers a stage pushes

The thread that finds the counter of its stage full pushes one marker for every thread of the next
stage. As counting and comparing are separate steps, more than one thread can find it full: all that
have counted and not compared yet when the last one counts. A step by which the last thread counts
while another is in between `Overtakes` it.

Let `P` producers hand over to `Q` consumers.

* Before the counter is full no marker has been pushed (`Tally.Sound.before`).
* Once it is full, the markers pushed and the markers promised are a constant sum
  (`Tally.Move.settled`), where a thread that has counted but not compared yet promises `Q`.
* In a run in which nobody overtakes, that constant is `Q` (`Marking.settled_of_inTurn`).
* Behind a step that overtakes it is at least `2 * Q` (`Marking.markers_of_overtakes`).

None of this needs the custody of the buffers: a `Marking` asks of the programs only that they push
no marker as if it were a buffer.
-/

namespace Pipeline

open Function Finset

variable {n : ℕ} {L : Fin n → Type} {β σ : Type}

/-! ### The invariant of a hand-off -/

namespace Tally

/-- What holds of a hand-off from `P` producers to `Q` consumers at all times. -/
structure Sound (P Q : ℕ) (c : Tally) : Prop where
  count : c.fin = c.rep
  before : c.fin < P → c.pushed = 0 ∧ c.sig = 0
  after : c.fin = P → Q ≤ c.pushed + c.pend
  split : c.pushed = c.queue.count marker + c.ended

variable {P Q : ℕ} {c c' : Tally}

/-- Every move keeps the invariant. -/
theorem Sound.move (h : c.Sound P Q) (h_move : c.Move P Q c') : c'.Sound P Q := by
  have h_split := h.split
  cases h_move with
  | stay => exact h
  | pop_id hq hv =>
    exact ⟨h.count, h.before, h.after, by simpa [hq, List.count_cons, hv] using h_split⟩
  | pop_marker hq =>
    refine ⟨h.count, h.before, h.after, ?_⟩
    -- the marker leaves the queue, and its consumer has been told to end
    rw [hq, List.count_cons_self] at h_split
    dsimp only
    omega
  | push_id hlt hv =>
    refine ⟨h.count, h.before, h.after, ?_⟩
    simpa [List.count_cons, hv] using h_split
  | leave hlt =>
    -- the thread that reports last leaves the counter full
    refine ⟨by simp only [h.count], fun _ => h.before (h.count ▸ hlt), fun _ => ?_, h.split⟩
    dsimp only
    omega
  | last hfin => exact ⟨h.count, fun hlt => absurd hfin hlt.ne, h.after, h.split⟩
  | notLast hle hne hp => exact ⟨h.count, h.before, fun hfin => absurd hfin hne, h.split⟩
  | signal hsig hp =>
    -- who signals has found the counter full
    refine ⟨h.count, fun hlt => absurd (h.before hlt).2 hsig.ne', fun hfin => ?_, ?_⟩
    · have h_after := h.after hfin
      dsimp only
      omega
    · simp only [List.count_append, List.count_singleton_self]
      omega
  | done hs =>
    refine ⟨h.count, fun hlt => ⟨(h.before hlt).1, ?_⟩, h.after, h.split⟩
    have h_sig := (h.before hlt).2
    dsimp only
    omega

/-- Once the counter is full, it stays so, and each marker pushed is one promised. -/
theorem Move.settled (h : c.Sound P Q) (h_move : c.Move P Q c') (hfin : c.fin = P) :
    c'.fin = P ∧ c'.pushed + c'.pend = c.pushed + c.pend := by
  cases h_move with
  | leave hlt => exact absurd (h.count.symm.trans hfin) hlt.ne
  | notLast hle hne hp => exact absurd hfin hne
  | signal hsig hp =>
    refine ⟨hfin, ?_⟩
    dsimp only
    omega
  | _ => exact ⟨hfin, rfl⟩

/-- The move that makes the counter full adds one promise to those that stand. -/
theorem Move.completes (h : c.Sound P Q) (h_move : c.Move P Q c') (hlt : c.fin < P)
    (hfin : c'.fin = P) : c'.pushed + c'.pend = c.pend + Q := by
  have h_none := (h.before hlt).1
  cases h_move with
  | leave _ =>
    dsimp only
    omega
  | _ => exact absurd hfin hlt.ne

end Tally

namespace Thread

variable {L₀ : Type}

/-- The thread has counted and not compared yet. -/
def Counted : Thread L₀ → Prop
  | counted _ => True
  | _ => False

/-- The thread has reported and returned. -/
def Returned : Thread L₀ → Prop
  | returned _ => True
  | _ => False

instance : (th : Thread L₀) → Decidable th.Counted
  | counted _ => isTrue trivial
  | running _ => isFalse id
  | signalling _ _ => isFalse id
  | returned _ => isFalse id
  | quit _ => isFalse id

instance : (th : Thread L₀) → Decidable th.Returned
  | returned _ => isTrue trivial
  | running _ => isFalse id
  | counted _ => isFalse id
  | signalling _ _ => isFalse id
  | quit _ => isFalse id

/-- The program of the thread leaves its loop next. -/
def leaves (prog : L₀ → Op L₀ β σ) : Thread L₀ → Bool
  | running l => match prog l with
    | .leave => true
    | _ => false
  | _ => false

/-- A thread that has exited has returned, unless it has quit. -/
theorem Stopped.returned {prog : L₀ → Op L₀ β σ} {th : Thread L₀} (h : th.Stopped prog)
    (h_exited : th.Exited) (h_quit : prog th.loc ≠ .quit) : th.Returned := by
  cases th with
  | returned l => trivial
  | quit l => exact absurd h h_quit
  | _ => exact h_exited.elim

/-- A thread that quits does not report. -/
theorem Stopped.reported_of_quit {prog : L₀ → Op L₀ β σ} {th : Thread L₀} (h : th.Stopped prog)
    (h_quit : prog th.loc = .quit) : th.reported = 0 := by
  have h_leave : prog th.loc ≠ .leave := by rw [h_quit]; nofun
  cases th with
  | running l => rfl
  | quit l => rfl
  | _ => exact absurd h h_leave

theorem Returned.reported {th : Thread L₀} (h : th.Returned) : th.reported = 1 := by
  cases th with
  | returned l => rfl
  | _ => exact h.elim

theorem Exited.pending {th : Thread L₀} (h : th.Exited) (Q : ℕ) : th.pending Q = 0 := by
  cases th with
  | returned l => rfl
  | quit l => rfl
  | _ => exact h.elim

theorem Returned.exited {th : Thread L₀} (h : th.Returned) : th.Exited := by
  cases th with
  | returned l => trivial
  | _ => exact h.elim

theorem Counted.pending {th : Thread L₀} (h : th.Counted) (Q : ℕ) : th.pending Q = Q := by
  cases th with
  | counted l => rfl
  | _ => exact h.elim

/-- Who neither pushes markers nor is between counting and comparing promises none. -/
theorem pending_eq_zero {th : Thread L₀} (h : ¬ th.Counted) (h_sig : th.signals = 0) (Q : ℕ) :
    th.pending Q = 0 := by
  cases th with
  | counted l => exact absurd trivial h
  | signalling l m => cases h_sig
  | _ => rfl

end Thread

/-! ### Overtaking -/

section Runs

variable {M : Machine n L β σ} {bad : (t : Tid n M.par) → L t.1 → Prop}

/-- Thread `t` is about to leave its loop and to count. -/
def Leaving (s : State M) (t : Tid n M.par) : Prop :=
  match s.thread t with
  | .running l => match M.prog t l with
    | .leave => True
    | _ => False
  | _ => False

theorem leaving_iff {s : State M} {t : Tid n M.par} :
    Leaving s t ↔ ∃ l, s.thread t = .running l ∧ M.prog t l = .leave := by
  constructor
  · intro h
    unfold Leaving at h
    split at h
    · next l hrun =>
      split at h
      · next hop => exact ⟨l, hrun, hop⟩
      · exact h.elim
    · exact h.elim
  · rintro ⟨l, hrun, hop⟩
    simp only [Leaving, hrun, hop]

theorem leaves_iff {s : State M} {t : Tid n M.par} :
    (s.thread t).leaves (M.prog t) = true ↔ Leaving s t := by
  rw [leaving_iff]
  unfold Thread.leaves
  split
  · next l hrun =>
    split
    · next hop => exact ⟨fun _ => ⟨l, hrun, hop⟩, fun _ => rfl⟩
    · next h_else =>
      refine ⟨fun h => absurd h Bool.false_ne_true, ?_⟩
      rintro ⟨l', hrun', hop⟩
      rw [hrun] at hrun'
      cases hrun'
      exact absurd hop h_else
  · next h_else =>
    refine ⟨fun h => absurd h Bool.false_ne_true, ?_⟩
    rintro ⟨l, hrun, -⟩
    exact absurd hrun (h_else l)

instance (s : State M) (t : Tid n M.par) : Decidable (Leaving s t) :=
  decidable_of_iff _ leaves_iff

/-- Thread `t` is about to make the counter of its stage full, and another thread of the stage has
counted and not compared yet. -/
def Overtakes (s : State M) (t : Tid n M.par) : Prop :=
  Leaving s t ∧ s.finished t.1 + 1 = M.par t.1 ∧
    ∃ u : Tid n M.par, u.1 = t.1 ∧ (s.thread u).Counted

instance (s : State M) (t : Tid n M.par) : Decidable (Overtakes s t) := by
  unfold Overtakes; infer_instance

/-- `s'` is reached from `s` by a run that avoids `bad` and in which no thread of stage `k`
overtakes. -/
def InTurn (M : Machine n L β σ) (bad : (t : Tid n M.par) → L t.1 → Prop) (k : ℕ)
    (s s' : State M) : Prop :=
  Relation.ReflTransGen (fun s s' => ∃ t, Step M s t s' ∧ ¬ bad t (s'.thread t).loc ∧
    ((t.1 : ℕ) = k → ¬ Overtakes s t)) s s'

/-- `s'` is reached from `s` by a run that avoids `bad` and in which a thread of stage `k`
overtakes. -/
def Overtaken (M : Machine n L β σ) (bad : (t : Tid n M.par) → L t.1 → Prop) (k : ℕ)
    (s s' : State M) : Prop :=
  ∃ s₁ t s₂, Reachable M bad s s₁ ∧ Step M s₁ t s₂ ∧ ¬ bad t (s₂.thread t).loc ∧
    (t.1 : ℕ) = k ∧ Overtakes s₁ t ∧ Reachable M bad s₂ s'

/-- Every run is of one of the two kinds. -/
theorem Reachable.inTurn_or_overtaken {s s' : State M} (h : Reachable M bad s s') (k : ℕ) :
    InTurn M bad k s s' ∨ Overtaken M bad k s s' := by
  induction h with
  | refl => exact .inl .refl
  | @tail s₁ s₂ h_run hnext ih =>
    obtain ⟨t, hstep, hbad⟩ := hnext
    rcases ih with h_turn | ⟨s₃, u, s₄, h_before, h_over, h_not, hu, h_overtakes, h_after⟩
    · by_cases h_overtakes : (t.1 : ℕ) = k ∧ Overtakes s₁ t
      · exact .inr ⟨s₁, t, s₂, h_run, hstep, hbad, h_overtakes.1, h_overtakes.2, .refl⟩
      · exact .inl (h_turn.tail ⟨t, hstep, hbad, fun hk h => h_overtakes ⟨hk, h⟩⟩)
    · exact .inr ⟨s₃, u, s₄, h_before, h_over, h_not, hu, h_overtakes,
        h_after.tail ⟨t, hstep, hbad⟩⟩

/-- Run a schedule: `none` where a thread cannot step, gets to a local state in `bad`, or belongs to
stage `k` and overtakes. -/
def execInTurn (M : Machine n L β σ) (bad : (t : Tid n M.par) → L t.1 → Prop)
    [∀ t l, Decidable (bad t l)] (k : ℕ) (s : State M) : List (Tid n M.par) → Option (State M)
  | [] => some s
  | t :: ts => (exec M s t).bind fun s' =>
    if bad t (s'.thread t).loc ∨ ((t.1 : ℕ) = k ∧ Overtakes s t) then none
    else execInTurn M bad k s' ts

/-- A schedule that runs through in turn is a run in turn. -/
theorem execInTurn_inTurn [∀ t l, Decidable (bad t l)] {k : ℕ} {s s' : State M}
    {ts : List (Tid n M.par)} (h : execInTurn M bad k s ts = some s') : InTurn M bad k s s' := by
  induction ts generalizing s with
  | nil => cases h; exact .refl
  | cons t ts ih =>
    simp only [execInTurn, Option.bind_eq_some_iff] at h
    obtain ⟨s₁, h_exec, h_rest⟩ := h
    split at h_rest
    · cases h_rest
    · next h_not =>
      rw [not_or, not_and] at h_not
      exact .head ⟨t, exec_eq_some_iff.mp h_exec, h_not⟩ (ih h_rest)

/-- A schedule in turn that ends in a state satisfying a decidable test yields such a state. -/
theorem exists_inTurn_of_execInTurn (M : Machine n L β σ)
    (bad : (t : Tid n M.par) → L t.1 → Prop) [∀ t l, Decidable (bad t l)] (k : ℕ) (s : State M)
    (ts : List (Tid n M.par)) (p : State M → Prop) [DecidablePred p]
    (h : ((execInTurn M bad k s ts).any fun s' => decide (p s')) = true) :
    ∃ s', InTurn M bad k s s' ∧ p s' := by
  rw [Option.any_eq_true] at h
  obtain ⟨s', h_run, h_test⟩ := h
  exact ⟨s', execInTurn_inTurn h_run, of_decide_eq_true h_test⟩

/-- Only a thread that leaves its loop counts, and it counts for its own stage. -/
theorem Step.leaving_of_finished_ne {s s' : State M} {t : Tid n M.par} (hstep : Step M s t s')
    {k : ℕ} (h_ne : s'.finished k ≠ s.finished k) :
    (t.1 : ℕ) = k ∧ s'.finished k = s.finished k + 1 ∧ Leaving s t := by
  cases hstep with
  | @leave l hrun hop =>
    dsimp only at h_ne ⊢
    by_cases hk : k = t.1
    · subst hk
      exact ⟨rfl, update_self _ _ _, leaving_iff.mpr ⟨l, hrun, hop⟩⟩
    · exact absurd (update_of_ne hk _ _) h_ne
  | _ => exact absurd rfl h_ne

theorem Step.finished_of_leaving {s s' : State M} {t : Tid n M.par} (hstep : Step M s t s')
    (h : Leaving s t) : s'.finished t.1 = s.finished t.1 + 1 := by
  obtain ⟨l, hrun, hop⟩ := leaving_iff.mp h
  have h_exec := exec_eq_some_iff.mpr hstep
  simp only [exec, hrun, hop, Option.some.injEq] at h_exec
  rw [← h_exec]
  exact update_self _ _ _

/-- The threads of stage `k` have returned after they have reported. -/
def Returned (s : State M) (k : ℕ) : Prop :=
  ∀ t : Tid n M.par, (t.1 : ℕ) = k → (s.thread t).Returned

instance (s : State M) (k : ℕ) : Decidable (Returned s k) := by
  unfold Returned; infer_instance

/-- Thread `t` waits for an item of its own queue, and there is none. -/
def Starves (s : State M) (t : Tid n M.par) : Prop :=
  ∃ l f, s.thread t = .running l ∧ M.prog t l = .pop t.1 f ∧ s.queue t.1 = []

/-- What is asked of the end of stage `k`: each consumer gets one marker. -/
structure SignalledOnce (ended : (k : Fin n) → L k → Bool) (s : State M) (k : ℕ) : Prop where
  /-- No marker is pushed before all producers have reported. -/
  early : s.finished k < M.par k → markers s (k + 1) = 0
  /-- Then every marker, in the queue or still to be pushed, has a consumer that has not popped
  one. -/
  claimed : s.finished k = M.par k → (s.queue (k + 1)).count marker
    + stageSum k (fun _ th => th.pending (M.par (k + 1))) s.thread
    + stageSum (k + 1) (fun j th => th.counts (ended j)) s.thread = M.par (k + 1)
  /-- Over the whole run exactly one marker for each consumer is pushed. -/
  once : Returned s k → markers s (k + 1) = M.par (k + 1)

end Runs

/-! ### The obligation of a program -/

/-- Every local state the operation leads to is well formed, provided that no marker comes out of
the free list. -/
def Stays {L₀ : Type} (wf bad : L₀ → Prop) : Op L₀ β σ → Prop
  | .pop q f => ∀ v, (q = 0 → v ≠ marker) → ¬ bad (f v) → wf (f v)
  | .push _ _ l' => ¬ bad l' → wf l'
  | .work _ f => ∀ m, ¬ bad (f m).2 → wf (f m).2
  | .leave => True
  | .quit => True

/-- Honest programs stay well formed. -/
theorem Honest.stays {L₀ : Type} {held : L₀ → Multiset ℤ} {wf bad : L₀ → Prop} {l : L₀}
    {op : Op L₀ β σ} (h : Honest n held wf bad l op) : Stays wf bad op := by
  cases op with
  | pop q f =>
    intro v h_free h_not
    rcases Nat.lt_or_ge q n with h_lt | h_ge
    · by_cases hv : v = marker
      · subst hv
        exact (h.2.1 (Nat.pos_of_ne_zero fun h => h_free h rfl) h_lt h_not).1
      · exact (h.1 v h_lt hv h_not).1
    · exact (h.2.2 v h_ge h_not).1
  | push q v l' => exact fun h_not => (h.2.2 h_not).1
  | work bs f => exact fun m h_not => (h m h_not).1
  | leave => trivial
  | quit => trivial

/-- What holds of all local states holds of those an operation leads to. -/
theorem Stays.of_forall {L₀ : Type} {wf : L₀ → Prop} (h : ∀ l, wf l) (bad : L₀ → Prop)
    (op : Op L₀ β σ) : Stays wf bad op := by
  cases op with
  | pop q f => exact fun v _ _ => h _
  | push q v l' => exact fun _ => h _
  | work bs f => exact fun m _ => h _
  | leave => trivial
  | quit => trivial

theorem Stays.and {L₀ : Type} {wf inv bad : L₀ → Prop} {op : Op L₀ β σ} (h : Stays wf bad op)
    (h' : Stays inv bad op) : Stays (fun l => wf l ∧ inv l) bad op := by
  cases op with
  | pop q f => exact fun v h_free h_not => ⟨h v h_free h_not, h' v h_free h_not⟩
  | push q v l' => exact fun h_not => ⟨h h_not, h' h_not⟩
  | work bs f => exact fun m h_not => ⟨h m h_not, h' m h_not⟩
  | leave => trivial
  | quit => trivial

/-- What is known of the local states, which of them have seen an end marker, and that every program
does with the markers what it must. -/
structure Marking (M : Machine n L β σ) (bad : (t : Tid n M.par) → L t.1 → Prop) where
  /-- The thread has popped a marker. -/
  ended : (k : Fin n) → L k → Bool
  /-- The local states a thread can be in. -/
  wf : (t : Tid n M.par) → L t.1 → Prop
  signs : ∀ t l, wf t l → Signs n t.1 (ended t.1) (bad t) l (M.prog t l)
  stays : ∀ t l, wf t l → Stays (wf t) (bad t) (M.prog t l)

namespace Marking

variable {M : Machine n L β σ} {bad : (t : Tid n M.par) → L t.1 → Prop} (K : Marking M bad)

/-- The invariant: local states are well formed, no marker is in the free list, every hand-off is
sound, and stopped threads have left by their program. -/
structure Marked (s : State M) : Prop where
  wf : ∀ t, K.wf t (s.thread t).loc
  free : marker ∉ s.queue 0
  sound : ∀ k, k + 1 < n → (tally K.ended s k).Sound (M.par k) (M.par (k + 1))
  stopped : ∀ t, (s.thread t).Stopped (M.prog t)

/-- A step to a good local state keeps all local states well formed. -/
theorem Marked.wf_step {s s' : State M} {t : Tid n M.par} (h : K.Marked s) (hstep : Step M s t s')
    (hbad : ¬ bad t (s'.thread t).loc) (u : Tid n M.par) : K.wf u (s'.thread u).loc := by
  by_cases h_eq : u = t
  · -- only the thread that steps changes its program counter
    subst h_eq
    have h_wf := h.wf u
    have h_stays := K.stays u _ h_wf
    cases hstep with
    | @pop l q f v rest hrun hop hq =>
      simp only [update_self, Thread.loc_running] at hbad ⊢
      rw [hrun, Thread.loc_running, hop] at h_stays
      refine h_stays v ?_ hbad
      rintro rfl rfl
      -- a marker in the free queue is what `h` excludes
      exact h.free (by rw [hq]; exact List.mem_cons_self)
    | push hrun hop hroom =>
      simp only [update_self, Thread.loc_running] at hbad ⊢
      rw [hrun, Thread.loc_running, hop] at h_stays
      exact h_stays hbad
    | work hrun hop =>
      simp only [update_self, Thread.loc_running] at hbad ⊢
      rw [hrun, Thread.loc_running, hop] at h_stays
      exact h_stays s.mem hbad
    -- the other steps leave the program counter alone
    | leave hrun hop => rw [hrun] at h_wf; simp only [update_self]; exact h_wf
    | quit hrun hop => rw [hrun] at h_wf; simp only [update_self]; exact h_wf
    | last hcnt hfin => rw [hcnt] at h_wf; simp only [update_self]; exact h_wf
    | notLast hcnt hfin => rw [hcnt] at h_wf; simp only [update_self]; exact h_wf
    | signal hsig hroom => rw [hsig] at h_wf; simp only [update_self]; exact h_wf
    | done hsig => rw [hsig] at h_wf; simp only [update_self]; exact h_wf
  · rw [hstep.thread_of_ne h_eq]
    exact h.wf u

/-- No step brings a marker into the free list. -/
theorem Marked.free_step {s s' : State M} {t : Tid n M.par} (h : K.Marked s)
    (hstep : Step M s t s') : marker ∉ s'.queue 0 := by
  have h_free := h.free
  have h_signs := K.signs t _ (h.wf t)
  cases hstep with
  | @pop l q f v rest hrun hop hq =>
    change marker ∉ update s.queue q rest 0
    by_cases h_zero : q = 0
    · subst h_zero
      rw [hq] at h_free
      rw [update_self]
      exact fun hm => h_free (List.mem_cons_of_mem _ hm)
    · rwa [update_of_ne (Ne.symm h_zero)]
  | @push l q v l' hrun hop hroom =>
    change marker ∉ update s.queue q (s.queue q ++ [v]) 0
    by_cases h_zero : q = 0
    · subst h_zero
      rw [hrun, Thread.loc_running, hop] at h_signs
      rw [update_self, List.mem_append, List.mem_singleton]
      exact fun hm => hm.elim h_free fun he => h_signs.2.1 he.symm
    · rwa [update_of_ne (Ne.symm h_zero)]
  -- markers go to the queue behind the stage
  | signal hsig hroom =>
    change marker ∉ update s.queue (t.1 + 1) (s.queue (t.1 + 1) ++ [marker]) 0
    rwa [update_of_ne (Nat.succ_ne_zero _).symm]
  | _ => exact h_free

/-- **Step lemma.** Every step to a good local state keeps the invariant. -/
theorem Marked.step {s s' : State M} {t : Tid n M.par} (h : K.Marked s) (hstep : Step M s t s')
    (hbad : ¬ bad t (s'.thread t).loc) : K.Marked s' where
  wf := h.wf_step K hstep hbad
  free := h.free_step K hstep
  sound k hk := (h.sound k hk).move (hstep.move (K.signs t _ (h.wf t)) hbad hk)
  stopped := Thread.stopped_of_step hstep h.stopped

/-- **Run lemma.** The invariant holds in every state of a run that avoids `bad`. -/
theorem marked {s s' : State M} (h : Reachable M bad s s') (h_init : K.Marked s) : K.Marked s' :=
  h.invariant h_init fun _ _ _ hI hstep hbad => hI.step K hstep hbad

/-- Before any thread has moved, the invariant holds. -/
theorem marked_initial {s : State M} (h_wf : ∀ t, K.wf t (s.thread t).loc)
    (h_par : ∀ k, k + 1 < n → 0 < M.par k)
    (h_run : ∀ t, ∃ l, s.thread t = .running l ∧ K.ended t.1 l = false)
    (h_queue : ∀ q, q < n → marker ∉ s.queue q) (h_pos : 0 < n) (h_fin : ∀ k, s.finished k = 0)
    (h_log : s.log = []) : K.Marked s := by
  have h_zero : ∀ k (F : (j : Fin n) → Thread (L j) → ℕ),
      (∀ t, F t.1 (s.thread t) = 0) → stageSum k F s.thread = 0 := fun k F hF =>
    sum_eq_zero fun t _ => by rw [hF t, ite_self]
  have h_loc : ∀ t, (s.thread t).reported = 0 ∧ (s.thread t).signals = 0 ∧
      (s.thread t).counts (K.ended t.1) = 0 := by
    intro t
    obtain ⟨l, hl, h_ended⟩ := h_run t
    rw [hl]
    refine ⟨rfl, rfl, ?_⟩
    rw [Thread.counts, Thread.loc_running, h_ended]
    rfl
  refine ⟨h_wf, h_queue 0 h_pos, fun k hk => ?_, fun t => ?_⟩
  · -- nobody has pushed, and nobody has reported
    have h_pushed : markers s (k + 1) = 0 := by rw [markers, h_log]; rfl
    have h_empty : (tally K.ended s k).fin ≠ M.par k := by
      change s.finished k ≠ _
      rw [h_fin]
      exact (h_par k hk).ne
    refine ⟨?_, fun _ => ⟨h_pushed, h_zero k (fun _ th => th.signals) fun t => (h_loc t).2.1⟩,
      fun hfin => absurd hfin h_empty, ?_⟩
    · exact (h_fin k).trans (h_zero k (fun _ th => th.reported) fun t => (h_loc t).1).symm
    · refine h_pushed.trans ?_
      rw [show (tally K.ended s k).queue = s.queue (k + 1) from rfl,
        List.count_eq_zero_of_not_mem (h_queue _ hk), zero_add]
      exact (h_zero (k + 1) (fun j th => th.counts (K.ended j)) fun t => (h_loc t).2.2).symm
  · obtain ⟨l, hl, -⟩ := h_run t
    rw [hl]
    trivial

/-! ### Markers pushed and promised -/

/-- Before the counter is full, only the threads between counting and comparing promise markers. -/
theorem Marked.pend_eq_zero {s : State M} (h : K.Marked s) {k : ℕ} (hk : k + 1 < n)
    (hlt : s.finished k < M.par k)
    (h_none : ∀ t : Tid n M.par, (t.1 : ℕ) = k → ¬ (s.thread t).Counted) :
    (tally K.ended s k).pend = 0 := by
  have h_sig : stageSum k (fun _ th => th.signals) s.thread = 0 := ((h.sound k hk).before hlt).2
  refine sum_eq_zero fun t _ => ?_
  split
  · next ht =>
    have h_le := le_stageSum (fun _ th => th.signals) s.thread ht
    exact Thread.pending_eq_zero (h_none t ht) (Nat.le_zero.mp (h_le.trans_eq h_sig)) _
  · rfl

/-- If the step that makes the counter full does not overtake, one round of markers is promised. -/
theorem Marked.promised {s s' : State M} {t : Tid n M.par} (h : K.Marked s)
    (hstep : Step M s t s') (hbad : ¬ bad t (s'.thread t).loc) {k : ℕ} (hk : k + 1 < n)
    (h_turn : (t.1 : ℕ) = k → ¬ Overtakes s t) (hlt : s.finished k < M.par k)
    (hfin : s'.finished k = M.par k) :
    markers s' (k + 1) + (tally K.ended s' k).pend = M.par (k + 1) := by
  obtain ⟨rfl, h_succ, h_leaving⟩ := hstep.leaving_of_finished_ne (k := k) (by omega)
  have h_pend := h.pend_eq_zero K hk hlt fun u hu h_counted =>
    h_turn rfl ⟨h_leaving, by omega, u, Fin.ext hu, h_counted⟩
  have h_sum := (hstep.move (K.signs t _ (h.wf t)) hbad hk).completes (h.sound _ hk) hlt hfin
  rwa [h_pend, zero_add] at h_sum

/-- If it overtakes, two rounds are. -/
theorem Marked.promised_of_overtakes {s s' : State M} {t : Tid n M.par} (h : K.Marked s)
    (hstep : Step M s t s') (hbad : ¬ bad t (s'.thread t).loc) (h_over : Overtakes s t)
    (hk : t.1 + 1 < n) :
    s'.finished t.1 = M.par t.1 ∧
      2 * M.par (t.1 + 1) ≤ markers s' (t.1 + 1) + (tally K.ended s' t.1).pend := by
  obtain ⟨h_leaving, h_last, u, hu, h_counted⟩ := h_over
  have hfin : s'.finished t.1 = M.par t.1 := (hstep.finished_of_leaving h_leaving).trans h_last
  have h_pend := le_stageSum (fun _ th => th.pending (M.par (t.1 + 1))) s.thread (t := u)
    (congrArg Fin.val hu)
  rw [h_counted.pending] at h_pend
  have h_sum := (hstep.move (K.signs t _ (h.wf t)) hbad hk).completes (h.sound _ hk)
    (by change s.finished t.1 < _; omega) hfin
  refine ⟨hfin, ?_⟩
  change M.par (t.1 + 1) ≤ (tally K.ended s t.1).pend at h_pend
  change markers s' (t.1 + 1) + _ = _ at h_sum
  omega

/-- Once the counter is full, markers pushed and promised stay a constant sum. -/
theorem Marked.settled {s s' : State M} (h : K.Marked s) (h_run : Reachable M bad s s') {k : ℕ}
    (hk : k + 1 < n) (hfin : s.finished k = M.par k) :
    s'.finished k = M.par k ∧ markers s' (k + 1) + (tally K.ended s' k).pend
      = markers s (k + 1) + (tally K.ended s k).pend := by
  refine (h_run.invariant (I := fun s' => K.Marked s' ∧ s'.finished k = M.par k ∧
    markers s' (k + 1) + (tally K.ended s' k).pend
      = markers s (k + 1) + (tally K.ended s k).pend) ⟨h, hfin, rfl⟩ ?_).2
  rintro s₁ t s₂ ⟨h_marked, h_full, h_sum⟩ hstep hbad
  obtain ⟨h_full', h_sum'⟩ :=
    (hstep.move (K.signs t _ (h_marked.wf t)) hbad hk).settled (h_marked.sound k hk) h_full
  exact ⟨h_marked.step K hstep hbad, h_full', h_sum'.trans h_sum⟩

/-- **Run lemma.** In a run in which nobody overtakes, the markers pushed and promised are one for
each consumer as soon as the counter is full. -/
theorem settled_of_inTurn {s s' : State M} {k : ℕ} (hk : k + 1 < n) (h_run : InTurn M bad k s s')
    (h : K.Marked s) (h_open : s.finished k < M.par k) :
    K.Marked s' ∧ (s'.finished k = M.par k →
      markers s' (k + 1) + (tally K.ended s' k).pend = M.par (k + 1)) := by
  induction h_run with
  | refl => exact ⟨h, fun hfin => absurd hfin h_open.ne⟩
  | @tail s₁ s₂ _ hnext ih =>
    obtain ⟨t, hstep, hbad, h_turn⟩ := hnext
    obtain ⟨h_marked, h_settled⟩ := ih
    refine ⟨h_marked.step K hstep hbad, fun hfin => ?_⟩
    have h_count : s₁.finished k = (tally K.ended s₁ k).rep := (h_marked.sound k hk).count
    have h_le := rep_le K.ended s₁ (k := k) (by omega)
    rcases (h_count ▸ h_le : s₁.finished k ≤ M.par k).lt_or_eq with hlt | h_full
    · exact h_marked.promised K hstep hbad hk h_turn hlt hfin
    · exact (h_marked.settled K (.single ⟨t, hstep, hbad⟩) hk h_full).2.trans (h_settled h_full)

/-- Where all producers have returned, the counter is full and no marker is promised. -/
theorem Marked.of_returned {s : State M} (h : K.Marked s) {k : ℕ} (hk : k + 1 < n)
    (h_returned : Returned s k) : s.finished k = M.par k ∧ (tally K.ended s k).pend = 0 := by
  constructor
  · refine (h.sound k hk).count.trans ?_
    exact stageSum_eq_of_forall (F := fun _ th => th.reported) (by omega)
      fun t ht => (h_returned t ht).reported
  · refine sum_eq_zero fun t _ => ?_
    split
    · next ht => exact (h_returned t ht).exited.pending _
    · rfl

/-- **One marker for each consumer**, in every run in which no producer overtakes. -/
theorem signalledOnce {s s' : State M} {k : ℕ} (hk : k + 1 < n) (h_run : InTurn M bad k s s')
    (h : K.Marked s) (h_open : s.finished k < M.par k) : SignalledOnce K.ended s' k := by
  obtain ⟨h_marked, h_settled⟩ := K.settled_of_inTurn hk h_run h h_open
  have h_sound := h_marked.sound k hk
  have h_split : markers s' (k + 1) = (s'.queue (k + 1)).count marker
    + (tally K.ended s' k).ended := h_sound.split
  refine ⟨fun hlt => (h_sound.before hlt).1, fun hfin => ?_, fun h_returned => ?_⟩
  · have h_sum := h_settled hfin
    change (s'.queue (k + 1)).count marker + (tally K.ended s' k).pend
      + (tally K.ended s' k).ended = _
    omega
  · obtain ⟨hfin, h_pend⟩ := h_marked.of_returned K hk h_returned
    have h_sum := h_settled hfin
    rwa [h_pend, add_zero] at h_sum

/-- **Twice as many, or more**, if a producer overtakes. -/
theorem markers_of_overtaken {s s' : State M} {k : ℕ} (hk : k + 1 < n)
    (h_run : Overtaken M bad k s s') (h : K.Marked s) (h_returned : Returned s' k) :
    2 * M.par (k + 1) ≤ markers s' (k + 1) := by
  obtain ⟨s₁, t, s₂, h_before, hstep, hbad, rfl, h_over, h_after⟩ := h_run
  have h_marked := K.marked h_before h
  have h_marked' := h_marked.step K hstep hbad
  obtain ⟨hfin, h_twice⟩ := h_marked.promised_of_overtakes K hstep hbad h_over hk
  have h_sum := (h_marked'.settled K h_after hk hfin).2
  have h_none := ((K.marked h_after h_marked').of_returned K hk h_returned).2
  omega

/-- While all threads of a stage have exited, one marker for each consumer has been pushed exactly if
none of them has returned early. -/
theorem Marked.pushed_iff {s : State M} (h : K.Marked s) {k : ℕ} (hk : k + 1 < n)
    (h_pos : 0 < M.par (k + 1)) (h_exited : ∀ t : Tid n M.par, (t.1 : ℕ) = k → (s.thread t).Exited) :
    M.par (k + 1) ≤ markers s (k + 1) ↔
      ∀ t : Tid n M.par, (t.1 : ℕ) = k → M.prog t (s.thread t).loc ≠ .quit := by
  have h_count : s.finished k = stageSum k (fun _ th => th.reported) s.thread := (h.sound k hk).count
  constructor
  · -- a thread that quits does not report, so the count never gets full
    intro h_pushed t ht h_quit
    have h_zero := (h.stopped t).reported_of_quit h_quit
    have h_lt : stageSum k (fun _ th => th.reported) s.thread < M.par k :=
      stageSum_lt ht h_zero fun _ th => th.reported_le_one
    have h_none : markers s (k + 1) = 0 := ((h.sound k hk).before (h_count.trans_lt h_lt)).1
    omega
  · -- all have returned, so the last one has pushed the markers or is about to
    intro h_normal
    have h_returned : Returned s k := fun t ht =>
      (h.stopped t).returned (h_exited t ht) (h_normal t ht)
    obtain ⟨hfin, h_pend⟩ := h.of_returned K hk h_returned
    have h_le := (h.sound k hk).after hfin
    change _ ≤ markers s (k + 1) + _ at h_le
    omega

/-- A consumer waits for an item only while not every consumer's marker is pushed. -/
theorem Marked.not_starves {s : State M} (h : K.Marked s) {k : ℕ} (hk : k + 1 < n)
    (h_pushed : M.par (k + 1) ≤ markers s (k + 1)) {t : Tid n M.par} (ht : (t.1 : ℕ) = k + 1) :
    ¬ Starves s t := by
  rintro ⟨l, f, hrun, hop, h_empty⟩
  have h_wf := h.wf t
  rw [hrun, Thread.loc_running] at h_wf
  have h_signs := K.signs t l h_wf
  rw [hop] at h_signs
  have h_zero : (s.thread t).counts (K.ended t.1) = 0 := by
    obtain h_zero | ⟨-, h_false⟩ := h_signs.1 t.1.2
    · omega
    · rw [hrun]
      exact if_neg (Bool.eq_false_iff.mp h_false)
  have h_lt : stageSum (k + 1) (fun j th => th.counts (K.ended j)) s.thread < M.par (k + 1) :=
    stageSum_lt ht h_zero fun _ th => th.counts_le_one _
  -- as many markers as there are consumers, and not all of them popped
  have h_split : markers s (k + 1) = (s.queue (k + 1)).count marker
      + stageSum (k + 1) (fun j th => th.counts (K.ended j)) s.thread := (h.sound k hk).split
  rw [← ht, h_empty, List.count_nil, ht] at h_split
  omega

end Marking

/-! ### Promises stand -/

section Promises

variable {M : Machine n L β σ}

/-- All threads of stage `k` have reported, and at least `c` markers are pushed or promised. -/
structure Promised (k c : ℕ) (s : State M) : Prop where
  full : s.finished k = M.par k
  reported : ∀ t : Tid n M.par, (t.1 : ℕ) = k → (s.thread t).reported = 1
  promised : c ≤ markers s (k + 1) + stageSum k (fun _ th => th.pending (M.par (k + 1))) s.thread

/-- What has been pushed stays pushed. -/
theorem markers_mono {s s' : State M} {t : Tid n M.par} (hstep : Step M s t s') (q : ℕ) :
    markers s q ≤ markers s' q := by
  cases hstep with
  | push hrun hop hroom => exact (List.sublist_cons_self _ _).countP_le
  | signal hsig hroom => exact (List.sublist_cons_self _ _).countP_le
  | _ => exact le_rfl

/-- Promises stand, whatever the threads do. -/
theorem Promised.step {k c : ℕ} {s s' : State M} {t : Tid n M.par} (h : Promised k c s)
    (hstep : Step M s t s') : Promised k c s' := by
  have h_markers := markers_mono hstep (k + 1)
  have h_reported := fun u hu => Thread.reported_of_step hstep (h.reported u hu)
  have h_promised := h.promised
  -- a thread of the stage has reported, so only the phases behind the report are left
  by_cases ht : (t.1 : ℕ) = k
  · have h_one := h.reported t ht
    have h_sum := fun th => stageSum_update (fun _ th => th.pending (M.par (k + 1))) s.thread ht th
    cases hstep with
    | pop hrun hop hq => rw [hrun] at h_one; cases h_one
    | push hrun hop hroom => rw [hrun] at h_one; cases h_one
    | work hrun hop => rw [hrun] at h_one; cases h_one
    | leave hrun hop => rw [hrun] at h_one; cases h_one
    | quit hrun hop => rw [hrun] at h_one; cases h_one
    -- what was promised for the thread, it promises itself
    | @last l hcnt hfin =>
      subst ht
      have h_sum := h_sum (.signalling l (M.par (t.1 + 1)))
      rw [hcnt, Thread.pending_counted, Thread.pending_signalling] at h_sum
      refine ⟨h.full, h_reported, ?_⟩
      dsimp only
      omega
    | notLast hcnt hfin => exact absurd h.full (ht ▸ hfin)
    -- a marker that is pushed is no longer promised
    | @signal l m hsig hroom =>
      subst ht
      have h_sum := h_sum (.signalling l m)
      rw [hsig, Thread.pending_signalling, Thread.pending_signalling] at h_sum
      refine ⟨h.full, h_reported, ?_⟩
      rw [markers, List.countP_cons_of_pos (by simp)]
      rw [markers] at h_promised
      dsimp only
      omega
    | @done l hsig =>
      have h_sum := h_sum (.returned l)
      rw [hsig, Thread.pending_signalling, Thread.pending_returned] at h_sum
      refine ⟨h.full, h_reported, ?_⟩
      dsimp only
      omega
  · -- a step elsewhere leaves the stage alone
    have h_full : s'.finished k = s.finished k := by
      by_contra h_ne
      exact ht (hstep.leaving_of_finished_ne h_ne).1
    have h_thread : stageSum k (fun _ th => th.pending (M.par (k + 1))) s'.thread
        = stageSum k (fun _ th => th.pending (M.par (k + 1))) s.thread := by
      refine sum_congr rfl fun u _ => ?_
      by_cases hu : (u.1 : ℕ) = k
      · rw [hstep.thread_of_ne fun h_eq => ht (h_eq ▸ hu)]
      · rw [if_neg hu, if_neg hu]
    refine ⟨h_full.trans h.full, h_reported, ?_⟩
    omega

/-- When the threads of the stage have exited, what they have promised is pushed. -/
theorem Promised.pushed_of_exited {k c : ℕ} {s : State M} (h : Promised k c s)
    (h_exited : ∀ t : Tid n M.par, (t.1 : ℕ) = k → (s.thread t).Exited) :
    c ≤ markers s (k + 1) := by
  have h_pend : stageSum k (fun _ th => th.pending (M.par (k + 1))) s.thread = 0 := by
    refine sum_eq_zero fun t _ => ?_
    split
    · next ht => exact (h_exited t ht).pending _
    · rfl
  have h_promised := h.promised
  omega

/-- An end marker is queued only after the stage before has reported. -/
theorem Marking.Marked.promised_of_marker_mem {bad : (t : Tid n M.par) → L t.1 → Prop}
    (K : Marking M bad) {s : State M} (h : K.Marked s) {k : ℕ} (hk : k + 1 < n)
    (h_mem : marker ∈ s.queue (k + 1)) : Promised k (M.par (k + 1)) s := by
  have h_sound := h.sound k hk
  have h_count : s.finished k = stageSum k (fun _ th => th.reported) s.thread := h_sound.count
  have h_le : s.finished k ≤ M.par k := h_count ▸ rep_le K.ended s (by omega)
  have h_full : s.finished k = M.par k := by
    refine h_le.antisymm (not_lt.mp fun hlt => ?_)
    have h_none := (h_sound.before hlt).1
    have h_split := h_sound.split
    have h_pos : 0 < (tally K.ended s k).queue.count marker := List.count_pos_iff.mpr h_mem
    omega
  refine ⟨h_full, fun t ht => ?_, h_sound.after h_full⟩
  have h_ne := ne_zero_of_stageSum_eq (F := fun _ th => th.reported) (h_count.symm.trans h_full) ht
    fun _ th => th.reported_le_one
  have h_one := (s.thread t).reported_le_one
  omega

end Promises

end Pipeline
