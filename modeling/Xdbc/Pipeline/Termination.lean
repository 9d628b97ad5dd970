import Xdbc.Pipeline.Progress

/-!
# Termination

A pipeline comes to an end because every step costs something and nothing is added from outside. A
`Potential` gives a price to every local state and to every item in a queue. A pop brings the thread
the price of the item, a push costs it that price, and every operation costs at least one
(`Descends`). What the end markers of a stage cost is set aside for each thread until it has
reported (`Potential.phase`). The total then falls with every step (`Potential.Holds.step`), so a
run has at most as many steps as the state it begins in costs (`Potential.Holds.run`).

Together with freedom from deadlock this is completion: a run that cannot go on has ended
(`exited_of_halted`).
-/

namespace Pipeline

open Function Finset

variable {n : ℕ} {L : Fin n → Type} {β σ : Type}

/-! ### Runs and their lengths -/

/-- A run of `k` steps, none of which leads a thread to a local state in `bad`. -/
inductive Run (M : Machine n L β σ) (bad : (t : Tid n M.par) → L t.1 → Prop) (s : State M) :
    ℕ → State M → Prop where
  | refl : Run M bad s 0 s
  | tail {k : ℕ} {s₁ s₂ : State M} : Run M bad s k s₁ → Next M bad s₁ s₂ → Run M bad s (k + 1) s₂

variable {M : Machine n L β σ} {bad : (t : Tid n M.par) → L t.1 → Prop} {s s' : State M}

theorem Run.reachable {k : ℕ} (h : Run M bad s k s') : Reachable M bad s s' := by
  induction h with
  | refl => exact .refl
  | tail _ h_next ih => exact ih.tail h_next

theorem Reachable.run (h : Reachable M bad s s') : ∃ k, Run M bad s k s' := by
  induction h with
  | refl => exact ⟨0, .refl⟩
  | tail _ h_next ih =>
    obtain ⟨k, h_run⟩ := ih
    exact ⟨k + 1, h_run.tail h_next⟩

/-- No thread can go on. -/
def Halted (s : State M) : Prop := ∀ t s', ¬ Step M s t s'

/-- A thread that has not exited and does not wait can go on. -/
theorem exists_step {t : Tid n M.par} (h_not : ¬ (s.thread t).Exited) (h_free : ¬ Blocked M s t) :
    ∃ s', Step M s t s' := by
  rcases h_th : s.thread t with l | l | ⟨l, m⟩ | l | l
  · -- running: a pop and a push have to wait, the rest goes on
    rw [Blocked, h_th] at h_free
    dsimp only at h_free
    rcases h_op : M.prog t l with ⟨q, f⟩ | ⟨q, v, l'⟩ | ⟨bs, f⟩ | _ | _ <;>
      rw [h_op] at h_free
    · obtain ⟨v, rest, hq⟩ := List.exists_cons_of_ne_nil h_free
      exact ⟨_, .pop h_th h_op hq⟩
    · exact ⟨_, .push h_th h_op (not_not.mp h_free)⟩
    · exact ⟨_, .work h_th h_op⟩
    · exact ⟨_, .leave h_th h_op⟩
    · exact ⟨_, .quit h_th h_op⟩
  · by_cases h_fin : s.finished t.1 = M.par t.1
    · exact ⟨_, .last h_th h_fin⟩
    · exact ⟨_, .notLast h_th h_fin⟩
  · cases m with
    | zero => exact ⟨_, .done h_th⟩
    | succ m =>
      rw [Blocked, h_th] at h_free
      exact ⟨_, .signal h_th (not_not.mp h_free)⟩
  · -- done or quit: the thread has exited
    exact absurd (h_th ▸ trivial) h_not
  · exact absurd (h_th ▸ trivial) h_not

/-- A run that has ended cannot go on. -/
theorem halted_of_exited (h : ∀ t, (s.thread t).Exited) : Halted s := by
  intro t s' hstep
  have h_exited := h t
  cases hstep with
  | pop hrun => rw [hrun] at h_exited; exact h_exited
  | push hrun => rw [hrun] at h_exited; exact h_exited
  | work hrun => rw [hrun] at h_exited; exact h_exited
  | leave hrun => rw [hrun] at h_exited; exact h_exited
  | quit hrun => rw [hrun] at h_exited; exact h_exited
  | last hcnt => rw [hcnt] at h_exited; exact h_exited
  | notLast hcnt => rw [hcnt] at h_exited; exact h_exited
  | signal hsig => rw [hsig] at h_exited; exact h_exited
  | done hsig => rw [hsig] at h_exited; exact h_exited

/-- A run that cannot go on has ended, if it is not locked up. -/
theorem exited_of_halted (h_halted : Halted s) (h_dead : ¬ Deadlock M s) (t : Tid n M.par) :
    (s.thread t).Exited := by
  by_contra h_not
  refine h_dead ⟨⟨t, h_not⟩, fun u hu => ?_⟩
  by_contra h_free
  obtain ⟨s', hstep⟩ := exists_step hu h_free
  exact h_halted u s' hstep

/-- What is counted in lists of bounded length over a finite type is bounded. -/
theorem exists_bound {α : Type} [Finite α] (f : List α → ℕ) (most : ℕ) :
    ∃ N, ∀ xs, xs.length ≤ most → f xs ≤ N := by
  obtain ⟨N, hN⟩ := ((List.finite_length_le α most).image f).bddAbove
  exact ⟨N, fun xs h_length => hN ⟨xs, h_length, rfl⟩⟩

/-! ### Potentials -/

/-- The operation of a thread costs something, where `weight` is the price of an item in a queue and
`carry` that of a local state. -/
def Descends {L₀ : Type} (queues : ℕ) (weight : ℕ → ℤ → ℕ) (fit : Memory β σ → Prop)
    (ok bad : L₀ → Prop) (carry : L₀ → ℕ) (l : L₀) : Op L₀ β σ → Prop
  | .pop q k => q < queues ∧ ∀ v, ¬ bad (k v) → ok (k v) ∧ carry (k v) < carry l + weight q v
  | .push q v l' => q < queues ∧ (¬ bad l' → ok l' ∧ carry l' + weight q v < carry l)
  | .work _ f => ∀ m, fit m → ¬ bad (f m).2 → fit (f m).1 ∧ ok (f m).2 ∧ carry (f m).2 < carry l
  | .leave => True
  | .quit => True

/-- The prices of local states and items. -/
structure Potential (M : Machine n L β σ) (bad : (t : Tid n M.par) → L t.1 → Prop) where
  /-- The number of queues the programs use. -/
  queues : ℕ
  weight : ℕ → ℤ → ℕ
  carry : (t : Tid n M.par) → L t.1 → ℕ
  /-- What holds of a thread. -/
  ok : (t : Tid n M.par) → L t.1 → Prop
  /-- What holds of the memory. -/
  fit : Memory β σ → Prop
  descends : ∀ t l, ok t l → Descends queues weight fit (ok t) (bad t) (carry t) l (M.prog t l)

namespace Potential

variable (P : Potential M bad)

/-- What the end markers cost that a thread of stage `k` may still push. -/
def toll (k : ℕ) : ℕ := M.par (k + 1) * (P.weight (k + 1) marker + 1)

/-- The price of a thread. -/
def phase (t : Tid n M.par) : Thread (L t.1) → ℕ
  | .running l => P.carry t l + P.toll t.1 + 3
  | .counted _ => P.toll t.1 + 2
  | .signalling _ m => m * (P.weight (t.1 + 1) marker + 1) + 1
  | .returned _ => 0
  | .quit _ => 0

/-- The price of the items in the queues. -/
def queued (queue : ℕ → List ℤ) : ℕ := ∑ q ∈ range P.queues, ((queue q).map (P.weight q)).sum

/-- The price of a state. -/
def total (s : State M) : ℕ := P.queued s.queue + ∑ t, P.phase t (s.thread t)

/-- What holds of a state. -/
structure Holds (s : State M) : Prop where
  ok : ∀ t, P.ok t (s.thread t).loc
  fit : P.fit s.mem

variable {P}

section Phase

variable {t : Tid n M.par} (l : L t.1)

theorem phase_running : P.phase t (.running l) = P.carry t l + P.toll t.1 + 3 := rfl
theorem phase_counted : P.phase t (.counted l) = P.toll t.1 + 2 := rfl
theorem phase_signalling (m : ℕ) :
    P.phase t (.signalling l m) = m * (P.weight (t.1 + 1) marker + 1) + 1 := rfl
theorem phase_returned : P.phase t (.returned l) = 0 := rfl
theorem phase_quit : P.phase t (.quit l) = 0 := rfl

end Phase

theorem queued_update {q : ℕ} (hq : q < P.queues) (queue : ℕ → List ℤ) (xs : List ℤ) :
    P.queued (update queue q xs) + ((queue q).map (P.weight q)).sum
      = P.queued queue + (xs.map (P.weight q)).sum :=
  sum_update_add (fun q (xs : List ℤ) => (xs.map (P.weight q)).sum) queue (mem_range.mpr hq) xs

/-- One more item in a queue. -/
theorem queued_append_le (queue : ℕ → List ℤ) (q : ℕ) (v : ℤ) :
    P.queued (update queue q (queue q ++ [v])) ≤ P.queued queue + P.weight q v := by
  by_cases hq : q < P.queues
  · have h := queued_update hq queue (queue q ++ [v])
    rw [List.map_append, List.sum_append, List.map_singleton, List.sum_singleton] at h
    omega
  · -- nobody pays for a queue the programs do not use
    refine le_trans (sum_le_sum fun q' hq' => ?_) (Nat.le_add_right _ _)
    have h_ne : q' ≠ q := by
      rintro rfl
      exact hq (mem_range.mp hq')
    rw [update_of_ne h_ne]

/-- The thread that moves has a new price. -/
theorem phases_update (thread : (t : Tid n M.par) → Thread (L t.1)) (t : Tid n M.par)
    (th : Thread (L t.1)) :
    ∑ u, P.phase u (update thread t th u) + P.phase t (thread t)
      = ∑ u, P.phase u (thread u) + P.phase t th :=
  sum_update_add P.phase thread (mem_univ t) th

theorem Holds.update {thread : (t : Tid n M.par) → Thread (L t.1)} {t : Tid n M.par}
    {th : Thread (L t.1)} (h : ∀ u, P.ok u (thread u).loc) (h_new : P.ok t th.loc) :
    ∀ u, P.ok u (update thread t th u).loc := by
  intro u
  by_cases hu : u = t
  · subst hu
    rw [update_self]
    exact h_new
  · rw [update_of_ne hu]
    exact h u

/-- **Step lemma.** Every step makes the state cheaper. -/
theorem Holds.step (h : P.Holds s) {t : Tid n M.par} (hstep : Step M s t s')
    (hbad : ¬ bad t (s'.thread t).loc) : P.Holds s' ∧ P.total s' < P.total s := by
  obtain ⟨h_ok, h_fit⟩ := h
  have h_descends := P.descends t _ (h_ok t)
  cases hstep with
  | @pop l q f v rest hrun hop hq =>
    -- what the item costs pays for the operations behind the pop
    rw [hrun, Thread.loc_running, hop] at h_descends
    obtain ⟨h_lt, h_next⟩ := h_descends
    obtain ⟨h_new, h_less⟩ := h_next v (by simpa using hbad)
    have h_queue := queued_update h_lt s.queue rest
    have h_phases := phases_update (P := P) s.thread t (.running (f v))
    rw [hq, List.map_cons, List.sum_cons] at h_queue
    rw [hrun, phase_running, phase_running] at h_phases
    refine ⟨⟨Holds.update h_ok h_new, h_fit⟩, ?_⟩
    dsimp only [total]
    omega
  | @push l q v l' hrun hop hroom =>
    -- the thread pays for the item it pushes
    rw [hrun, Thread.loc_running, hop] at h_descends
    obtain ⟨-, h_next⟩ := h_descends
    obtain ⟨h_new, h_less⟩ := h_next (by simpa using hbad)
    have h_queue := queued_append_le (P := P) s.queue q v
    have h_phases := phases_update (P := P) s.thread t (.running l')
    rw [hrun, phase_running, phase_running] at h_phases
    refine ⟨⟨Holds.update h_ok h_new, h_fit⟩, ?_⟩
    dsimp only [total]
    omega
  | @work l bs f hrun hop =>
    rw [hrun, Thread.loc_running, hop] at h_descends
    obtain ⟨h_fit', h_new, h_less⟩ := h_descends s.mem h_fit (by simpa using hbad)
    have h_phases := phases_update (P := P) s.thread t (.running (f s.mem).2)
    rw [hrun, phase_running, phase_running] at h_phases
    refine ⟨⟨Holds.update h_ok h_new, h_fit'⟩, ?_⟩
    dsimp only [total]
    omega
  -- from here on the program is left, and the toll pays for the report and the end markers
  | @leave l hrun hop =>
    have h_phases := phases_update (P := P) s.thread t (.counted l)
    have h_loc := h_ok t
    rw [hrun, phase_running, phase_counted] at h_phases
    rw [hrun] at h_loc
    refine ⟨⟨Holds.update h_ok h_loc, h_fit⟩, ?_⟩
    dsimp only [total]
    omega
  | @quit l hrun hop =>
    have h_phases := phases_update (P := P) s.thread t (.quit l)
    have h_loc := h_ok t
    rw [hrun, phase_running, phase_quit] at h_phases
    rw [hrun] at h_loc
    refine ⟨⟨Holds.update h_ok h_loc, h_fit⟩, ?_⟩
    dsimp only [total]
    omega
  | @last l hcnt hfin =>
    have h_phases := phases_update (P := P) s.thread t (.signalling l (M.par (t.1 + 1)))
    have h_loc := h_ok t
    rw [hcnt, phase_counted, phase_signalling, toll] at h_phases
    rw [hcnt] at h_loc
    refine ⟨⟨Holds.update h_ok h_loc, h_fit⟩, ?_⟩
    dsimp only [total]
    omega
  | @notLast l hcnt hfin =>
    have h_phases := phases_update (P := P) s.thread t (.returned l)
    have h_loc := h_ok t
    rw [hcnt, phase_counted, phase_returned] at h_phases
    rw [hcnt] at h_loc
    refine ⟨⟨Holds.update h_ok h_loc, h_fit⟩, ?_⟩
    dsimp only [total]
    omega
  | @signal l m hsig hroom =>
    have h_queue := queued_append_le (P := P) s.queue (t.1 + 1) marker
    have h_phases := phases_update (P := P) s.thread t (.signalling l m)
    have h_loc := h_ok t
    rw [hsig, phase_signalling, phase_signalling, Nat.succ_mul] at h_phases
    rw [hsig] at h_loc
    refine ⟨⟨Holds.update h_ok h_loc, h_fit⟩, ?_⟩
    dsimp only [total]
    omega
  | @done l hsig =>
    have h_phases := phases_update (P := P) s.thread t (.returned l)
    have h_loc := h_ok t
    rw [hsig, phase_signalling, phase_returned] at h_phases
    rw [hsig] at h_loc
    refine ⟨⟨Holds.update h_ok h_loc, h_fit⟩, ?_⟩
    dsimp only [total]
    omega

/-- **Run lemma.** A run has at most as many steps as the state it begins in costs. -/
theorem Holds.run (h : P.Holds s) {k : ℕ} (h_run : Run M bad s k s') :
    P.Holds s' ∧ k + P.total s' ≤ P.total s := by
  induction h_run with
  | refl => exact ⟨h, (Nat.zero_add _).le⟩
  | tail _ h_next ih =>
    obtain ⟨h_mid, h_le⟩ := ih
    obtain ⟨t, hstep, hbad⟩ := h_next
    obtain ⟨h_holds, h_lt⟩ := h_mid.step hstep hbad
    exact ⟨h_holds, by omega⟩

end Potential

end Pipeline
