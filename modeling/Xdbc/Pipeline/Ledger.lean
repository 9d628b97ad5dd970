import Xdbc.Pipeline.Signals

/-!
# Conservation laws

What a pipeline delivers is proved by double entry. A `Ledger` says what every item in a queue is
worth (`weight`), what a thread carries in its local state and in the buffers it holds (`carry`),
and what has reached the outside (`out`); the sum of all three is `Books.total`. Pushes into a
queue may enter goods (`debit`) or count as delivery (`credit`). The obligation `Books.Posts` is
about one operation of one thread: it moves worth and neither makes nor loses any.

A ledger rests on the custody of the buffers. A thread writes only buffers it holds (`Careful`), so
it cannot change the worth of a queued buffer or of what another thread carries; what a thread needs
to know of a buffer it pops (`valid`) is what the thread that pushed it established.

`Ledger.Balanced.step` is the step lemma, `Ledger.balanced` the run lemma. A law may assume that
the pushes of the run are `fine`: the run lemma speaks of runs whose history is fine.
-/

namespace Pipeline

open Function Finset

variable {n : ℕ} {L : Fin n → Type} {β σ A : Type}

/-- The values of a conservation law over a machine with the queues `0, …, m - 1`. -/
structure Books (M : Machine n L β σ) (A : Type) where
  /-- The number of queues the programs use. -/
  queues : ℕ
  /-- The worth of an item in a queue, given the contents of the buffer it names. -/
  weight : ℕ → ℤ → β → A
  /-- What is known of the buffer of an id in a queue. -/
  valid : ℕ → ℤ → β → Prop
  /-- The worth of what a thread holds. -/
  carry : (t : Tid n M.par) → L t.1 → (ℤ → β) → A
  /-- What is known of a thread and the buffers it holds. -/
  ok : (t : Tid n M.par) → L t.1 → (ℤ → β) → Prop
  /-- The worth of what has reached the outside. -/
  out : σ → A
  /-- What a push enters into the books. -/
  debit : Push β → A
  /-- What a push counts as delivered. -/
  credit : Push β → A
  /-- The pushes the law is about. -/
  fine : Push β → Prop
  /-- What holds of every buffer at all times. -/
  fit : β → Prop

namespace Books

variable {M : Machine n L β σ} [AddCancelCommMonoid A] (B : Books M A)

/-- The operation `op` of thread `t` in local state `l` moves worth without making or losing
any. -/
def Posts (bad : (t : Tid n M.par) → L t.1 → Prop) (t : Tid n M.par) (l : L t.1) :
    Op (L t.1) β σ → Prop
  | .pop q k => q < B.queues ∧ ∀ v p, (∀ b, B.fit (p b)) → B.ok t l p → (q = 0 → v ≠ marker) →
      (v ≠ marker → B.valid q v (p v)) → ¬ bad t (k v) →
      B.ok t (k v) p ∧ B.carry t (k v) p = B.carry t l p + B.weight q v (p v)
  | .push q v l' => q < B.queues ∧ ∀ p, (∀ b, B.fit (p b)) → B.ok t l p → B.fine ⟨q, v, p v⟩ → ¬ bad t l' →
      B.valid q v (p v) ∧ B.ok t l' p ∧
      B.carry t l p + B.debit ⟨q, v, p v⟩
        = B.carry t l' p + B.weight q v (p v) + B.credit ⟨q, v, p v⟩
  | .work _ f => ∀ m, (∀ b, B.fit (m.pool b)) → B.ok t l m.pool → ¬ bad t (f m).2 →
      (∀ b, B.fit ((f m).1.pool b)) ∧ B.ok t (f m).2 (f m).1.pool ∧
      B.carry t (f m).2 (f m).1.pool + B.out (f m).1.world
        = B.carry t l m.pool + B.out m.world
  | .leave => True
  | .quit => True

/-- The worth of a queue. -/
def queueWorth (pool : ℤ → β) (q : ℕ) (xs : List ℤ) : A :=
  (xs.map fun v => B.weight q v (pool v)).sum

/-- The worth of everything inside the pipeline and outside. -/
def total (queue : ℕ → List ℤ) (mem : Memory β σ)
    (thread : (t : Tid n M.par) → Thread (L t.1)) : A :=
  ∑ q ∈ range B.queues, B.queueWorth mem.pool q (queue q)
    + ∑ t, B.carry t (thread t).loc mem.pool + B.out mem.world

/-- What the pushes of a history enter. -/
def debits (log : List (Push β)) : A := (log.map B.debit).sum

/-- What the pushes of a history deliver. -/
def credits (log : List (Push β)) : A := (log.map B.credit).sum

@[simp] theorem debits_nil : B.debits [] = 0 := rfl
@[simp] theorem credits_nil : B.credits [] = 0 := rfl

theorem debits_cons (e : Push β) (log : List (Push β)) :
    B.debits (e :: log) = B.debit e + B.debits log := by
  simp [debits]

theorem credits_cons (e : Push β) (log : List (Push β)) :
    B.credits (e :: log) = B.credit e + B.credits log := by
  simp [credits]

@[simp] theorem queueWorth_nil (pool : ℤ → β) (q : ℕ) : B.queueWorth pool q [] = 0 := rfl

theorem queueWorth_cons (pool : ℤ → β) (q : ℕ) (v : ℤ) (xs : List ℤ) :
    B.queueWorth pool q (v :: xs) = B.weight q v (pool v) + B.queueWorth pool q xs := by
  simp [queueWorth]

theorem queueWorth_append (pool : ℤ → β) (q : ℕ) (v : ℤ) (xs : List ℤ) :
    B.queueWorth pool q (xs ++ [v]) = B.queueWorth pool q xs + B.weight q v (pool v) := by
  simp [queueWorth]

section Update

variable (queue : ℕ → List ℤ) (mem : Memory β σ) (thread : (t : Tid n M.par) → Thread (L t.1))
  (t : Tid n M.par) (th : Thread (L t.1))

theorem total_update_thread :
    B.total queue mem (update thread t th) + B.carry t (thread t).loc mem.pool
      = B.total queue mem thread + B.carry t th.loc mem.pool := by
  have h := sum_update_add (fun t (th : Thread (L t.1)) => B.carry t th.loc mem.pool) thread
    (mem_univ t) th
  simp only [total]
  rw [add_right_comm, add_assoc (∑ q ∈ range B.queues, _), h, ← add_assoc, add_right_comm]

theorem total_update_queue {q : ℕ} (hq : q < B.queues) (xs : List ℤ) :
    B.total (update queue q xs) mem thread + B.queueWorth mem.pool q (queue q)
      = B.total queue mem thread + B.queueWorth mem.pool q xs := by
  have h := sum_update_add (fun q xs => B.queueWorth mem.pool q xs) queue (mem_range.mpr hq) xs
  simp only [total]
  calc _ = ∑ q' ∈ range B.queues, B.queueWorth mem.pool q' (update queue q xs q')
          + B.queueWorth mem.pool q (queue q)
          + (∑ t, B.carry t (thread t).loc mem.pool + B.out mem.world) := by abel
    _ = _ := by rw [h]; abel

end Update

end Books

/-- A conservation law: values for everything, and programs that post every movement. -/
structure Ledger {M : Machine n L β σ} {bad : (t : Tid n M.par) → L t.1 → Prop}
    (C : Custody M bad) (A : Type) [AddCancelCommMonoid A] extends Books M A where
  weight_marker : ∀ q c, weight q marker c = 0
  debit_marker : ∀ q c, debit ⟨q, marker, c⟩ = 0
  credit_marker : ∀ q c, credit ⟨q, marker, c⟩ = 0
  /-- A private queue names no buffers. -/
  weight_private : ∀ q v c c', n ≤ q → weight q v c = weight q v c'
  valid_private : ∀ q v c c', n ≤ q → valid q v c → valid q v c'
  /-- What a thread carries depends only on the buffers it holds. -/
  carry_congr : ∀ t l p p', C.wf t l → (∀ b ∈ C.held t.1 l, p b = p' b) → carry t l p = carry t l p'
  ok_congr : ∀ t l p p', C.wf t l → (∀ b ∈ C.held t.1 l, p b = p' b) → ok t l p → ok t l p'
  careful : ∀ t l, C.wf t l → Careful (C.held t.1) l (M.prog t l)
  /-- The ids a thread holds are distinct. -/
  posts : ∀ t l, C.wf t l → (C.held t.1 l).Nodup → toBooks.Posts bad t l (M.prog t l)

namespace Ledger

variable {M : Machine n L β σ} {bad : (t : Tid n M.par) → L t.1 → Prop} {C : Custody M bad}
  [AddCancelCommMonoid A] (B : Ledger C A)

/-- The invariant: what is known of threads and queued buffers holds, and the books balance. -/
structure Balanced (start : A) (s : State M) : Prop where
  fit : ∀ b, B.fit (s.mem.pool b)
  ok : ∀ t, B.ok t (s.thread t).loc s.mem.pool
  valid : ∀ q v, v ∈ s.queue q → v ≠ marker → B.valid q v (s.mem.pool v)
  total : B.total s.queue s.mem s.thread + B.credits s.log = start + B.debits s.log

variable {B}

private theorem ok_update {thread : (t : Tid n M.par) → Thread (L t.1)} {p : ℤ → β}
    {t : Tid n M.par} {th : Thread (L t.1)} (h : ∀ t, B.ok t (thread t).loc p)
    (h_new : B.ok t th.loc p) : ∀ t', B.ok t' (update thread t th t').loc p := by
  intro t'
  by_cases h_eq : t' = t
  · subst h_eq; rwa [update_self]
  · rw [update_of_ne h_eq]; exact h t'

private theorem valid_update {queue : ℕ → List ℤ} {p : ℤ → β} {q : ℕ} {xs : List ℤ}
    (h : ∀ q v, v ∈ queue q → v ≠ marker → B.valid q v (p v))
    (h_new : ∀ v ∈ xs, v ≠ marker → B.valid q v (p v)) :
    ∀ q' v, v ∈ update queue q xs q' → v ≠ marker → B.valid q' v (p v) := by
  intro q' v
  by_cases h_eq : q' = q
  · subst h_eq; rw [update_self]; exact h_new v
  · rw [update_of_ne h_eq]; exact h q' v

/-- A thread that changes its phase only keeps the books. -/
private theorem Balanced.phase {start : A} {s : State M} (hB : B.Balanced start s)
    {t : Tid n M.par} {th : Thread (L t.1)} (h_loc : th.loc = (s.thread t).loc) (fin : ℕ → ℕ) :
    B.Balanced start { s with finished := fin, thread := update s.thread t th } where
  fit := hB.fit
  ok := ok_update hB.ok (by rw [h_loc]; exact hB.ok t)
  valid := hB.valid
  total := by
    have h := B.total_update_thread s.queue s.mem s.thread t th
    rw [h_loc] at h
    rw [← hB.total]
    exact congrArg (· + B.credits s.log) (add_right_cancel h)

/-- The buffers named in the queues of the pipeline are out of reach of a careful thread. -/
private theorem frame_queue {pool : Multiset ℤ} {s : State M} (hK : C.Kept pool s)
    (hnd : pool.Nodup) {t : Tid n M.par} {l : L t.1} (hrun : s.thread t = .running l)
    {bs : List ℤ} (h_held : ∀ b ∈ bs, b ∈ C.held t.1 l) {q : ℕ} (hq : q < n) {v : ℤ}
    (hv : v ∈ s.queue q) (hm : v ≠ marker) : v ∉ bs := by
  intro hb
  refine hK.notMem_queue hnd (t := t) (b := v) ?_ hq (mem_ids.mpr ⟨hv, hm⟩)
  rw [hrun]
  exact h_held v hb

/-- **Step lemma.** A step of a careful program that posts its movements keeps the books balanced,
if what it pushes is fine. -/
theorem Balanced.step {pool : Multiset ℤ} {start : A} {s s' : State M} {t : Tid n M.par}
    (hK : C.Kept pool s) (hnd : pool.Nodup) (hB : B.Balanced start s) (hstep : Step M s t s')
    (hbad : ¬ bad t (s'.thread t).loc) (h_fine : ∀ e ∈ s'.log, B.fine e) :
    B.Balanced start s' := by
  have h_wf := hK.wf t
  have h_ok := hB.ok t
  have h_posts := B.posts t _ h_wf (Multiset.nodup_of_le (hK.held_le t) hnd)
  cases hstep with
  | @pop l q k v rest hrun hop hq =>
    -- the value of the item moves from the queue to the thread
    simp only [update_self, Thread.loc_running] at hbad
    rw [hrun, Thread.loc_running] at h_ok h_posts
    rw [hop] at h_posts
    obtain ⟨hlt, h_posts⟩ := h_posts
    have h_head : v ∈ s.queue q := by rw [hq]; exact List.mem_cons_self
    have h_free : q = 0 → v ≠ marker := by
      rintro rfl rfl
      exact hK.free h_head
    obtain ⟨h_new, h_carry⟩ := h_posts v s.mem.pool hB.fit h_ok h_free
      (fun hv => hB.valid q v h_head hv) hbad
    refine ⟨hB.fit, ok_update hB.ok h_new, valid_update hB.valid fun u hu => ?_, ?_⟩
    · exact hB.valid q u (by rw [hq]; exact List.mem_cons_of_mem _ hu)
    · rw [← hB.total]
      refine congrArg (· + B.credits s.log) ?_
      have h_thread := B.total_update_thread (update s.queue q rest) s.mem s.thread t
        (.running (k v))
      have h_queue := B.total_update_queue s.queue s.mem s.thread hlt rest
      rw [hrun, Thread.loc_running, Thread.loc_running, h_carry, ← add_assoc,
        add_right_comm] at h_thread
      rw [hq, B.queueWorth_cons, ← add_assoc] at h_queue
      exact (add_right_cancel h_thread).trans (add_right_cancel h_queue)
  | @push l q v l' hrun hop hroom =>
    -- the thread gives up what the item is worth, and the new entry of the history is booked
    simp only [update_self, Thread.loc_running] at hbad
    rw [hrun, Thread.loc_running] at h_ok h_posts
    rw [hop] at h_posts
    obtain ⟨hlt, h_posts⟩ := h_posts
    obtain ⟨h_valid, h_new, h_carry⟩ := h_posts s.mem.pool hB.fit h_ok (h_fine _ List.mem_cons_self) hbad
    refine ⟨hB.fit, ok_update hB.ok h_new, valid_update hB.valid fun u hu hm => ?_, ?_⟩
    · rcases List.mem_append.mp hu with hu | hu
      · exact hB.valid q u hu hm
      · rw [List.mem_singleton] at hu; subst hu; exact h_valid
    · -- the credit of the entry stands on the one side, its debit on the other
      change B.total (update s.queue q (s.queue q ++ [v])) s.mem
        (update s.thread t (.running l')) + B.credits (_ :: s.log) = start + B.debits (_ :: s.log)
      have h_thread := B.total_update_thread (update s.queue q (s.queue q ++ [v])) s.mem s.thread t
        (.running l')
      have h_queue := B.total_update_queue s.queue s.mem s.thread hlt (s.queue q ++ [v])
      rw [hrun, Thread.loc_running, Thread.loc_running] at h_thread
      rw [B.queueWorth_append, add_comm (B.queueWorth _ _ _), ← add_assoc] at h_queue
      have h_queue := add_right_cancel h_queue
      rw [h_queue] at h_thread
      rw [B.credits_cons, B.debits_cons]
      refine add_right_cancel (b := B.carry t l s.mem.pool) ?_
      calc _ = (B.total (update s.queue q (s.queue q ++ [v])) s.mem
              (update s.thread t (.running l')) + B.carry t l s.mem.pool)
              + B.credit ⟨q, v, s.mem.pool v⟩ + B.credits s.log := by abel
        _ = (B.total s.queue s.mem s.thread + B.credits s.log)
              + (B.carry t l' s.mem.pool + B.weight q v (s.mem.pool v)
                + B.credit ⟨q, v, s.mem.pool v⟩) := by rw [h_thread]; abel
        _ = _ := by rw [hB.total, ← h_carry]; abel
  | @work l bs f hrun hop =>
    simp only [update_self, Thread.loc_running] at hbad
    rw [hrun, Thread.loc_running] at h_wf h_ok h_posts
    rw [hop] at h_posts
    have h_careful := B.careful t l h_wf
    rw [hop] at h_careful
    obtain ⟨h_held, h_frame, -⟩ := h_careful
    obtain ⟨h_fit, h_new, h_carry⟩ := h_posts s.mem hB.fit h_ok hbad
    -- another thread holds none of the buffers written
    have h_other : ∀ u, u ≠ t → ∀ b ∈ C.held u.1 (s.thread u).loc,
        s.mem.pool b = (f s.mem).1.pool b := by
      intro u hu b hb
      refine (h_frame s.mem b fun hbs => ?_).symm
      refine hK.held_disjoint hnd hu hb ?_
      rw [hrun]
      exact h_held b hbs
    -- nor is one of them queued, so the queues are worth what they were
    have h_queue : ∀ q, B.queueWorth (f s.mem).1.pool q (s.queue q)
        = B.queueWorth s.mem.pool q (s.queue q) := by
      intro q
      refine congrArg List.sum (List.map_congr_left fun v hv => ?_)
      by_cases hm : v = marker
      · subst hm; rw [B.weight_marker, B.weight_marker]
      · rcases Nat.lt_or_ge q n with hlt | hge
        · rw [h_frame s.mem v (frame_queue hK hnd hrun h_held hlt hv hm)]
        · exact B.weight_private q v _ _ hge
    refine ⟨h_fit, fun u => ?_, fun q v hv hm => ?_, ?_⟩
    · by_cases hu : u = t
      · subst hu
        change B.ok u (update s.thread u _ u).loc _
        rw [update_self]
        exact h_new
      · change B.ok u (update s.thread t _ u).loc _
        rw [update_of_ne hu]
        exact B.ok_congr u _ _ _ (hK.wf u) (h_other u hu) (hB.ok u)
    · -- an item is still valid, for its contents are the same
      rcases Nat.lt_or_ge q n with hlt | hge
      · change B.valid q v ((f s.mem).1.pool v)
        rw [h_frame s.mem v (frame_queue hK hnd hrun h_held hlt hv hm)]
        exact hB.valid q v hv hm
      · exact B.valid_private q v _ _ hge (hB.valid q v hv hm)
    · -- only the thread itself and what is already out change in value
      rw [← hB.total]
      refine congrArg (· + B.credits s.log) ?_
      change B.total s.queue (f s.mem).1 (update s.thread t (.running (f s.mem).2))
        = B.total s.queue s.mem s.thread
      have h_sum := sum_update_add
        (fun u (th : Thread (L u.1)) => B.carry u th.loc (f s.mem).1.pool) s.thread (mem_univ t)
        (.running (f s.mem).2)
      rw [hrun, Thread.loc_running, Thread.loc_running] at h_sum
      have h_rest : ∑ u, B.carry u (s.thread u).loc (f s.mem).1.pool + B.carry t l s.mem.pool
          = ∑ u, B.carry u (s.thread u).loc s.mem.pool + B.carry t l (f s.mem).1.pool := by
        have h_erase : ∑ u ∈ univ.erase t, B.carry u (s.thread u).loc (f s.mem).1.pool
            = ∑ u ∈ univ.erase t, B.carry u (s.thread u).loc s.mem.pool :=
          sum_congr rfl fun u hu => (B.carry_congr u _ _ _ (hK.wf u)
            (h_other u (ne_of_mem_erase hu))).symm
        rw [← sum_erase_add _ _ (mem_univ t), ← sum_erase_add univ
          (fun u => B.carry u (s.thread u).loc s.mem.pool) (mem_univ t), h_erase, hrun,
          Thread.loc_running]
        exact add_right_comm _ _ _
      simp only [Books.total]
      rw [sum_congr rfl fun q _ => h_queue q]
      refine add_right_cancel (b := B.carry t l (f s.mem).1.pool + B.carry t l s.mem.pool) ?_
      calc _ = ∑ q ∈ range B.queues, B.queueWorth s.mem.pool q (s.queue q)
              + (∑ u, B.carry u (update s.thread t (.running (f s.mem).2) u).loc
                  (f s.mem).1.pool + B.carry t l (f s.mem).1.pool)
              + B.carry t l s.mem.pool + B.out (f s.mem).1.world := by abel
        _ = ∑ q ∈ range B.queues, B.queueWorth s.mem.pool q (s.queue q)
              + (∑ u, B.carry u (s.thread u).loc (f s.mem).1.pool + B.carry t l s.mem.pool)
              + (B.carry t (f s.mem).2 (f s.mem).1.pool + B.out (f s.mem).1.world) := by
          rw [h_sum]; abel
        _ = _ := by rw [h_rest, h_carry]; abel
  | leave hrun hop => exact hB.phase (by rw [hrun]; rfl) _
  | quit hrun hop => exact hB.phase (by rw [hrun]; rfl) s.finished
  | last hcnt hfin => exact hB.phase (by rw [hcnt]; rfl) s.finished
  | notLast hcnt hfin => exact hB.phase (by rw [hcnt]; rfl) s.finished
  | @signal l m hsig hroom =>
    -- a marker is worth nothing, so only the thread changes
    have h_phase : B.Balanced start { s with
        finished := s.finished, thread := update s.thread t (.signalling l m) } :=
      hB.phase (by rw [hsig]; rfl) s.finished
    refine ⟨hB.fit, h_phase.ok, valid_update hB.valid fun u hu hm => ?_, ?_⟩
    · rcases List.mem_append.mp hu with hu | hu
      · exact hB.valid _ u hu hm
      · exact absurd (List.mem_singleton.mp hu) hm
    · change B.total (update s.queue (t.1 + 1) (s.queue (t.1 + 1) ++ [marker])) s.mem
        (update s.thread t (.signalling l m)) + B.credits (_ :: s.log)
          = start + B.debits (_ :: s.log)
      rw [B.credits_cons, B.debits_cons, B.credit_marker, B.debit_marker, zero_add, zero_add,
        ← h_phase.total]
      refine congrArg (· + B.credits s.log) ?_
      -- behind the last stage there is no queue to put the marker in
      by_cases hlt : (t.1 : ℕ) + 1 < B.queues
      · have h_queue := B.total_update_queue s.queue s.mem (update s.thread t (.signalling l m)) hlt
          (s.queue (t.1 + 1) ++ [marker])
        rw [B.queueWorth_append, B.weight_marker, add_zero] at h_queue
        exact add_right_cancel h_queue
      · simp only [Books.total]
        rw [sum_update_of_notMem (fun q xs => B.queueWorth s.mem.pool q xs) s.queue
          (by simpa using hlt)]
  | done hsig => exact hB.phase (by rw [hsig]; rfl) s.finished

/-- The history of a step extends the one before it. -/
private theorem log_subset {s s' : State M} {t : Tid n M.par} (hstep : Step M s t s') :
    ∀ e ∈ s.log, e ∈ s'.log := by
  intro e he
  cases hstep with
  | push hrun hop hroom => exact List.mem_cons_of_mem _ he
  | signal hsig hroom => exact List.mem_cons_of_mem _ he
  | pop hrun hop hq => exact he
  | work hrun hop => exact he
  | leave hrun hop => exact he
  | quit hrun hop => exact he
  | last hcnt hfin => exact he
  | notLast hcnt hfin => exact he
  | done hsig => exact he

/-- **Run lemma.** In every state of a run that avoids `bad` and whose pushes are fine, the books
balance. -/
theorem balanced {pool : Multiset ℤ} {start : A} {s s' : State M} (h : Reachable M bad s s')
    (h_kept : C.Kept pool s) (hnd : pool.Nodup) (h_start : B.Balanced start s)
    (h_fine : ∀ e ∈ s'.log, B.fine e) : B.Balanced start s' := by
  have h_inv := h.invariant
    (I := fun s => C.Kept pool s ∧ ((∀ e ∈ s.log, B.fine e) → B.Balanced start s))
    ⟨h_kept, fun _ => h_start⟩ fun s t s' hI hstep hbad => ⟨hI.1.step C hstep hbad, fun h_all =>
      (hI.2 fun e he => h_all e (log_subset hstep e he)).step hI.1 hnd hstep hbad h_all⟩
  exact h_inv.2 h_fine

/-- A step pushes only what is valid. -/
theorem Balanced.logged_step {pool : Multiset ℤ} {start : A} {s s' : State M} {t : Tid n M.par}
    (hK : C.Kept pool s) (hnd : pool.Nodup) (hB : B.Balanced start s) (hstep : Step M s t s')
    (hbad : ¬ bad t (s'.thread t).loc) (h_fine : ∀ e ∈ s'.log, B.fine e)
    (h_log : ∀ e ∈ s.log, e.item ≠ marker → B.valid e.queue e.item e.content) :
    ∀ e ∈ s'.log, e.item ≠ marker → B.valid e.queue e.item e.content := by
  cases hstep with
  | @push l q v l' hrun hop hroom =>
    have h_ok := hB.ok t
    have h_posts := B.posts t _ (hK.wf t) (Multiset.nodup_of_le (hK.held_le t) hnd)
    rw [hrun, Thread.loc_running] at h_ok h_posts
    rw [hop] at h_posts
    simp only [update_self, Thread.loc_running] at hbad
    have h_valid := (h_posts.2 s.mem.pool hB.fit h_ok (h_fine _ List.mem_cons_self) hbad).1
    exact List.forall_mem_cons.mpr ⟨fun _ => h_valid, h_log⟩
  -- the other entries of the log are markers
  | signal hsig hroom => exact List.forall_mem_cons.mpr ⟨fun h => absurd rfl h, h_log⟩
  | pop hrun hop hq => exact h_log
  | work hrun hop => exact h_log
  | leave hrun hop => exact h_log
  | quit hrun hop => exact h_log
  | last hcnt hfin => exact h_log
  | notLast hcnt hfin => exact h_log
  | done hsig => exact h_log

/-- A run that starts with an empty history pushes only what is valid. -/
theorem logged {pool : Multiset ℤ} {start : A} {s s' : State M} (h : Reachable M bad s s')
    (h_kept : C.Kept pool s) (hnd : pool.Nodup) (h_start : B.Balanced start s) (h_nil : s.log = [])
    (h_fine : ∀ e, B.fine e) :
    ∀ e ∈ s'.log, e.item ≠ marker → B.valid e.queue e.item e.content := by
  have h_inv := h.invariant
    (I := fun s => (C.Kept pool s ∧ B.Balanced start s) ∧
      ∀ e ∈ s.log, e.item ≠ marker → B.valid e.queue e.item e.content)
    ⟨⟨h_kept, h_start⟩, by simp [h_nil]⟩ fun s t s' hI hstep hbad =>
      ⟨⟨hI.1.1.step C hstep hbad, hI.1.2.step hI.1.1 hnd hstep hbad fun e _ => h_fine e⟩,
        hI.1.2.logged_step hI.1.1 hnd hstep hbad (fun e _ => h_fine e) hI.2⟩
  exact h_inv.2

end Ledger

end Pipeline
