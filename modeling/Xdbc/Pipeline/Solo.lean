import Xdbc.Pipeline.Custody

/-!
# One thread's view of a run

What one thread does depends on the rest of the pipeline only through the ids it pops and the
contents of their buffers: the buffers it holds are its own. `Solo` is the run of a single program
against an environment that answers its pops and does what it likes with all other buffers; the
`Event`s of such a run are its pops and pushes, with the contents of the buffers at that time.

A law about the events of one thread is proved by induction on `Solo`, in which no other thread
appears. `exists_solo` carries it to the pipeline: in every run, every thread that keeps custody of
its buffers makes a solo run, and its pushes stand in the history of the run in their order.
-/

namespace Pipeline

open Function

variable {n : ℕ} {L : Fin n → Type} {β σ : Type}

/-- What a thread does to a queue, with the contents of the buffer at that time. -/
inductive Event (β : Type) : Type where
  | popped (queue : ℕ) (item : ℤ) (content : β)
  | pushed (e : Push β)

namespace Event

/-- The contents of the buffer, if one is popped from queue `q`. -/
def contentPopped (q : ℕ) : Event β → Option β
  | popped q' v c => if q' = q ∧ v ≠ marker then some c else none
  | pushed _ => none

/-- The contents of the buffer, if one is pushed to queue `q`. -/
def contentPushed (q : ℕ) : Event β → Option β
  | popped _ _ _ => none
  | pushed e => if e.queue = q then some e.content else none

/-- The push, if it is one. -/
def push : Event β → Option (Push β)
  | popped _ _ _ => none
  | pushed e => some e

/-- The contents of the buffers popped from queue `q`, in order. -/
def inputs (q : ℕ) (es : List (Event β)) : List β := es.filterMap (contentPopped q)

/-- The contents of the buffers pushed to queue `q`, in order. -/
def outputs (q : ℕ) (es : List (Event β)) : List β := es.filterMap (contentPushed q)

variable {q q' : ℕ} {es : List (Event β)} {v : ℤ} {c : β}

@[simp] theorem inputs_nil : inputs q ([] : List (Event β)) = [] := rfl

@[simp] theorem outputs_nil : outputs q ([] : List (Event β)) = [] := rfl

theorem inputs_popped (hv : v ≠ marker) : inputs q (es ++ [.popped q v c]) = inputs q es ++ [c] := by
  simp [inputs, contentPopped, hv]

@[simp] theorem inputs_popped_marker : inputs q (es ++ [.popped q' marker c]) = inputs q es := by
  simp [inputs, contentPopped]

theorem inputs_popped_of_ne (h : q' ≠ q) : inputs q (es ++ [.popped q' v c]) = inputs q es := by
  simp [inputs, contentPopped, h]

@[simp] theorem inputs_pushed {e : Push β} : inputs q (es ++ [.pushed e]) = inputs q es := by
  simp [inputs, contentPopped]

theorem outputs_pushed : outputs q (es ++ [.pushed ⟨q, v, c⟩]) = outputs q es ++ [c] := by
  simp [outputs, contentPushed]

theorem outputs_pushed_of_ne (h : q' ≠ q) :
    outputs q (es ++ [.pushed ⟨q', v, c⟩]) = outputs q es := by
  simp [outputs, contentPushed, h]

@[simp] theorem outputs_popped : outputs q (es ++ [.popped q' v c]) = outputs q es := by
  simp [outputs, contentPushed]

end Event

/-- The runs of a single program: the events, the local state and the memory reached. Between two
operations the environment leaves the buffers in hand alone. -/
inductive Solo (n : ℕ) {L₀ : Type} (held : L₀ → Multiset ℤ) (prog : L₀ → Op L₀ β σ)
    (bad : L₀ → Prop) (l₀ : L₀) (m₀ : Memory β σ) : List (Event β) → L₀ → Memory β σ → Prop where
  | start : Solo n held prog bad l₀ m₀ [] l₀ m₀
  | others {es : List (Event β)} {l : L₀} {m m' : Memory β σ}
      (h : Solo n held prog bad l₀ m₀ es l m) (h_own : ∀ b ∈ held l, m'.pool b = m.pool b) :
      Solo n held prog bad l₀ m₀ es l m'
  | pop {es : List (Event β)} {l : L₀} {m : Memory β σ} {q : ℕ} {k : ℤ → L₀} {v : ℤ}
      (h : Solo n held prog bad l₀ m₀ es l m) (hop : prog l = .pop q k)
      (h_free : q = 0 → v ≠ marker) (h_new : q < n → v ≠ marker → v ∉ held l) (h_good : ¬ bad (k v)) :
      Solo n held prog bad l₀ m₀ (es ++ [.popped q v (m.pool v)]) (k v) m
  | push {es : List (Event β)} {l : L₀} {m : Memory β σ} {q : ℕ} {v : ℤ} {l' : L₀}
      (h : Solo n held prog bad l₀ m₀ es l m) (hop : prog l = .push q v l') (h_good : ¬ bad l') :
      Solo n held prog bad l₀ m₀ (es ++ [.pushed ⟨q, v, m.pool v⟩]) l' m
  | work {es : List (Event β)} {l : L₀} {m : Memory β σ} {bs : List ℤ}
      {f : Memory β σ → Memory β σ × L₀}
      (h : Solo n held prog bad l₀ m₀ es l m) (hop : prog l = .work bs f) (h_good : ¬ bad (f m).2) :
      Solo n held prog bad l₀ m₀ es (f m).2 (f m).1

/-- An honest program holds distinct buffers. -/
theorem Solo.sound {L₀ : Type} {held : L₀ → Multiset ℤ} {prog : L₀ → Op L₀ β σ}
    {wf bad : L₀ → Prop} {l₀ l : L₀} {m₀ m : Memory β σ} {es : List (Event β)}
    (h_honest : ∀ l, wf l → Honest n held wf bad l (prog l)) (h_wf : wf l₀)
    (h_nodup : (held l₀).Nodup) (h : Solo n held prog bad l₀ m₀ es l m) :
    wf l ∧ (held l).Nodup := by
  induction h with
  | start => exact ⟨h_wf, h_nodup⟩
  | others _ _ ih => exact ih
  | @pop es l m q k v _ hop h_free h_new h_good ih =>
    have h_op := h_honest l ih.1
    rw [hop] at h_op
    obtain ⟨h_id, h_marker, h_private⟩ := h_op
    -- a queue of the pipeline, where a buffer or the marker comes out, or a private one
    rcases Nat.lt_or_ge q n with hq | hq
    · by_cases hv : v = marker
      · subst hv
        have h_pos : 0 < q := Nat.pos_of_ne_zero fun h => h_free h rfl
        obtain ⟨h_wf', h_held⟩ := h_marker h_pos hq h_good
        exact ⟨h_wf', h_held ▸ ih.2⟩
      · obtain ⟨h_wf', h_held⟩ := h_id v hq hv h_good
        exact ⟨h_wf', h_held ▸ Multiset.nodup_cons.mpr ⟨h_new hq hv, ih.2⟩⟩
    · obtain ⟨h_wf', h_held⟩ := h_private v hq h_good
      exact ⟨h_wf', h_held ▸ ih.2⟩
  | @push es l m q v l' _ hop h_good ih =>
    have h_op := h_honest l ih.1
    rw [hop] at h_op
    obtain ⟨h_wf', h_held⟩ := h_op.2.2 h_good
    exact ⟨h_wf', (Multiset.nodup_cons.mp (h_held ▸ ih.2)).2⟩
  | @work es l m bs f _ hop h_good ih =>
    have h_op := h_honest l ih.1
    rw [hop] at h_op
    obtain ⟨h_wf', h_held⟩ := h_op m h_good
    exact ⟨h_wf', h_held ▸ ih.2⟩

/-- What every operation leads to holds wherever a run gets. -/
theorem Solo.leads {L₀ : Type} {held : L₀ → Multiset ℤ} {prog : L₀ → Op L₀ β σ}
    {inv bad : L₀ → Prop} {l₀ l : L₀} {m₀ m : Memory β σ} {es : List (Event β)}
    (h_leads : ∀ l, inv l → (prog l).Leads inv) (h_inv : inv l₀)
    (h : Solo n held prog bad l₀ m₀ es l m) : inv l := by
  induction h with
  | start => exact h_inv
  | others _ _ ih => exact ih
  | @pop es l m q k v _ hop _ _ _ ih =>
    have h_next := h_leads l ih
    rw [hop] at h_next
    exact h_next v
  | @push es l m q v l' _ hop _ ih =>
    have h_next := h_leads l ih
    rwa [hop] at h_next
  | @work es l m bs f _ hop _ ih =>
    have h_next := h_leads l ih
    rw [hop] at h_next
    exact h_next m

/-! ### Running a single program -/

section Replay

variable {L₀ : Type} (n : ℕ) (held : L₀ → Multiset ℤ) (prog : L₀ → Op L₀ β σ) (bad : L₀ → Prop)
  [DecidablePred bad]

/-- Run the program for `fuel` operations with the ids `vs` for its pops, as far as they go; `none`
if an id cannot be popped or the run goes wrong. -/
def replay : ℕ → List ℤ → List (Event β) → L₀ → Memory β σ →
    Option (List (Event β) × L₀ × Memory β σ)
  | 0, _, es, l, m => some (es, l, m)
  | fuel + 1, vs, es, l, m =>
    match prog l with
    | .pop q k =>
      match vs with
      | [] => some (es, l, m)
      | v :: vs =>
        if (q = 0 → v ≠ marker) ∧ (q < n → v ≠ marker → v ∉ held l) ∧ ¬ bad (k v) then
          replay fuel vs (es ++ [.popped q v (m.pool v)]) (k v) m
        else none
    | .push q v l' =>
      if bad l' then none else replay fuel vs (es ++ [.pushed ⟨q, v, m.pool v⟩]) l' m
    | .work _ f => if bad (f m).2 then none else replay fuel vs es (f m).2 (f m).1
    | .leave => some (es, l, m)
    | .quit => some (es, l, m)

variable {n held prog bad} {l₀ l : L₀} {m₀ m : Memory β σ} {es : List (Event β)}

/-- What is replayed is a solo run. -/
theorem replay_sound {fuel : ℕ} {vs : List ℤ} {r : List (Event β) × L₀ × Memory β σ}
    (h : Solo n held prog bad l₀ m₀ es l m) (h_run : replay n held prog bad fuel vs es l m = some r) :
    Solo n held prog bad l₀ m₀ r.1 r.2.1 r.2.2 := by
  induction fuel generalizing vs es l m with
  | zero => cases h_run; exact h
  | succ fuel ih =>
    simp only [replay] at h_run
    split at h_run
    · next q k hop =>
      split at h_run
      · cases h_run; exact h
      · next v vs =>
        split at h_run
        · next h_ok => exact ih (h.pop hop h_ok.1 h_ok.2.1 h_ok.2.2) h_run
        · cases h_run
    · next q v l' hop =>
      split at h_run
      · cases h_run
      · next h_good => exact ih (h.push hop h_good) h_run
    · next bs f hop =>
      split at h_run
      · cases h_run
      · next h_good => exact ih (h.work hop h_good) h_run
    · cases h_run; exact h
    · cases h_run; exact h

variable (n held prog bad l₀ m₀) in
/-- A replayed run that ends in a state satisfying a decidable test yields a solo run that satisfies
it. -/
theorem exists_solo_of_replay (fuel : ℕ) (vs : List ℤ)
    (p : List (Event β) → L₀ → Memory β σ → Prop) [∀ es l m, Decidable (p es l m)]
    (h : ((replay n held prog bad fuel vs [] l₀ m₀).any fun r => decide (p r.1 r.2.1 r.2.2)) = true) :
    ∃ es l m, Solo n held prog bad l₀ m₀ es l m ∧ p es l m := by
  rw [Option.any_eq_true] at h
  obtain ⟨r, h_run, h_test⟩ := h
  exact ⟨r.1, r.2.1, r.2.2, replay_sound .start h_run, of_decide_eq_true h_test⟩

end Replay

/-! ### Termination -/

/-- The operation lowers the rank, unless it pops from a queue that `waits`: between two such pops
the program makes at most as many operations as the rank it starts from. -/
def Lowers {L₀ : Type} (waits : ℕ → Prop) (rank : (ℤ → β) → L₀ → ℕ) (l : L₀) (m : Memory β σ) :
    Op L₀ β σ → Prop
  | .pop q k => waits q ∨ ∀ v, rank m.pool (k v) < rank m.pool l
  | .push _ _ l' => rank m.pool l' < rank m.pool l
  | .work _ f => rank (f m).1.pool (f m).2 < rank m.pool l
  | .leave => True
  | .quit => True

/-- The program leaves its loop, or returns. -/
def Op.Stops {L₀ : Type} : Op L₀ β σ → Prop
  | .leave => True
  | .quit => True
  | _ => False

/-- The operation is the last one, or may wait without end. -/
def Op.Pauses {L₀ : Type} (waits : ℕ → Prop) : Op L₀ β σ → Prop
  | .pop q _ => waits q
  | .leave => True
  | .quit => True
  | _ => False

/-- **A program with a rank pauses.** Every run can be continued until the program stops or pops
from a queue that `waits`, with buffers that hold `c` for all its other pops. -/
theorem Solo.exists_pause {L₀ : Type} {held : L₀ → Multiset ℤ} {prog : L₀ → Op L₀ β σ} {l₀ l : L₀}
    {m₀ m : Memory β σ} {es : List (Event β)} {waits : ℕ → Prop} {rank : (ℤ → β) → L₀ → ℕ}
    (h_lowers : ∀ l m, Lowers waits rank l m (prog l))
    (h_rank : ∀ l p p', (∀ b ∈ held l, p' b = p b) → rank p' l = rank p l) (c : β)
    (h : Solo n held prog (fun _ => False) l₀ m₀ es l m) :
    ∃ es' l' m', Solo n held prog (fun _ => False) l₀ m₀ (es ++ es') l' m' ∧
      (prog l').Pauses waits ∧ ∀ q v x, Event.popped q v x ∈ es' → ¬ waits q ∧ x = c := by
  induction h_eq : rank m.pool l using Nat.strong_induction_on generalizing es l m with
  | _ k ih =>
  have h_op := h_lowers l m
  cases hop : prog l with
  | leave => exact ⟨[], l, m, by rwa [List.append_nil], by rw [hop]; trivial, by simp⟩
  | quit => exact ⟨[], l, m, by rwa [List.append_nil], by rw [hop]; trivial, by simp⟩
  | work bs f =>
    rw [hop] at h_op
    exact ih _ (h_eq ▸ h_op) (h.work hop id) rfl
  | push q v l' =>
    rw [hop] at h_op
    obtain ⟨es', l₁, m₁, h_run, h_pause, h_pops⟩ := ih _ (h_eq ▸ h_op) (h.push hop id) rfl
    rw [List.append_assoc] at h_run
    exact ⟨_, l₁, m₁, h_run, h_pause, fun q v x h_mem => h_pops q v x (by simpa using h_mem)⟩
  | pop q k =>
    by_cases hq : waits q
    · exact ⟨[], l, m, by rwa [List.append_nil], by rw [hop]; exact hq, by simp⟩
    · -- the environment returns a buffer that is not in hand
      obtain ⟨v, hv⟩ := Infinite.exists_notMem_finset (insert marker (held l).toFinset)
      rw [Finset.mem_insert, Multiset.mem_toFinset, not_or] at hv
      have h_own : ∀ b ∈ held l, (m.write v c).pool b = m.pool b := fun b hb =>
        m.write_pool_of_ne (show b ≠ v from fun h_same => hv.2 (h_same ▸ hb)) c
      have h_less := h_lowers l (m.write v c)
      rw [hop] at h_less
      have h_next := h_less.resolve_left hq v
      rw [h_rank l _ _ h_own, h_eq] at h_next
      obtain ⟨es', l₁, m₁, h_run, h_pause, h_pops⟩ := ih _ h_next
        ((h.others h_own).pop hop (fun _ => hv.1) (fun _ _ => hv.2) id) rfl
      rw [List.append_assoc] at h_run
      refine ⟨_, l₁, m₁, h_run, h_pause, fun q' v' x h_mem => ?_⟩
      rcases List.mem_append.mp h_mem with h_mem | h_mem
      · cases List.mem_singleton.mp h_mem
        exact ⟨hq, m.write_pool_self v c⟩
      · exact h_pops q' v' x h_mem

/-! ### The threads of a pipeline -/

/-- **Every thread makes a solo run**, and its pushes stand in the history in their order. -/
theorem Custody.exists_solo {M : Machine n L β σ} {bad : (t : Tid n M.par) → L t.1 → Prop}
    (C : Custody M bad) (h_careful : ∀ t l, C.wf t l → Careful (C.held t.1) l (M.prog t l))
    {pool : Multiset ℤ} {s s' : State M} (h : Reachable M bad s s') (h_kept : C.Kept pool s)
    (hnd : pool.Nodup) (t : Tid n M.par) :
    ∃ es, Solo n (C.held t.1) (M.prog t) (bad t) (s.thread t).loc s.mem es (s'.thread t).loc s'.mem ∧
      (es.filterMap Event.push).Sublist s'.log.reverse := by
  have h_inv := h.invariant
    (I := fun s' => C.Kept pool s' ∧ ∃ es,
      Solo n (C.held t.1) (M.prog t) (bad t) (s.thread t).loc s.mem es (s'.thread t).loc s'.mem ∧
      (es.filterMap Event.push).Sublist s'.log.reverse)
    ⟨h_kept, [], .start, by simp⟩ ?_
  · exact h_inv.2
  rintro s₁ u s₂ ⟨hK, es, h_solo, h_sub⟩ hstep hbad
  refine ⟨hK.step C hstep hbad, ?_⟩
  -- the history only grows
  have h_grows : ∃ new, s₂.log = new ++ s₁.log := by
    cases hstep with
    | push hrun hop hroom => exact ⟨[_], rfl⟩
    | signal hsig hroom => exact ⟨[_], rfl⟩
    | pop hrun hop hq => exact ⟨[], rfl⟩
    | work hrun hop => exact ⟨[], rfl⟩
    | leave hrun hop => exact ⟨[], rfl⟩
    | quit hrun hop => exact ⟨[], rfl⟩
    | last hcnt hfin => exact ⟨[], rfl⟩
    | notLast hcnt hfin => exact ⟨[], rfl⟩
    | done hsig => exact ⟨[], rfl⟩
  have h_sub' : (es.filterMap Event.push).Sublist s₂.log.reverse := by
    obtain ⟨new, h_new⟩ := h_grows
    rw [h_new, List.reverse_append]
    exact h_sub.trans (List.sublist_append_left _ _)
  by_cases hu : u = t
  · subst hu
    have h_same : ∀ {th : Thread (L u.1)}, th.loc = (s₁.thread u).loc → ∃ es,
        Solo n (C.held u.1) (M.prog u) (bad u) (s.thread u).loc s.mem es
          (update s₁.thread u th u).loc s₁.mem ∧ (es.filterMap Event.push).Sublist s₂.log.reverse := by
      intro th h_loc
      rw [update_self, h_loc]
      exact ⟨es, h_solo, h_sub'⟩
    cases hstep with
    | @pop l q k v rest hrun hop hq =>
      simp only [update_self, Thread.loc_running] at hbad ⊢
      rw [hrun, Thread.loc_running] at h_solo
      have h_head : v ∈ s₁.queue q := by rw [hq]; exact List.mem_cons_self
      refine ⟨es ++ [.popped q v (s₁.mem.pool v)], h_solo.pop hop ?_ ?_ hbad, ?_⟩
      · rintro rfl rfl
        exact hK.free h_head
      · intro hlt hv h_held
        refine hK.notMem_queue hnd (t := u) ?_ hlt (mem_ids.mpr ⟨h_head, hv⟩)
        rw [hrun]
        exact h_held
      · rw [List.filterMap_append, List.filterMap_cons_none rfl, List.filterMap_nil,
          List.append_nil]
        exact h_sub
    | @push l q v l' hrun hop hroom =>
      simp only [update_self, Thread.loc_running] at hbad ⊢
      rw [hrun, Thread.loc_running] at h_solo
      refine ⟨es ++ [.pushed ⟨q, v, s₁.mem.pool v⟩], h_solo.push hop hbad, ?_⟩
      rw [List.filterMap_append, List.reverse_cons]
      exact h_sub.append (List.Sublist.refl _)
    | @work l bs f hrun hop =>
      simp only [update_self, Thread.loc_running] at hbad ⊢
      rw [hrun, Thread.loc_running] at h_solo
      exact ⟨es, h_solo.work hop hbad, h_sub⟩
    | leave hrun hop => exact h_same (by rw [hrun]; rfl)
    | quit hrun hop => exact h_same (by rw [hrun]; rfl)
    | last hcnt hfin => exact h_same (by rw [hcnt]; rfl)
    | notLast hcnt hfin => exact h_same (by rw [hcnt]; rfl)
    | signal hsig hroom => exact h_same (by rw [hsig]; rfl)
    | done hsig => exact h_same (by rw [hsig]; rfl)
  · refine ⟨es, ?_, h_sub'⟩
    rw [hstep.thread_of_ne (Ne.symm hu)]
    refine h_solo.others fun b hb => pool_eq_of_step hK (h_careful u) hstep fun h_other => ?_
    exact hK.held_disjoint hnd hu h_other hb

end Pipeline
