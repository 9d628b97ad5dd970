import Xdbc.Pipeline.Balance

/-!
# A thread and those who take its buffers

`Solo` is the run of one thread. `Relay` is such a run together with the consumers of the buffers
that the thread pushes to one queue. A buffer that has been pushed and not been read is in flight:
the environment leaves it alone, as it does the buffers in hand, until a consumer reads it, at any
time and in any order. What the consumers read is remembered (`reads`), with the number of the push.

The thread itself is not bound by this. If it still writes to a buffer in flight, then a consumer
finds something else than what has been pushed, or not, depending on who is first.

`Custody.exists_relay` finds such a run for every thread of a pipeline, whatever it does, if the
other threads are careful.
-/

namespace Pipeline

open Function

variable {n : ℕ} {β σ : Type}

/-! ### What a thread pushes -/

namespace Event

/-- The item, if one is pushed to queue `q`. -/
def itemSent (q : ℕ) : Event β → Option ℤ
  | popped _ _ _ => none
  | pushed e => if e.queue = q then some e.item else none

/-- The items pushed to queue `q`, in order. -/
def sent (q : ℕ) (es : List (Event β)) : List ℤ := es.filterMap (itemSent q)

variable {q q' : ℕ} {es : List (Event β)} {v : ℤ} {c : β}

@[simp] theorem sent_nil : sent q ([] : List (Event β)) = [] := rfl

@[simp] theorem sent_popped : sent q (es ++ [.popped q' v c]) = sent q es := by
  simp [sent, itemSent]

theorem sent_pushed : sent q (es ++ [.pushed ⟨q, v, c⟩]) = sent q es ++ [v] := by
  simp [sent, itemSent]

theorem sent_pushed_of_ne (h : q' ≠ q) : sent q (es ++ [.pushed ⟨q', v, c⟩]) = sent q es := by
  simp [sent, itemSent, h]

end Event

/-! ### Runs with consumers -/

/-- Buffer `b` has been pushed to queue `q`, as number `i`, and has not been read. -/
def Unread (q : ℕ) (es : List (Event β)) (reads : List (ℕ × β)) (i : ℕ) (b : ℤ) : Prop :=
  (Event.sent q es)[i]? = some b ∧ ∀ c, (i, c) ∉ reads

/-- Buffer `b` has been pushed to queue `q` and not been read. -/
def InFlight (q : ℕ) (es : List (Event β)) (reads : List (ℕ × β)) (b : ℤ) : Prop :=
  ∃ i, Unread q es reads i b

/-- The consumers have read everything pushed to queue `q`, and `contents` is what they have read, in
the order of the pushes. -/
def ReadAll (q : ℕ) (es : List (Event β)) (reads : List (ℕ × β)) (contents : List β) : Prop :=
  contents.length = (Event.sent q es).length ∧ ∀ i c, contents[i]? = some c → (i, c) ∈ reads

/-- The runs of a program and of the consumers of queue `q₁`: the events, what has been read, the
local state and the memory reached. -/
inductive Relay (n : ℕ) {L₀ : Type} (held : L₀ → Multiset ℤ) (prog : L₀ → Op L₀ β σ) (q₁ : ℕ)
    (l₀ : L₀) (m₀ : Memory β σ) :
    List (Event β) → List (ℕ × β) → L₀ → Memory β σ → Prop where
  | start : Relay n held prog q₁ l₀ m₀ [] [] l₀ m₀
  | others {es : List (Event β)} {reads : List (ℕ × β)} {l : L₀} {m m' : Memory β σ}
      (h : Relay n held prog q₁ l₀ m₀ es reads l m) (h_own : ∀ b ∈ held l, m'.pool b = m.pool b)
      (h_flight : ∀ b, InFlight q₁ es reads b → m'.pool b = m.pool b) :
      Relay n held prog q₁ l₀ m₀ es reads l m'
  | read {es : List (Event β)} {reads : List (ℕ × β)} {l : L₀} {m : Memory β σ} {i : ℕ} {b : ℤ}
      (h : Relay n held prog q₁ l₀ m₀ es reads l m) (h_unread : Unread q₁ es reads i b) :
      Relay n held prog q₁ l₀ m₀ es (reads ++ [(i, m.pool b)]) l m
  | pop {es : List (Event β)} {reads : List (ℕ × β)} {l : L₀} {m : Memory β σ} {q : ℕ}
      {k : ℤ → L₀} {v : ℤ} (h : Relay n held prog q₁ l₀ m₀ es reads l m) (hop : prog l = .pop q k)
      (h_free : q = 0 → v ≠ marker)
      (h_new : q < n → v ≠ marker → v ∉ held l ∧ ¬ InFlight q₁ es reads v) :
      Relay n held prog q₁ l₀ m₀ (es ++ [.popped q v (m.pool v)]) reads (k v) m
  | push {es : List (Event β)} {reads : List (ℕ × β)} {l : L₀} {m : Memory β σ} {q : ℕ} {v : ℤ}
      {l' : L₀} (h : Relay n held prog q₁ l₀ m₀ es reads l m) (hop : prog l = .push q v l') :
      Relay n held prog q₁ l₀ m₀ (es ++ [.pushed ⟨q, v, m.pool v⟩]) reads l' m
  | work {es : List (Event β)} {reads : List (ℕ × β)} {l : L₀} {m : Memory β σ} {bs : List ℤ}
      {f : Memory β σ → Memory β σ × L₀} (h : Relay n held prog q₁ l₀ m₀ es reads l m)
      (hop : prog l = .work bs f) : Relay n held prog q₁ l₀ m₀ es reads (f m).2 (f m).1

variable {L₀ : Type} {held : L₀ → Multiset ℤ} {prog : L₀ → Op L₀ β σ} {q₁ : ℕ} {l₀ l : L₀}
  {m₀ m : Memory β σ} {es : List (Event β)} {reads : List (ℕ × β)}

/-- Seen from the thread it is a run like any other. -/
theorem Relay.solo (h : Relay n held prog q₁ l₀ m₀ es reads l m) :
    Solo n held prog (fun _ => False) l₀ m₀ es l m := by
  induction h with
  | start => exact .start
  | others _ h_own _ ih => exact ih.others h_own
  | read _ _ ih => exact ih
  | pop _ hop h_free h_new ih => exact ih.pop hop h_free (fun hq hv => (h_new hq hv).1) id
  | push _ hop ih => exact ih.push hop id
  | work _ hop ih => exact ih.work hop id

/-- Nothing is in flight before anything is pushed. -/
theorem not_inFlight_of_sent_eq_nil {q : ℕ} (h : Event.sent q es = []) (b : ℤ) :
    ¬ InFlight q es reads b := by
  rintro ⟨i, h_item, -⟩
  rw [h] at h_item
  cases h_item

/-- Only what has been pushed is read. -/
theorem Relay.lt_of_mem (h : Relay n held prog q₁ l₀ m₀ es reads l m) {i : ℕ} {c : β}
    (hc : (i, c) ∈ reads) : i < (Event.sent q₁ es).length := by
  induction h with
  | start => cases hc
  | others _ _ _ ih => exact ih hc
  | read _ h_unread ih =>
    rcases List.mem_append.mp hc with hc | hc
    · exact ih hc
    · rw [(Prod.mk.inj (List.mem_singleton.mp hc)).1]
      exact (List.getElem?_eq_some_iff.mp h_unread.1).1
  | pop _ _ _ _ ih =>
    rw [Event.sent_popped]
    exact ih hc
  | @push es reads l m q v l' _ hop ih =>
    rw [Event.sent, List.filterMap_append, List.length_append]
    exact (ih hc).trans_le (Nat.le_add_right _ _)
  | work _ _ ih => exact ih hc

/-- Nothing is in flight when everything has been read. -/
theorem ReadAll.not_inFlight {q : ℕ} {contents : List β} (h : ReadAll q es reads contents) (b : ℤ) :
    ¬ InFlight q es reads b := by
  rintro ⟨i, h_item, h_new⟩
  have h_lt : i < contents.length := h.1 ▸ (List.getElem?_eq_some_iff.mp h_item).1
  exact h_new _ (h.2 i _ (List.getElem?_eq_getElem h_lt))

/-- **A consumer who is quick** reads a buffer as soon as it is pushed. -/
theorem Relay.push_read {v : ℤ} {t : L₀} {contents : List β}
    (h : Relay n held prog q₁ l₀ m₀ es reads l m) (hop : prog l = .push q₁ v t)
    (h_all : ReadAll q₁ es reads contents) :
    ∃ reads', Relay n held prog q₁ l₀ m₀ (es ++ [.pushed ⟨q₁, v, m.pool v⟩]) reads' t m ∧
      ReadAll q₁ (es ++ [.pushed ⟨q₁, v, m.pool v⟩]) reads' (contents ++ [m.pool v]) := by
  have h_unread : Unread q₁ (es ++ [.pushed ⟨q₁, v, m.pool v⟩]) reads (Event.sent q₁ es).length v := by
    refine ⟨?_, fun c hc => Nat.lt_irrefl _ (h.lt_of_mem hc)⟩
    rw [Event.sent_pushed, List.getElem?_concat_length]
  refine ⟨_, (h.push hop).read h_unread, ?_, fun i c hc => ?_⟩
  · rw [List.length_append, h_all.1, Event.sent_pushed, List.length_append]
    rfl
  · -- the contents read before, or the new one at the end
    rcases Nat.lt_trichotomy i contents.length with h_lt | rfl | h_gt
    · rw [List.getElem?_append_left h_lt] at hc
      exact List.mem_append_left _ (h_all.2 i c hc)
    · rw [List.getElem?_concat_length] at hc
      rw [h_all.1, Option.some.inj hc]
      exact List.mem_append_right _ (List.mem_singleton_self _)
    · rw [List.getElem?_eq_none (by simpa using h_gt)] at hc
      cases hc

/-- What is unread behind a push was unread before, or is what has been pushed. -/
theorem Unread.of_pushed {q : ℕ} {i : ℕ} {b v : ℤ} {c : β}
    (h : Unread q (es ++ [.pushed ⟨q, v, c⟩]) reads i b) :
    Unread q es reads i b ∨ i = (Event.sent q es).length ∧ b = v := by
  obtain ⟨h_item, h_new⟩ := h
  rw [Event.sent_pushed] at h_item
  rcases Nat.lt_trichotomy i (Event.sent q es).length with h_lt | rfl | h_gt
  · rw [List.getElem?_append_left h_lt] at h_item
    exact .inl ⟨h_item, h_new⟩
  · rw [List.getElem?_concat_length] at h_item
    exact .inr ⟨rfl, (Option.some.inj h_item).symm⟩
  · rw [List.getElem?_eq_none (by simpa using h_gt)] at h_item
    cases h_item

theorem unread_popped {q q' i : ℕ} {b v : ℤ} {c : β} :
    Unread q (es ++ [.popped q' v c]) reads i b ↔ Unread q es reads i b := by
  rw [Unread, Event.sent_popped, Unread]

/-! ### The threads of a pipeline -/

section Threads

variable {L : Fin n → Type} {M : Machine n L β σ} {bad : (t : Tid n M.par) → L t.1 → Prop}

/-- What is in flight is in the queue, and no buffer is in flight twice. -/
structure Afloat (q : ℕ) (es : List (Event β)) (reads : List (ℕ × β)) (xs : List ℤ) : Prop where
  queued : ∀ i b, Unread q es reads i b → b ∈ ids xs
  once : ∀ i j b, Unread q es reads i b → Unread q es reads j b → i = j

theorem Afloat.mono {xs ys : List ℤ} (h : Afloat q₁ es reads xs)
    (h_le : ∀ b ∈ ids xs, b ∈ ids ys) : Afloat q₁ es reads ys :=
  ⟨fun i b h_unread => h_le b (h.queued i b h_unread), h.once⟩

/-- **A consumer reads the buffer it takes**, if it is in flight. -/
theorem Afloat.taken {v : ℤ} {rest : List ℤ} (h : Afloat q₁ es reads (v :: rest))
    (h_relay : Relay n held prog q₁ l₀ m₀ es reads l m) :
    ∃ reads', Relay n held prog q₁ l₀ m₀ es reads' l m ∧ Afloat q₁ es reads' rest ∧
      ¬ InFlight q₁ es reads' v := by
  have h_rest : ∀ i b, Unread q₁ es reads i b → b ≠ v → b ∈ ids rest := fun i b h_unread h_ne => by
    obtain ⟨h_mem, h_id⟩ := mem_ids.mp (h.queued i b h_unread)
    exact mem_ids.mpr ⟨(List.mem_cons.mp h_mem).resolve_left h_ne, h_id⟩
  -- `v` was pushed by the thread and not yet read, or it is another buffer
  by_cases h_flight : InFlight q₁ es reads v
  · obtain ⟨i, h_i⟩ := h_flight
    have h_other : ∀ j b, Unread q₁ es (reads ++ [(i, m.pool v)]) j b →
        Unread q₁ es reads j b ∧ b ≠ v := fun j b h_unread => by
      have h_old : Unread q₁ es reads j b :=
        ⟨h_unread.1, fun c hc => h_unread.2 c (List.mem_append_left _ hc)⟩
      refine ⟨h_old, ?_⟩
      rintro rfl
      obtain rfl := h.once _ _ _ h_old h_i
      exact h_unread.2 _ (List.mem_append_right _ (List.mem_singleton_self _))
    refine ⟨_, h_relay.read h_i, ⟨fun j b h_unread => ?_, fun j k b hj hk => ?_⟩, ?_⟩
    · exact h_rest j b (h_other j b h_unread).1 (h_other j b h_unread).2
    · exact h.once j k b (h_other j b hj).1 (h_other k b hk).1
    · rintro ⟨j, hj⟩
      exact (h_other j v hj).2 rfl
  · refine ⟨reads, h_relay, ⟨fun i b h_unread => h_rest i b h_unread ?_, h.once⟩, h_flight⟩
    rintro rfl
    exact h_flight ⟨i, h_unread⟩

/-- A buffer that is pushed while the thread holds it was not in flight. -/
theorem Afloat.pushed {v : ℤ} {c : β} {xs : List ℤ} (h : Afloat q₁ es reads xs) (hv : v ≠ marker)
    (h_new : v ∉ ids xs) : Afloat q₁ (es ++ [.pushed ⟨q₁, v, c⟩]) reads (xs ++ [v]) := by
  constructor
  · intro i b h_unread
    rw [ids_append_singleton hv, Multiset.mem_cons]
    rcases h_unread.of_pushed with h_old | ⟨-, rfl⟩
    · exact .inr (h.queued i b h_old)
    · exact .inl rfl
  · intro i j b hi hj
    rcases hi.of_pushed with hi | ⟨rfl, rfl⟩ <;> rcases hj.of_pushed with hj | ⟨rfl, h_eq⟩
    · exact h.once i j b hi hj
    · exact absurd (h.queued i b hi) (h_eq ▸ h_new)
    · exact absurd (h.queued j b hj) h_new
    · rfl

variable {C : Custody M bad} {pool : Multiset ℤ} {s s' : State M}

/-- What a step does to a queue of which nothing is taken. -/
theorem Step.ids_subset {q : ℕ} {u : Tid n M.par} (h : Step M s u s')
    (h_not : ∀ l k v rest, s.thread u = .running l → M.prog u l = .pop q k → s.queue q ≠ v :: rest) :
    ∀ b ∈ ids (s.queue q), b ∈ ids (s'.queue q) := by
  intro b hb
  have h_append : ∀ (p : ℕ) (v : ℤ), b ∈ ids (update s.queue p (s.queue p ++ [v]) q) := by
    intro p v
    by_cases hp : q = p
    · subst hp
      rw [update_self, ids_append]
      exact Multiset.mem_add.mpr (.inl hb)
    · rwa [update_of_ne hp]
  -- only a pop from the queue could take `b` out of it
  cases h with
  | @pop l p k v rest hrun hop hq =>
    by_cases hp : q = p
    · subst hp
      exact absurd hq (h_not l k v rest hrun hop)
    · change b ∈ ids (update s.queue p rest q)
      rwa [update_of_ne hp]
  | push hrun hop hroom => exact h_append _ _
  | signal hsig hroom => exact h_append _ _
  | _ => exact hb

/-- The consumers read what a step takes from the queue. -/
theorem Step.exists_taken {u : Tid n M.par} (hstep : Step M s u s')
    (h : Relay n held prog q₁ l₀ m₀ es reads l m) (h_afloat : Afloat q₁ es reads (s.queue q₁)) :
    ∃ reads', Relay n held prog q₁ l₀ m₀ es reads' l m ∧ Afloat q₁ es reads' (s'.queue q₁) ∧
      ∀ l k v rest, s.thread u = .running l → M.prog u l = .pop q₁ k → s.queue q₁ = v :: rest →
        ¬ InFlight q₁ es reads' v := by
  by_cases h_pop : ∃ l k v rest, s.thread u = .running l ∧ M.prog u l = .pop q₁ k ∧
      s.queue q₁ = v :: rest
  · obtain ⟨l', k, v, rest, hrun, hop, hq⟩ := h_pop
    have h_exec := exec_eq_some_iff.mpr hstep
    simp only [exec, hrun, hop, hq, Option.some.injEq] at h_exec
    have h_rest : s'.queue q₁ = rest := by
      rw [← h_exec]
      exact update_self _ _ _
    rw [hq] at h_afloat
    obtain ⟨reads', h_relay, h_afloat', h_not⟩ := h_afloat.taken h
    refine ⟨reads', h_relay, h_rest ▸ h_afloat', fun _ _ v' rest' _ _ hq' => ?_⟩
    obtain ⟨rfl, -⟩ := List.cons.inj (hq'.symm.trans hq)
    exact h_not
  · -- nothing is taken from the queue
    refine ⟨reads, h, h_afloat.mono (hstep.ids_subset fun l k v rest hrun hop hq => ?_),
      fun l k v rest hrun hop hq => ?_⟩
    · exact h_pop ⟨l, k, v, rest, hrun, hop, hq⟩
    · exact absurd ⟨l, k, v, rest, hrun, hop, hq⟩ h_pop

/-- **Every thread makes such a run**, whatever it does itself, if the others keep to the buffers
they hold. -/
theorem Custody.exists_relay (C : Custody M bad) (t : Tid n M.par)
    (h_careful : ∀ u, u ≠ t → ∀ l, C.wf u l → Careful (C.held u.1) l (M.prog u l))
    (h_lt : q₁ < n) (h : Reachable M bad s s') (h_kept : C.Kept pool s) (hnd : pool.Nodup) :
    ∃ es reads, Relay n (C.held t.1) (M.prog t) q₁ (s.thread t).loc s.mem es reads
        (s'.thread t).loc s'.mem ∧ Afloat q₁ es reads (s'.queue q₁) := by
  -- the invariant: the thread makes such a run, and what it has sent and nobody has read is queued
  have h_inv := h.invariant
    (I := fun s' => C.Kept pool s' ∧ ∃ es reads, Relay n (C.held t.1) (M.prog t) q₁
      (s.thread t).loc s.mem es reads (s'.thread t).loc s'.mem ∧ Afloat q₁ es reads (s'.queue q₁))
    ⟨h_kept, [], [], .start, fun _ _ h_unread => absurd ⟨_, h_unread⟩
      (not_inFlight_of_sent_eq_nil rfl _), fun _ _ _ h_unread => absurd ⟨_, h_unread⟩
      (not_inFlight_of_sent_eq_nil rfl _)⟩ ?_
  · exact h_inv.2
  rintro s₁ u s₂ ⟨hK, es, reads, h_relay, h_afloat⟩ hstep hbad
  refine ⟨hK.step C hstep hbad, ?_⟩
  obtain ⟨reads', h_relay', h_afloat', h_taken⟩ := hstep.exists_taken h_relay h_afloat
  -- the others read what they pop from queue `q₁` before the thread moves
  by_cases hu : u = t
  · subst hu
    cases hstep with
    | @pop l q k v rest hrun hop hq =>
      rw [hrun, Thread.loc_running] at h_relay'
      simp only [update_self, Thread.loc_running]
      have h_head : v ∈ s₁.queue q := by rw [hq]; exact List.mem_cons_self
      refine ⟨_, reads', h_relay'.pop hop ?_ ?_, ?_⟩
      · rintro rfl rfl
        exact hK.free h_head
      · intro hlt hv
        have h_id : v ∈ ids (s₁.queue q) := mem_ids.mpr ⟨h_head, hv⟩
        refine ⟨fun h_held => ?_, fun h_flight => ?_⟩
        · refine hK.notMem_queue hnd (t := u) ?_ hlt h_id
          rw [hrun]
          exact h_held
        · -- an id in flight is queued in `q₁`, and so in no other queue
          by_cases h_eq : q = q₁
          · subst h_eq
            exact h_taken l k v rest hrun hop hq h_flight
          · obtain ⟨i, h_unread⟩ := h_flight
            have h_there := h_afloat'.queued i v h_unread
            simp only [update_of_ne (Ne.symm h_eq)] at h_there
            exact hK.notMem_other_queue hnd hlt h_lt h_eq h_id h_there
      · exact ⟨fun i b h_unread => h_afloat'.queued i b (unread_popped.mp h_unread),
          fun i j b hi hj => h_afloat'.once i j b (unread_popped.mp hi) (unread_popped.mp hj)⟩
    | @push l q v l' hrun hop hroom =>
      have h_wf := hK.wf u
      rw [hrun, Thread.loc_running] at h_relay h_wf
      simp only [update_self, Thread.loc_running] at hbad ⊢
      have h_honest := C.honest u l h_wf
      rw [hop] at h_honest
      obtain ⟨-, hv, h_push⟩ := h_honest
      have h_held : v ∈ C.held u.1 (s₁.thread u).loc := by
        rw [hrun, Thread.loc_running, (h_push hbad).2]
        exact Multiset.mem_cons_self v _
      -- the id pushed was in hand, so it was not yet queued
      refine ⟨_, reads, h_relay.push hop, ?_⟩
      by_cases h_eq : q = q₁
      · subst h_eq
        rw [update_self]
        exact h_afloat.pushed hv (hK.notMem_queue hnd h_held h_lt)
      · rw [update_of_ne (Ne.symm h_eq)]
        have h_same : ∀ {i b}, Unread q₁ (es ++ [.pushed ⟨q, v, s₁.mem.pool v⟩]) reads i b →
            Unread q₁ es reads i b := fun h_unread => by
          rwa [Unread, Event.sent_pushed_of_ne h_eq] at h_unread
        exact ⟨fun i b h_unread => h_afloat.queued i b (h_same h_unread),
          fun i j b hi hj => h_afloat.once i j b (h_same hi) (h_same hj)⟩
    | @work l bs f hrun hop =>
      rw [hrun, Thread.loc_running] at h_relay'
      simp only [update_self, Thread.loc_running]
      exact ⟨es, reads', h_relay'.work hop, h_afloat'⟩
    | leave hrun hop | quit hrun hop | last hrun _ | notLast hrun _ | signal hrun _ | done hrun =>
      simp only [update_self]
      rw [hrun] at h_relay'
      exact ⟨es, reads', h_relay', h_afloat'⟩
  · refine ⟨es, reads', ?_, h_afloat'⟩
    rw [hstep.thread_of_ne (Ne.symm hu)]
    -- another thread leaves alone what it does not hold
    refine h_relay'.others (fun b hb => ?_) fun b h_flight => ?_
    · exact pool_eq_of_step hK (h_careful u hu) hstep fun h_other => hK.held_disjoint hnd hu h_other hb
    · obtain ⟨i, h_unread⟩ := h_flight
      have h_there := h_afloat'.queued i b h_unread
      cases hstep with
      | work hrun hop =>
        exact pool_eq_of_step hK (h_careful u hu) (.work hrun hop) fun h_other =>
          hK.notMem_queue hnd h_other h_lt h_there
      | _ => rfl

end Threads

end Pipeline
