import Xdbc.Pipeline.Solo

/-!
# Balanced iterations

A thread that works through a queue should give back every id it takes. `Event.popped` and
`Event.pushed` count the ids that have been taken and given back, and `Event.arrivals` says what has
been popped from the queue the thread works through, with `none` for an end marker.

An honest program keeps account: what it has taken is what it has given back and what it still
holds (`Solo.accounts`). So an iteration is balanced if the thread does not go wrong and holds
nothing at its end.
-/

namespace Pipeline

variable {n : ℕ} {β σ : Type}

namespace Event

/-- The id, if one is popped from a queue of the pipeline. -/
def idPopped (n : ℕ) : Event β → Option ℤ
  | popped q v _ => if q < n ∧ v ≠ marker then some v else none
  | pushed _ => none

/-- The id, if one is pushed. -/
def idPushed : Event β → Option ℤ
  | popped _ _ _ => none
  | pushed e => some e.item

/-- What arrives, if something is popped from queue `q`. -/
def arrival (q : ℕ) : Event β → Option (Option β)
  | popped q' v c => if q' = q then some (if v = marker then none else some c) else none
  | pushed _ => none

/-- The ids that have been taken. -/
def idsPopped (n : ℕ) (es : List (Event β)) : Multiset ℤ := ↑(es.filterMap (idPopped n))

/-- The ids that have been given back. -/
def idsPushed (es : List (Event β)) : Multiset ℤ := ↑(es.filterMap idPushed)

/-- What has been popped from queue `q`, in order: the contents of a buffer, or an end marker. -/
def arrivals (q : ℕ) (es : List (Event β)) : List (Option β) := es.filterMap (arrival q)

variable {es : List (Event β)} {q q' : ℕ} {v : ℤ} {c : β} {e : Push β} {x : Event β}

@[simp] theorem idsPopped_nil : idsPopped n ([] : List (Event β)) = 0 := rfl

@[simp] theorem idsPushed_nil : idsPushed ([] : List (Event β)) = 0 := rfl

@[simp] theorem arrivals_nil : arrivals q ([] : List (Event β)) = [] := rfl

theorem idsPopped_popped (hq : q < n) (hv : v ≠ marker) :
    idsPopped n (es ++ [.popped q v c]) = v ::ₘ idsPopped n es := by
  have h_event : idPopped n (.popped q v c) = some v := if_pos ⟨hq, hv⟩
  rw [idsPopped, List.filterMap_append, List.filterMap_cons_some h_event, List.filterMap_nil,
    ← Multiset.coe_add, Multiset.coe_singleton, add_comm, Multiset.singleton_add]
  rfl

theorem idsPopped_popped_of_not (h : ¬ (q < n ∧ v ≠ marker)) :
    idsPopped n (es ++ [.popped q v c]) = idsPopped n es := by
  have h_event : idPopped n (.popped q v c) = none := if_neg h
  rw [idsPopped, List.filterMap_append, List.filterMap_cons_none h_event, List.filterMap_nil,
    List.append_nil, idsPopped]

@[simp] theorem idsPopped_pushed : idsPopped n (es ++ [.pushed e]) = idsPopped n es := by
  rw [idsPopped, List.filterMap_append, List.filterMap_cons_none rfl, List.filterMap_nil,
    List.append_nil, idsPopped]

@[simp] theorem idsPushed_popped : idsPushed (es ++ [.popped q v c]) = idsPushed es := by
  rw [idsPushed, List.filterMap_append, List.filterMap_cons_none rfl, List.filterMap_nil,
    List.append_nil, idsPushed]

@[simp] theorem idsPushed_pushed : idsPushed (es ++ [.pushed e]) = e.item ::ₘ idsPushed es := by
  have h_event : idPushed (.pushed e) = some e.item := rfl
  rw [idsPushed, List.filterMap_append, List.filterMap_cons_some h_event, List.filterMap_nil,
    ← Multiset.coe_add, Multiset.coe_singleton, add_comm, Multiset.singleton_add]
  rfl

theorem arrivals_popped (hv : v ≠ marker) :
    arrivals q (es ++ [.popped q v c]) = arrivals q es ++ [some c] := by
  simp [arrivals, arrival, hv]

theorem arrivals_popped_marker :
    arrivals q (es ++ [.popped q marker c]) = arrivals q es ++ [none] := by
  simp [arrivals, arrival]

theorem arrivals_popped_of_ne (h : q' ≠ q) :
    arrivals q (es ++ [.popped q' v c]) = arrivals q es := by
  simp [arrivals, arrival, h]

@[simp] theorem arrivals_pushed : arrivals q (es ++ [.pushed e]) = arrivals q es := by
  simp [arrivals, arrival]

/-- What has arrived stays. -/
theorem arrivals_subset : arrivals q es ⊆ arrivals q (es ++ [x]) := by
  intro a ha
  rw [arrivals, List.filterMap_append]
  exact List.mem_append_left _ ha

end Event

section Accounts

variable {L₀ : Type} {held : L₀ → Multiset ℤ} {prog : L₀ → Op L₀ β σ} {wf bad : L₀ → Prop}
  {l₀ l : L₀} {m₀ m : Memory β σ} {es : List (Event β)}

/-- **What an honest program has taken is what it has given back and what it holds.** -/
theorem Solo.accounts (h_honest : ∀ l, wf l → Honest n held wf bad l (prog l)) (h_wf : wf l₀)
    (h : Solo n held prog bad l₀ m₀ es l m) :
    wf l ∧ held l₀ + Event.idsPopped n es = held l + Event.idsPushed es := by
  induction h with
  | start => exact ⟨h_wf, rfl⟩
  | others _ _ ih => exact ih
  | @pop es l m q k v _ hop h_free _ h_good ih =>
    obtain ⟨h_wf, h_sum⟩ := ih
    have h_op := h_honest l h_wf
    rw [hop] at h_op
    obtain ⟨h_id, h_marker, h_private⟩ := h_op
    rw [Event.idsPushed_popped]
    by_cases hq : q < n
    · by_cases hv : v = marker
      · -- a marker is no id, and the free list has none
        subst hv
        obtain ⟨h_wf', h_held⟩ := h_marker (Nat.pos_of_ne_zero fun h => h_free h rfl) hq h_good
        rw [Event.idsPopped_popped_of_not (fun h => h.2 rfl), h_held]
        exact ⟨h_wf', h_sum⟩
      · obtain ⟨h_wf', h_held⟩ := h_id v hq hv h_good
        rw [Event.idsPopped_popped hq hv, h_held, Multiset.add_cons, Multiset.cons_add, h_sum]
        exact ⟨h_wf', rfl⟩
    · -- what is popped from a private queue is no id of the pool
      obtain ⟨h_wf', h_held⟩ := h_private v (Nat.not_lt.mp hq) h_good
      rw [Event.idsPopped_popped_of_not (fun h => hq h.1), h_held]
      exact ⟨h_wf', h_sum⟩
  | @push es l m q v l' _ hop h_good ih =>
    obtain ⟨h_wf, h_sum⟩ := ih
    have h_op := h_honest l h_wf
    rw [hop] at h_op
    -- the id pushed was in hand
    obtain ⟨h_wf', h_held⟩ := h_op.2.2 h_good
    rw [Event.idsPopped_pushed, Event.idsPushed_pushed, h_sum, h_held, Multiset.add_cons,
      Multiset.cons_add]
    exact ⟨h_wf', rfl⟩
  | @work es l m bs f _ hop h_good ih =>
    obtain ⟨h_wf, h_sum⟩ := ih
    have h_op := h_honest l h_wf
    rw [hop] at h_op
    obtain ⟨h_wf', h_held⟩ := h_op m h_good
    rw [h_held]
    exact ⟨h_wf', h_sum⟩

/-- A run that avoids more than it has to. -/
theorem Solo.mono {bad' : L₀ → Prop} (h_bad : ∀ l, bad' l → bad l)
    (h : Solo n held prog bad l₀ m₀ es l m) : Solo n held prog bad' l₀ m₀ es l m := by
  induction h with
  | start => exact .start
  | others _ h_own ih => exact ih.others h_own
  | pop _ hop h_free h_new h_good ih => exact ih.pop hop h_free h_new fun h => h_good (h_bad _ h)
  | push _ hop h_good ih => exact ih.push hop fun h => h_good (h_bad _ h)
  | work _ hop h_good ih => exact ih.work hop fun h => h_good (h_bad _ h)

end Accounts

/-! ### Staying on course -/

section Course

variable {L₀ : Type} (held : L₀ → Multiset ℤ) (prog : L₀ → Op L₀ β σ) (q₀ : ℕ)
  (keeps : Option β → Prop) (course : (ℤ → β) → L₀ → Prop)

/-- The operation leads from a point on course to another, if what arrives from queue `q₀` is as it
should be. -/
def OnCourse (m : Memory β σ) : Op L₀ β σ → Prop
  | .pop q k => ∀ v, (q = q₀ → keeps (if v = marker then none else some (m.pool v))) →
      course m.pool (k v)
  | .push _ _ l' => course m.pool l'
  | .work _ f => course (f m).1.pool (f m).2
  | .leave => True
  | .quit => True

variable {held prog q₀ keeps course} {bad : L₀ → Prop} {l₀ l : L₀} {m₀ m : Memory β σ}
  {es : List (Event β)}

/-- **A thread stays on course** as long as what arrives is as it should be, and then it avoids
whatever is off course. -/
theorem Solo.onCourse (h_step : ∀ l m, course m.pool l → OnCourse q₀ keeps course m (prog l))
    (h_local : ∀ l p p', (∀ b ∈ held l, p' b = p b) → course p l → course p' l)
    (h_bad : ∀ l p, bad l → ¬ course p l) (h_start : course m₀.pool l₀)
    (h : Solo n held prog (fun _ => False) l₀ m₀ es l m)
    (h_keeps : ∀ x ∈ Event.arrivals q₀ es, keeps x) :
    Solo n held prog bad l₀ m₀ es l m ∧ course m.pool l := by
  induction h with
  | start => exact ⟨.start, h_start⟩
  | others _ h_own ih =>
    obtain ⟨h, h_course⟩ := ih h_keeps
    exact ⟨h.others h_own, h_local _ _ _ h_own h_course⟩
  | @pop es l m q k v _ hop h_free h_new _ ih =>
    obtain ⟨h, h_course⟩ := ih fun x hx => h_keeps x (Event.arrivals_subset hx)
    have h_next := h_step l m h_course
    rw [hop] at h_next
    -- what was popped is as it should be, for it is one of the arrivals
    have h_course' : course m.pool (k v) := by
      refine h_next v ?_
      rintro rfl
      refine h_keeps _ ?_
      split
      · next hv =>
        rw [hv, Event.arrivals_popped_marker]
        exact List.mem_append_right _ List.mem_cons_self
      · next hv =>
        rw [Event.arrivals_popped hv]
        exact List.mem_append_right _ List.mem_cons_self
    exact ⟨h.pop hop h_free h_new fun h_off => h_bad _ _ h_off h_course', h_course'⟩
  | @push es l m q v l' _ hop _ ih =>
    obtain ⟨h, h_course⟩ := ih fun x hx => h_keeps x (Event.arrivals_subset hx)
    have h_next := h_step l m h_course
    rw [hop] at h_next
    exact ⟨h.push hop fun h_off => h_bad _ _ h_off h_next, h_next⟩
  | @work es l m bs f _ hop _ ih =>
    obtain ⟨h, h_course⟩ := ih h_keeps
    have h_next := h_step l m h_course
    rw [hop] at h_next
    exact ⟨h.work hop fun h_off => h_bad _ _ h_off h_next, h_next⟩

end Course

/-! ### Iterations -/

section Iterations

variable {L₀ : Type} (n q₀ : ℕ) (held : L₀ → Multiset ℤ) (prog : L₀ → Op L₀ β σ) (l₀ : L₀)
  (lost ends : L₀ → Prop)

/-- The iterations over `x` are balanced: none is broken off, and at the end of one all ids that
have been taken are given back. -/
def Balanced (x : Option β) : Prop :=
  ∀ es l m₀ m, Solo n held prog (fun _ => False) l₀ m₀ es l m → Event.arrivals q₀ es = [x] →
    ¬ lost l ∧ (l = l₀ ∨ ends l → Event.idsPopped n es = Event.idsPushed es)

/-- A run over anything that satisfies `keeps` loses no id, however long it is. -/
def Conserves (keeps : Option β → Prop) : Prop :=
  ∀ es l m₀ m, Solo n held prog (fun _ => False) l₀ m₀ es l m →
    (∀ x ∈ Event.arrivals q₀ es, keeps x) →
      ¬ lost l ∧ Event.idsPopped n es = held l + Event.idsPushed es ∧
        (l = l₀ ∨ ends l → held l = 0)

variable {n q₀ held prog l₀ lost ends}

theorem Conserves.balanced {keeps : Option β → Prop}
    (h : Conserves n q₀ held prog l₀ lost ends keeps) {x : Option β} (hx : keeps x) :
    Balanced n q₀ held prog l₀ lost ends x := by
  intro es l m₀ m h_solo h_arrivals
  obtain ⟨h_lost, h_sum, h_held⟩ := h es l m₀ m h_solo fun y hy => by
    rw [h_arrivals, List.mem_singleton] at hy
    exact hy ▸ hx
  refine ⟨h_lost, fun h_end => ?_⟩
  rw [h_sum, h_held h_end, zero_add]

end Iterations

end Pipeline
