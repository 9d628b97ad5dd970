import Xdbc.Pipeline.Solo

/-!
# Regrouping

A thread takes buffers from one queue, each with any number of items, and pushes buffers to another
queue, each with a batch of them. `Regrouping` says what the items of an input buffer are, which
batches are full, and when an output buffer holds a batch.

At any point of the loop the items taken so far are those of the full batches already pushed, the
items in hand and the items of the current input buffer that are still to take (`Splits`). Every
operation of such a thread moves items from one of these places to the next, and at the end all
batches together are the items taken (`Splits.chunked`, `Splits.chunked_pushed`).
-/

namespace Pipeline

variable {β ι : Type}

/-- How the items of the input buffers are put into batches. -/
structure Regrouping (β ι : Type) where
  source : ℕ
  sink : ℕ
  /-- The items of an input buffer. -/
  itemsOf : β → List ι
  /-- The batch is complete. -/
  Full : List ι → Prop
  /-- The output buffer holds the batch. -/
  Holds : List ι → β → Prop

namespace Regrouping

variable (R : Regrouping β ι)

/-- The items of the input buffers, in order. -/
def itemsIn (es : List (Event β)) : List ι := (Event.inputs R.source es).flatMap R.itemsOf

/-- Full batches are pushed. -/
structure Pushed (es : List (Event β)) (batches : List (List ι)) : Prop where
  full : ∀ batch ∈ batches, R.Full batch
  holds : List.Forall₂ R.Holds batches (Event.outputs R.sink es)

/-- The items taken are the items pushed, the items in hand, of which `InHand` is known, and the
items `left` to take. -/
def Splits (es : List (Event β)) (InHand : List ι → Prop) (left : List ι) : Prop :=
  ∃ batches items, R.Pushed es batches ∧ InHand items ∧
    R.itemsIn es = batches.flatten ++ items ++ left

/-- The batches in the output buffers are the items of the input buffers in order. All but the last
are full, of the last one `Last` is known. -/
structure Chunks (es : List (Event β)) (Last : List ι → Prop) (batches : List (List ι)) :
    Prop where
  flatten : batches.flatten = R.itemsIn es
  full : ∀ batch ∈ batches.dropLast, R.Full batch
  last : ∀ batch ∈ batches.getLast?, R.Full batch ∨ Last batch
  holds : List.Forall₂ R.Holds batches (Event.outputs R.sink es)

variable {R} {es : List (Event β)} {InHand InHand' Last : List ι → Prop} {left : List ι}
  {batches : List (List ι)} {v : ℤ} {c : β} {q : ℕ} {e : Push β}

/-! ### What the events change -/

theorem itemsIn_popped (hv : v ≠ marker) :
    R.itemsIn (es ++ [.popped R.source v c]) = R.itemsIn es ++ R.itemsOf c := by
  simp [itemsIn, Event.inputs_popped hv]

@[simp] theorem itemsIn_popped_marker :
    R.itemsIn (es ++ [.popped q marker c]) = R.itemsIn es := by
  simp [itemsIn]

theorem itemsIn_popped_of_ne (h : q ≠ R.source) :
    R.itemsIn (es ++ [.popped q v c]) = R.itemsIn es := by
  simp [itemsIn, Event.inputs_popped_of_ne h]

@[simp] theorem itemsIn_pushed : R.itemsIn (es ++ [.pushed e]) = R.itemsIn es := by
  simp [itemsIn]

theorem Pushed.popped (h : R.Pushed es batches) : R.Pushed (es ++ [.popped q v c]) batches :=
  ⟨h.full, by rw [Event.outputs_popped]; exact h.holds⟩

theorem Pushed.pushed_of_ne (hq : q ≠ R.sink) (h : R.Pushed es batches) :
    R.Pushed (es ++ [.pushed ⟨q, v, c⟩]) batches :=
  ⟨h.full, by rw [Event.outputs_pushed_of_ne hq]; exact h.holds⟩

/-! ### From one point of the loop to the next -/

theorem Splits.imp (h : R.Splits es InHand left) (h_imp : ∀ items, InHand items → InHand' items) :
    R.Splits es InHand' left := by
  obtain ⟨batches, items, h_pushed, h_hand, h_items⟩ := h
  exact ⟨batches, items, h_pushed, h_imp items h_hand, h_items⟩

/-- The first input buffer. -/
theorem Splits.first (h_in : Event.inputs R.source es = [c]) (h_out : Event.outputs R.sink es = [])
    (h_nil : InHand []) : R.Splits es InHand (R.itemsOf c) :=
  ⟨[], [], ⟨nofun, by rw [h_out]; exact .nil⟩, h_nil, by simp [itemsIn, h_in]⟩

/-- The next input buffer. -/
theorem Splits.input (h : R.Splits es InHand []) (hv : v ≠ marker) :
    R.Splits (es ++ [.popped R.source v c]) InHand (R.itemsOf c) := by
  obtain ⟨batches, items, h_pushed, h_hand, h_items⟩ := h
  exact ⟨batches, items, h_pushed.popped, h_hand,
    by rw [itemsIn_popped hv, h_items, List.append_nil]⟩

/-- An end marker brings no items. -/
theorem Splits.marker (h : R.Splits es InHand left) :
    R.Splits (es ++ [.popped q marker c]) InHand left := by
  obtain ⟨batches, items, h_pushed, h_hand, h_items⟩ := h
  exact ⟨batches, items, h_pushed.popped, h_hand, by rw [itemsIn_popped_marker, h_items]⟩

/-- Nor does a buffer from another queue. -/
theorem Splits.popped_of_ne (hq : q ≠ R.source) (h : R.Splits es InHand left) :
    R.Splits (es ++ [.popped q v c]) InHand left := by
  obtain ⟨batches, items, h_pushed, h_hand, h_items⟩ := h
  exact ⟨batches, items, h_pushed.popped, h_hand, by rw [itemsIn_popped_of_ne hq, h_items]⟩

/-- A buffer pushed to another queue is no batch. -/
theorem Splits.pushed_of_ne (hq : q ≠ R.sink) (h : R.Splits es InHand left) :
    R.Splits (es ++ [.pushed ⟨q, v, c⟩]) InHand left := by
  obtain ⟨batches, items, h_pushed, h_hand, h_items⟩ := h
  exact ⟨batches, items, h_pushed.pushed_of_ne hq, h_hand, by rw [itemsIn_pushed, h_items]⟩

/-- **One more item** is taken. -/
theorem Splits.next {i : ι} (h : R.Splits es InHand (i :: left))
    (h_hand : ∀ items, InHand items → InHand' (items ++ [i])) : R.Splits es InHand' left := by
  obtain ⟨batches, items, h_pushed, h_items, h_eq⟩ := h
  exact ⟨batches, items ++ [i], h_pushed, h_hand items h_items, by rw [h_eq]; simp⟩

/-- **A full batch** is pushed. -/
theorem Splits.pushed (h : R.Splits es (fun items => R.Full items ∧ R.Holds items c) left) :
    R.Splits (es ++ [.pushed ⟨R.sink, v, c⟩]) (fun items => items = []) left := by
  obtain ⟨batches, items, ⟨h_full, h_holds⟩, ⟨h_last, h_batch⟩, h_items⟩ := h
  refine ⟨batches ++ [items], [], ⟨fun batch hb => ?_, ?_⟩, rfl, ?_⟩
  · rcases List.mem_append.mp hb with hb | hb
    · exact h_full batch hb
    · rw [List.mem_singleton.mp hb]; exact h_last
  · rw [Event.outputs_pushed]
    exact List.rel_append h_holds (.cons h_batch .nil)
  · rw [itemsIn_pushed, h_items]
    simp

/-- Without items in hand all batches are full. -/
theorem Splits.chunked (h : R.Splits es (fun items => items = []) []) :
    ∃ batches, R.Chunks es Last batches := by
  obtain ⟨batches, items, ⟨h_full, h_holds⟩, rfl, h_items⟩ := h
  refine ⟨batches, by simp [h_items], fun batch hb => h_full batch (List.mem_of_mem_dropLast hb),
    fun batch hb => .inl (h_full batch (List.mem_of_getLast? hb)), h_holds⟩

/-- **The items in hand** are the last batch. -/
theorem Splits.chunked_pushed (h : R.Splits es (fun items => Last items ∧ R.Holds items c) []) :
    ∃ batches, R.Chunks (es ++ [.pushed ⟨R.sink, v, c⟩]) Last batches := by
  obtain ⟨batches, items, ⟨h_full, h_holds⟩, ⟨h_last, h_batch⟩, h_items⟩ := h
  refine ⟨batches ++ [items], ?_, ?_, ?_, ?_⟩
  · rw [itemsIn_pushed, h_items]
    simp
  · rw [List.dropLast_concat]
    exact h_full
  · intro batch hb
    rw [List.getLast?_concat, Option.mem_some_iff] at hb
    rw [← hb]
    exact .inr h_last
  · rw [Event.outputs_pushed]
    exact List.rel_append h_holds (.cons h_batch .nil)

/-! ### The batches are determined by the items -/

/-- Full batches, and what remains behind them, are pieces of the items. -/
theorem eq_take_drop_of_chunks {k : ℕ} {all : List ι} (h_first : batches.flatten <+: all)
    (h_full : ∀ batch ∈ batches.dropLast, batch.length = k)
    (h_last : ∀ batch ∈ batches.getLast?, batch.length = k ∨
      batch.length ≤ k ∧ batches.flatten = all)
    {i : ℕ} {batch : List ι} (h : batches[i]? = some batch) :
    batch = (all.drop (i * k)).take k := by
  induction batches generalizing i all with
  | nil => cases h
  | cons first batches ih =>
    cases batches with
    -- the only batch: full, or all there is
    | nil =>
      obtain ⟨rfl, rfl⟩ : i = 0 ∧ first = batch := by
        cases i with
        | zero => exact ⟨rfl, Option.some.inj h⟩
        | succ i => cases h
      rw [List.flatten_singleton] at h_first h_last
      rw [Nat.zero_mul, List.drop_zero]
      rcases h_last first rfl with h_length | ⟨h_length, rfl⟩
      · rw [← h_length]
        exact List.prefix_iff_eq_take.mp h_first
      · exact (List.take_of_length_le h_length).symm
    -- the first batch is full, so the others begin `k` items later
    | cons second batches =>
      rw [List.dropLast_cons_cons] at h_full
      obtain ⟨h_length, h_full⟩ := List.forall_mem_cons.mp h_full
      obtain ⟨rest, rfl⟩ := h_first
      rw [List.flatten_cons, List.append_assoc]
      cases i with
      | zero =>
        obtain rfl : first = batch := Option.some.inj h
        rw [Nat.zero_mul, List.drop_zero, List.take_left' h_length]
      | succ i =>
        have h_drop : (first ++ ((second :: batches).flatten ++ rest)).drop ((i + 1) * k)
            = ((second :: batches).flatten ++ rest).drop (i * k) := by
          rw [Nat.succ_mul, Nat.add_comm, ← List.drop_drop, List.drop_left' h_length]
        rw [h_drop]
        refine ih (List.prefix_append _ _) h_full (fun batch hb => ?_) h
        rw [List.getLast?_cons_cons] at h_last
        refine (h_last batch hb).imp id fun ⟨h_le, h_eq⟩ => ⟨h_le, ?_⟩
        rw [List.flatten_cons, List.append_assoc] at h_eq
        exact List.append_cancel_left h_eq

variable (R) in
/-- The output buffers hold the first pieces of `k` items each. -/
structure Cut (k : ℕ) (all : List ι) (es : List (Event β)) (batches : List (List ι)) : Prop where
  holds : List.Forall₂ R.Holds batches (Event.outputs R.sink es)
  piece : ∀ {i batch}, batches[i]? = some batch → batch = (all.drop (i * k)).take k
  ne_nil : ∀ batch ∈ batches, batch ≠ []

variable {k : ℕ} {all : List ι}

/-- The batches pushed so far. -/
theorem Splits.cut (h_full : ∀ items, R.Full items → items.length = k) (hk : 1 ≤ k)
    (h : R.Splits es InHand left) (h_items : R.itemsIn es <+: all) :
    ∃ batches, R.Cut k all es batches := by
  obtain ⟨batches, items, ⟨h_batches, h_holds⟩, -, h_eq⟩ := h
  have h_length : ∀ batch ∈ batches, batch.length = k := fun batch hb => h_full _ (h_batches _ hb)
  have h_first : batches.flatten <+: all := by
    rw [h_eq, List.append_assoc] at h_items
    exact (List.prefix_append _ _).trans h_items
  refine ⟨batches, h_holds, fun h => eq_take_drop_of_chunks h_first ?_ ?_ h, ?_⟩
  · exact fun batch hb => h_length batch (List.mem_of_mem_dropLast hb)
  · exact fun batch hb => .inl (h_length batch (List.mem_of_getLast? hb))
  · exact fun batch hb => List.ne_nil_of_length_pos (by rw [h_length batch hb]; exact hk)

/-- All batches. -/
theorem Chunks.cut (h_full : ∀ items, R.Full items → items.length = k) (hk : 1 ≤ k)
    (h_rest : ∀ items, Last items → 1 ≤ items.length ∧ items.length ≤ k)
    (h : R.Chunks es Last batches) :
    R.Cut k (R.itemsIn es) es batches ∧ (R.itemsIn es).length ≤ batches.length * k := by
  obtain ⟨h_items, h_batches, h_last, h_holds⟩ := h
  -- a batch is full or the last one
  have h_length : ∀ batch ∈ batches, 1 ≤ batch.length ∧ batch.length ≤ k := by
    have h_room : ∀ batch, R.Full batch → 1 ≤ batch.length ∧ batch.length ≤ k := fun batch hb => by
      rw [h_full batch hb]
      exact ⟨hk, le_rfl⟩
    intro batch hb
    rcases List.eq_nil_or_concat' batches with rfl | ⟨init, final, rfl⟩
    · cases hb
    · rw [List.dropLast_concat] at h_batches
      rcases List.mem_append.mp hb with hb | hb
      · exact h_room batch (h_batches batch hb)
      · rw [List.mem_singleton.mp hb]
        exact (h_last final List.getLast?_concat).elim (h_room final) (h_rest final)
  refine ⟨⟨h_holds, fun h => eq_take_drop_of_chunks (h_items ▸ List.prefix_rfl) ?_ ?_ h, ?_⟩, ?_⟩
  · exact fun batch hb => h_full batch (h_batches batch hb)
  · exact fun batch hb => .inr ⟨(h_length batch (List.mem_of_getLast? hb)).2, h_items⟩
  · exact fun batch hb => List.ne_nil_of_length_pos (h_length batch hb).1
  · rw [← h_items, List.length_flatten]
    have h_sum := List.sum_le_card_nsmul (batches.map List.length) k fun x hx => ?_
    · simpa using h_sum
    · obtain ⟨batch, hb, rfl⟩ := List.mem_map.mp hx
      exact (h_length batch hb).2

/-- An output buffer holds the piece with its number. -/
theorem Cut.holds_get (h : R.Cut k all es batches) {i : ℕ}
    (hc : (Event.outputs R.sink es)[i]? = some c) : R.Holds ((all.drop (i * k)).take k) c := by
  obtain ⟨h_lt, rfl⟩ := List.getElem?_eq_some_iff.mp hc
  have h_get := List.getElem?_eq_getElem (h.holds.length_eq.symm ▸ h_lt)
  rw [← h.piece h_get]
  exact h.holds.get _ h_lt

/-- Items that fit one batch are one. -/
theorem Cut.exists_single (h : R.Cut k all es batches) (h_le : all.length ≤ k) (h_ne : all ≠ [])
    (h_all : all.length ≤ batches.length * k) :
    ∃ c, Event.outputs R.sink es = [c] ∧ R.Holds all c := by
  have h_pos := List.length_pos_of_ne_nil h_ne
  have h_some : batches.length ≠ 0 := fun h_zero => by
    rw [h_zero, Nat.zero_mul] at h_all
    omega
  -- a second batch would be empty
  have h_one : batches.length ≤ 1 := by
    by_contra h_more
    have h_get := List.getElem?_eq_getElem (Nat.lt_of_not_le h_more)
    refine h.ne_nil _ (List.mem_of_getElem? h_get) ?_
    rw [h.piece h_get, Nat.one_mul, List.drop_eq_nil_of_le h_le, List.take_nil]
  obtain ⟨c, h_out⟩ := List.length_eq_one_iff.mp
    (h.holds.length_eq.symm.trans (le_antisymm h_one (Nat.one_le_iff_ne_zero.mpr h_some)))
  refine ⟨c, h_out, ?_⟩
  have h_holds := h.holds_get (i := 0) (by rw [h_out]; rfl)
  rwa [Nat.zero_mul, List.drop_zero, List.take_of_length_le h_le] at h_holds

/-- Two threads with the same items push as many batches. -/
theorem Cut.length_le {batches' : List (List ι)} (h : R.Cut k all es batches)
    (h_all : all.length ≤ batches'.length * k) : batches.length ≤ batches'.length := by
  by_contra h_lt
  have h_get := List.getElem?_eq_getElem (Nat.lt_of_not_le h_lt)
  refine h.ne_nil _ (List.mem_of_getElem? h_get) ?_
  rw [h.piece h_get, List.drop_eq_nil_of_le h_all, List.take_nil]

end Regrouping

/-! ### What a thread takes -/

/-- Everything taken from queue `q` is as it should be. -/
def Takes (q : ℕ) (ok : β → Prop) (es : List (Event β)) : Prop := ∀ c ∈ Event.inputs q es, ok c

variable {ok : β → Prop} {es es' : List (Event β)} {v : ℤ} {c : β} {q : ℕ}

/-- What holds of all that a thread takes holds of what it has taken before. -/
theorem Takes.of_append (h : Takes q ok (es ++ es')) : Takes q ok es := fun c hc => by
  refine h c ?_
  rw [Event.inputs, List.filterMap_append]
  exact List.mem_append_left _ hc

theorem Takes.popped (h : Takes q ok (es ++ [.popped q v c])) (hv : v ≠ marker) : ok c :=
  h c (by rw [Event.inputs_popped hv]; exact List.mem_append_right _ (List.mem_singleton_self c))

/-- What a thread takes is what it pops. -/
theorem Takes.of_popped (h : ∀ v c, Event.popped q v c ∈ es → ok c) : Takes q ok es := by
  intro c hc
  obtain ⟨e, he, h_content⟩ := List.mem_filterMap.mp hc
  cases e with
  | pushed e => cases h_content
  | popped q' v c' =>
    simp only [Event.contentPopped] at h_content
    split at h_content
    · next h_queue =>
      cases h_content
      exact h v c (h_queue.1 ▸ he)
    · cases h_content

theorem Takes.append (h : Takes q ok es) (h' : Takes q ok es') : Takes q ok (es ++ es') := by
  rw [Takes, Event.inputs, List.filterMap_append, List.forall_mem_append]
  exact ⟨h, h'⟩

theorem Takes.pushed {e : Push β} (h : Takes q ok es) : Takes q ok (es ++ [.pushed e]) := by
  rw [Takes, Event.inputs_pushed]
  exact h

/-- A thread that takes one more as it should be. -/
theorem Takes.pop (h : Takes q ok es) (h_ok : ok c) : Takes q ok (es ++ [.popped q v c]) := by
  by_cases hv : v = marker
  · rw [Takes, hv, Event.inputs_popped_marker]
    exact h
  · rw [Takes, Event.inputs_popped hv, List.forall_mem_append]
    exact ⟨h, List.forall_mem_singleton.mpr h_ok⟩

theorem Takes.pop_of_ne {q' : ℕ} (h : Takes q ok es) (hq : q' ≠ q) :
    Takes q ok (es ++ [.popped q' v c]) := by
  rw [Takes, Event.inputs_popped_of_ne hq]
  exact h

end Pipeline
