import Xdbc.Pipeline.Regroup

/-!
# Packing

A thread takes items one by one, wherever it has them from, and pushes them in groups, one group to
a buffer. `Packing` says to which queue, and when a buffer holds a group.

At any point of the loop the items are those of the groups already pushed, the items in hand and the
items that are still ahead (`Packing.Splits`). An item goes from one of these places to the next; an
item that comes in goes to the last one (`Splits.more`).
-/

namespace Pipeline

variable {β ι : Type}

/-! ### What a thread takes from a queue -/

namespace Event

/-- The item, if one other than the end marker is popped from queue `q`. -/
def itemTaken (q : ℕ) : Event β → Option ℤ
  | popped q' v _ => if q' = q ∧ v ≠ marker then some v else none
  | pushed _ => none

/-- The items popped from queue `q`, in order. -/
def taken (q : ℕ) (es : List (Event β)) : List ℤ := es.filterMap (itemTaken q)

variable {q q' : ℕ} {es : List (Event β)} {v : ℤ} {c : β} {e : Push β}

@[simp] theorem taken_nil : taken q ([] : List (Event β)) = [] := rfl

theorem taken_popped (hv : v ≠ marker) : taken q (es ++ [.popped q v c]) = taken q es ++ [v] := by
  simp [taken, itemTaken, hv]

@[simp] theorem taken_popped_marker : taken q (es ++ [.popped q' marker c]) = taken q es := by
  simp [taken, itemTaken]

theorem taken_popped_of_ne (h : q' ≠ q) : taken q (es ++ [.popped q' v c]) = taken q es := by
  simp [taken, itemTaken, h]

@[simp] theorem taken_pushed : taken q (es ++ [.pushed e]) = taken q es := by
  simp [taken, itemTaken]

/-- What is popped from other queues is not taken from this one. -/
theorem taken_eq_nil (h : ∀ q' v c, popped q' v c ∈ es → q' ≠ q) : taken q es = [] := by
  refine List.filterMap_eq_nil_iff.mpr fun e he => ?_
  cases e with
  | pushed e => rfl
  | popped q' v c => simp [itemTaken, h q' v c he]

end Event

/-! ### Groups in buffers -/

/-- How items are packed into buffers. -/
structure Packing (β ι : Type) where
  sink : ℕ
  /-- The buffer holds the group. -/
  Holds : List ι → β → Prop

namespace Packing

variable (P : Packing β ι)

/-- The buffers pushed hold the groups, in order. -/
def Packs (es : List (Event β)) (groups : List (List ι)) : Prop :=
  List.Forall₂ P.Holds groups (Event.outputs P.sink es)

/-- The items are those pushed, those in hand, of which `InHand` is known, and those ahead. -/
def Splits (es : List (Event β)) (InHand : List ι → Prop) (items ahead : List ι) : Prop :=
  ∃ groups hand, P.Packs es groups ∧ InHand hand ∧ items = groups.flatten ++ hand ++ ahead

variable {P} {es : List (Event β)} {InHand InHand' : List ι → Prop} {items ahead new : List ι}
  {groups : List (List ι)} {q : ℕ} {v : ℤ} {c : β}

theorem Packs.popped (h : P.Packs es groups) : P.Packs (es ++ [.popped q v c]) groups := by
  rw [Packs, Event.outputs_popped]
  exact h

theorem Splits.imp (h : P.Splits es InHand items ahead)
    (h_imp : ∀ hand, InHand hand → InHand' hand) : P.Splits es InHand' items ahead := by
  obtain ⟨groups, hand, h_packs, h_hand, h_items⟩ := h
  exact ⟨groups, hand, h_packs, h_imp hand h_hand, h_items⟩

/-- Before anything is pushed there is nothing in hand. -/
theorem Splits.first (h_out : Event.outputs P.sink es = []) (h_nil : InHand []) :
    P.Splits es InHand [] [] :=
  ⟨[], [], by rw [Packs, h_out]; exact .nil, h_nil, rfl⟩

/-- A pop leaves the items where they are. -/
theorem Splits.popped (h : P.Splits es InHand items ahead) :
    P.Splits (es ++ [.popped q v c]) InHand items ahead := by
  obtain ⟨groups, hand, h_packs, h_hand, h_items⟩ := h
  exact ⟨groups, hand, h_packs.popped, h_hand, h_items⟩

/-- **More items** come in when none are ahead. -/
theorem Splits.more (h : P.Splits es InHand items []) (new : List ι) :
    P.Splits es InHand (items ++ new) new := by
  obtain ⟨groups, hand, h_packs, h_hand, h_items⟩ := h
  refine ⟨groups, hand, h_packs, h_hand, ?_⟩
  rw [h_items, List.append_nil]

/-- **The next item** is taken in hand. -/
theorem Splits.next {i : ι} (h : P.Splits es InHand items (i :: ahead))
    (h_hand : ∀ hand, InHand hand → InHand' (hand ++ [i])) : P.Splits es InHand' items ahead := by
  obtain ⟨groups, hand, h_packs, h_in, h_items⟩ := h
  refine ⟨groups, hand ++ [i], h_packs, h_hand hand h_in, ?_⟩
  rw [h_items]
  simp

/-- **A group** is pushed. -/
theorem Splits.pushed (h : P.Splits es (fun hand => P.Holds hand c) items ahead) :
    P.Splits (es ++ [.pushed ⟨P.sink, v, c⟩]) (fun hand => hand = []) items ahead := by
  obtain ⟨groups, hand, h_packs, h_holds, h_items⟩ := h
  refine ⟨groups ++ [hand], [], ?_, rfl, ?_⟩
  · rw [Packs, Event.outputs_pushed]
    exact List.rel_append h_packs (.cons h_holds .nil)
  · rw [h_items]
    simp

/-- What is pushed are the first of the items. -/
theorem Splits.packs (h : P.Splits es InHand items ahead) :
    ∃ groups, P.Packs es groups ∧ groups.flatten <+: items := by
  obtain ⟨groups, hand, h_packs, -, h_items⟩ := h
  refine ⟨groups, h_packs, hand ++ ahead, ?_⟩
  rw [h_items, List.append_assoc]

/-- **With nothing in hand and nothing ahead** all items are pushed. -/
theorem Splits.packs_all (h : P.Splits es (fun hand => hand = []) items []) :
    ∃ groups, P.Packs es groups ∧ groups.flatten = items := by
  obtain ⟨groups, hand, h_packs, rfl, h_items⟩ := h
  refine ⟨groups, h_packs, ?_⟩
  rw [h_items, List.append_nil, List.append_nil]

end Packing

end Pipeline
