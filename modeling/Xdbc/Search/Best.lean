import Mathlib

/-!
# The best candidate so far

A search that goes through its candidates and keeps one only if it is allowed and strictly better
than the one it has (`keep`). It ends with an allowed candidate of the largest value, or with none
if no allowed one is better than what the search starts with (`IsBest`).
-/

namespace Search

variable {α V : Type} [LinearOrder V]

section Keep

variable (value : α → V) (allowed : α → Prop) [DecidablePred allowed]

/-- One candidate. -/
def keep (acc : V × Option α) (c : α) : V × Option α :=
  if allowed c ∧ acc.1 < value c then (value c, some c) else acc

/-- What the search has after the candidates `cands`, when it started with `least`. -/
structure IsBest (least : V) (cands : List α) (acc : V × Option α) : Prop where
  value_le : ∀ c ∈ cands, allowed c → value c ≤ acc.1
  start_le : least ≤ acc.1
  found : acc = (least, none) ∨ ∃ c ∈ cands, allowed c ∧ acc = (value c, some c)

variable {value allowed} {least : V} {cands : List α} {acc : V × Option α} {c : α}

omit [DecidablePred allowed] in
theorem IsBest.start : IsBest value allowed least [] (least, none) :=
  ⟨fun _ h => absurd h List.not_mem_nil, le_rfl, .inl rfl⟩

/-- **One candidate more.** -/
theorem IsBest.keep (h : IsBest value allowed least cands acc) (c : α) :
    IsBest value allowed least (cands ++ [c]) (keep value allowed acc c) := by
  unfold Search.keep
  split
  · next h_better =>
    refine ⟨fun b hb h_allowed => ?_, h.start_le.trans h_better.2.le, .inr ⟨c, by simp,
      h_better.1, rfl⟩⟩
    rcases List.mem_append.mp hb with hb | hb
    · exact (h.value_le b hb h_allowed).trans h_better.2.le
    · rw [List.mem_singleton.mp hb]
  · next h_worse =>
    refine ⟨fun b hb h_allowed => ?_, h.start_le, ?_⟩
    · rcases List.mem_append.mp hb with hb | hb
      · exact h.value_le b hb h_allowed
      · rw [List.mem_singleton.mp hb] at h_allowed ⊢
        exact not_lt.mp fun h_lt => h_worse ⟨h_allowed, h_lt⟩
    · rcases h.found with h_none | ⟨b, hb, h_rest⟩
      · exact .inl h_none
      · exact .inr ⟨b, List.mem_append_left _ hb, h_rest⟩

/-- **The search finds the best candidate.** -/
theorem isBest_foldl (value : α → V) (allowed : α → Prop) [DecidablePred allowed] (least : V)
    (cands : List α) : IsBest value allowed least cands
      (cands.foldl (Search.keep value allowed) (least, none)) := by
  induction cands using List.reverseRecOn with
  | nil => exact .start
  | append_singleton cands c ih =>
    rw [List.foldl_append]
    exact ih.keep c

end Keep

/-- A loop in which nothing fails. -/
theorem foldlM_eq_some {β : Type} {f : β → α → Option β} {g : β → α → β} {l : List α}
    (h : ∀ a ∈ l, ∀ b, f b a = some (g b a)) (b : β) :
    l.foldlM f b = some (l.foldl g b) := by
  induction l generalizing b with
  | nil => rfl
  | cons a l ih =>
    rw [List.foldlM_cons, h a List.mem_cons_self]
    exact ih (fun a ha => h a (List.mem_cons_of_mem _ ha)) (g b a)

end Search
