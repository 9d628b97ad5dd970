import Mathlib

/-!
# Actors

Actors that act on a shared state, one at a time and in any order. What an actor does next is a
function of the state, and it is nothing if the actor has to wait or has ended.

What every action preserves holds in all runs (`Reachable.invariant`). If there is a rank that every
action lowers, then no run is longer than the rank of the state it begins in (`Run.length_le`), so
what is left to ask is in which states nobody can act (`Halted`).
-/

namespace Actors

/-- What each actor does next. -/
abbrev System (A S : Type) : Type := A → S → Option S

variable {A S : Type} (M : System A S)

/-- Some actor acts. -/
def Next (s s' : S) : Prop := ∃ a, M a s = some s'

/-- A run leads from one state to the other. -/
def Reachable : S → S → Prop := Relation.ReflTransGen (Next M)

/-- A run of `k` actions. -/
inductive Run (s : S) : ℕ → S → Prop where
  | refl : Run s 0 s
  | tail {k : ℕ} {s₁ s₂ : S} : Run s k s₁ → Next M s₁ s₂ → Run s (k + 1) s₂

/-- No actor can act. -/
def Halted (s : S) : Prop := ∀ a, M a s = none

/-- The actors act in the given order. -/
def exec : S → List A → Option S
  | s, [] => some s
  | s, a :: as => (M a s).bind fun s' => exec s' as

variable {M} {s s' : S} {I : S → Prop}

theorem Run.reachable {k : ℕ} (h : Run M s k s') : Reachable M s s' := by
  induction h with
  | refl => exact .refl
  | tail _ h_next ih => exact ih.tail h_next

theorem Reachable.run (h : Reachable M s s') : ∃ k, Run M s k s' := by
  induction h with
  | refl => exact ⟨0, .refl⟩
  | tail _ h_next ih =>
    obtain ⟨k, h_run⟩ := ih
    exact ⟨k + 1, h_run.tail h_next⟩

theorem reachable_of_exec {as : List A} (h : exec M s as = some s') : Reachable M s s' := by
  induction as generalizing s with
  | nil =>
    cases h
    exact .refl
  | cons a as ih =>
    obtain ⟨s₁, h_act, h_rest⟩ := Option.bind_eq_some_iff.mp h
    exact .head ⟨a, h_act⟩ (ih h_rest)

/-- A schedule that ends in a state with a decidable property. -/
theorem exists_reachable_of_exec (as : List A) (p : S → Prop) [DecidablePred p]
    (h : ((exec M s as).any fun s' => decide (p s')) = true) : ∃ s', Reachable M s s' ∧ p s' := by
  rw [Option.any_eq_true] at h
  obtain ⟨s', h_run, h_test⟩ := h
  exact ⟨s', reachable_of_exec h_run, of_decide_eq_true h_test⟩

/-- What every action preserves holds in all runs. -/
theorem Reachable.invariant (h : Reachable M s s') (h_init : I s)
    (h_step : ∀ a s s', I s → M a s = some s' → I s') : I s' := by
  induction h with
  | refl => exact h_init
  | tail _ h_next ih =>
    obtain ⟨a, h_act⟩ := h_next
    exact h_step a _ _ ih h_act

section Rank

variable {rank : S → ℕ} (h_step : ∀ a s s', I s → M a s = some s' → I s')
  (h_rank : ∀ a s s', I s → M a s = some s' → rank s' < rank s)
include h_step h_rank

/-- No run is longer than the rank of its first state. -/
theorem Run.length_le {k : ℕ} (h : Run M s k s') (h_init : I s) : k + rank s' ≤ rank s := by
  induction h with
  | refl => exact (Nat.zero_add _).le
  | tail h_run h_next ih =>
    obtain ⟨a, h_act⟩ := h_next
    have h_lt := h_rank a _ _ (h_run.reachable.invariant h_init h_step) h_act
    omega

end Rank

/-- An actor that gets on lowers the sum of the ranks. -/
theorem sum_update_lt {ι X : Type} [DecidableEq ι] {f : X → ℕ} {g : ι → X} {S : Finset ι} {i : ι}
    (hi : i ∈ S) {x : X} (h_lt : f x < f (g i)) :
    ∑ j ∈ S, f (Function.update g i x j) < ∑ j ∈ S, f (g j) := by
  refine Finset.sum_lt_sum (fun j _ => ?_) ⟨i, hi, ?_⟩
  · by_cases h_eq : j = i
    · subst h_eq
      rw [Function.update_self]
      exact h_lt.le
    · rw [Function.update_of_ne h_eq]
  · rw [Function.update_self]
    exact h_lt

end Actors
