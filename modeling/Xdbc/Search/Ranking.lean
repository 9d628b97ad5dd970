import Mathlib

/-!
# Ranking by value

A dictionary is sorted by its values with a stable sort, so its first key is the one with the least
value, and the first of those (`IsFirst`). There is only one (`IsFirst.unique`), and no other key
has a smaller value than the second one (`second_le`).
-/

namespace Search

variable {K V : Type} [LinearOrder V]

/-- The keys in the order of their values, where equal ones stay in the order they have. -/
def ranked (data : K → V) (keys : List K) : List K :=
  keys.insertionSort fun j k => data j ≤ data k

variable {data : K → V} {keys : List K} {j k : K}

theorem ranked_perm (data : K → V) (keys : List K) : (ranked data keys).Perm keys :=
  keys.perm_insertionSort _

theorem mem_ranked (data : K → V) : k ∈ ranked data keys ↔ k ∈ keys := (ranked_perm data keys).mem_iff

/-- The values do not decrease. -/
theorem ranked_pairwise (data : K → V) (keys : List K) :
    (ranked data keys).Pairwise fun j k => data j ≤ data k := by
  have : Std.Total fun j k : K => data j ≤ data k := ⟨fun j k => le_total (data j) (data k)⟩
  have : IsTrans K fun j k : K => data j ≤ data k := ⟨fun _ _ _ => le_trans⟩
  exact keys.pairwise_insertionSort _

/-- Two different keys are ranked one after the other. -/
theorem exists_first_two (hj : j ∈ keys) (hk : k ∈ keys) (h_ne : j ≠ k) :
    ∃ a b rest, ranked data keys = a :: b :: rest := by
  have hj' := (mem_ranked data).mpr hj
  have hk' := (mem_ranked data).mpr hk
  cases h_ranked : ranked data keys with
  | nil =>
    rw [h_ranked] at hj'
    cases hj'
  | cons a rest =>
    cases rest with
    | nil =>
      rw [h_ranked, List.mem_singleton] at hj' hk'
      exact absurd (hj'.trans hk'.symm) h_ne
    | cons b rest => exact ⟨a, b, rest, rfl⟩

/-- The second value is the least of the others. -/
theorem second_le {a b : K} {rest : List K} (h_ranked : ranked data keys = a :: b :: rest)
    (hk : k ∈ keys) (h_ne : k ≠ a) : data b ≤ data k := by
  have h_mem : k ∈ b :: rest := by
    have h_all := (mem_ranked data).mpr hk
    rw [h_ranked] at h_all
    exact (List.mem_cons.mp h_all).resolve_left h_ne
  have h_pairwise := ranked_pairwise data keys
  rw [h_ranked] at h_pairwise
  rcases List.mem_cons.mp h_mem with rfl | h_rest
  · exact le_rfl
  · exact (List.pairwise_cons.mp (List.pairwise_cons.mp h_pairwise).2).1 k h_rest

variable [LinearOrder K]

/-- The key `k` has the least value, and the keys in front of it have a larger one. -/
structure IsFirst (data : K → V) (keys : List K) (k : K) : Prop where
  mem : k ∈ keys
  le : ∀ j ∈ keys, data k ≤ data j
  lt : ∀ j ∈ keys, j < k → data k < data j

/-- There is only one such key. -/
theorem IsFirst.unique (hj : IsFirst data keys j) (hk : IsFirst data keys k) : j = k := by
  rcases lt_trichotomy j k with h | h | h
  · exact absurd (hk.lt j hj.mem h) (not_lt.mpr (hj.le k hk.mem))
  · exact h
  · exact absurd (hj.lt k hk.mem h) (not_lt.mpr (hk.le j hj.mem))

/-- **The sort is stable**: its first key is the first of the least ones. -/
theorem isFirst_of_head (h_keys : keys.Pairwise (· < ·))
    (h_head : (ranked data keys).head? = some k) : IsFirst data keys k := by
  induction keys generalizing k with
  | nil => cases h_head
  | cons a keys ih =>
    obtain ⟨h_front, h_keys⟩ := List.pairwise_cons.mp h_keys
    have h_ranked : ranked data (a :: keys)
        = (ranked data keys).orderedInsert (fun j k => data j ≤ data k) a := rfl
    rw [h_ranked] at h_head
    cases h_rest : ranked data keys with
    | nil =>
      rw [h_rest] at h_head
      cases h_head
      have h_empty : keys = [] := List.Perm.nil_eq (h_rest ▸ ranked_perm data keys) |>.symm
      subst h_empty
      exact ⟨List.mem_singleton_self _, by simp, by simp⟩
    | cons b rest =>
      have hb : IsFirst data keys b := ih h_keys (by rw [h_rest]; rfl)
      rw [h_rest, List.orderedInsert_cons] at h_head
      split at h_head
      · next h_le =>
        -- the new key is put in front of the keys it equals
        cases h_head
        refine ⟨List.mem_cons_self, fun j hj => ?_, fun j hj h_lt => ?_⟩
        · rcases List.mem_cons.mp hj with rfl | hj
          · exact le_rfl
          · exact h_le.trans (hb.le j hj)
        · rcases List.mem_cons.mp hj with rfl | hj
          · exact absurd h_lt (lt_irrefl _)
          · exact absurd h_lt (lt_asymm (h_front j hj))
      · next h_gt =>
        -- the new key is greater than the first of the others, and comes behind it
        cases h_head
        refine ⟨List.mem_cons_of_mem _ hb.mem, fun j hj => ?_, fun j hj h_lt => ?_⟩
        · rcases List.mem_cons.mp hj with rfl | hj
          · exact (not_le.mp h_gt).le
          · exact hb.le j hj
        · rcases List.mem_cons.mp hj with rfl | hj
          · exact not_le.mp h_gt
          · exact hb.lt j hj h_lt

end Search
