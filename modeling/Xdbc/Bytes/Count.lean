import Xdbc.Bytes.Grid

/-!
# Counting in a block of memory

How many bytes of a kind a block holds, for example other than zero. Writing adds at most as many as
are written (`countP_put_le`), and reading ranges that lie apart, such as the cells of a table,
finds at most as many as there are (`sum_countP_slices_le`, `Layout.countP_rows_le`).
-/

namespace Bytes

variable {α : Type} {p : α → Bool}

/-- Writing adds at most what is written. -/
theorem countP_put_le (xs : List α) (off : ℕ) (bs : List α) :
    (put xs off bs).countP p ≤ xs.countP p + bs.countP p := by
  induction xs generalizing off bs with
  | nil => exact Nat.zero_le _
  | cons x xs ih =>
    rcases off with _ | off
    · rcases bs with _ | ⟨b, bs⟩
      · exact Nat.le_add_right _ _
      · have h_rest := ih 0 bs
        rw [put, List.countP_cons, List.countP_cons, List.countP_cons]
        omega
    · have h_rest := ih off bs
      rw [put, List.countP_cons, List.countP_cons]
      omega

section Clear

variable {z : α} (hz : p z = false)

include hz

/-- A range that is cleared loses what it held. -/
theorem countP_slice_add_clear (xs : List α) (off len : ℕ) :
    (slice xs off len).countP p + (put xs off (List.replicate len z)).countP p = xs.countP p := by
  induction xs generalizing off len with
  | nil => simp [slice, put]
  | cons x xs ih =>
    rcases off with _ | off
    · rcases len with _ | len
      · simp [slice]
      · have h_rest := ih 0 len
        rw [slice, List.drop_zero] at h_rest
        rw [slice, List.drop_zero, List.take_succ_cons, List.replicate_succ, put, List.countP_cons,
          List.countP_cons, List.countP_cons, hz, if_neg Bool.false_ne_true]
        omega
    · have h_rest := ih off len
      rw [slice] at h_rest ⊢
      rw [List.drop_succ_cons, put, List.countP_cons, List.countP_cons]
      omega

/-- **Ranges that lie apart** do not hold more than the block. -/
theorem sum_countP_slices_le {cells : List (ℕ × ℕ)}
    (h_apart : cells.Pairwise fun c d => c.1 + c.2 ≤ d.1 ∨ d.1 + d.2 ≤ c.1) (xs : List α) :
    (cells.map fun c => (slice xs c.1 c.2).countP p).sum ≤ xs.countP p := by
  induction h_apart generalizing xs with
  | nil => exact Nat.zero_le _
  | @cons c cells h_first _ ih =>
    -- the other ranges are the same when the first one is cleared
    have h_same : (cells.map fun d => (slice xs d.1 d.2).countP p)
        = cells.map fun d =>
          (slice (put xs c.1 (List.replicate c.2 z)) d.1 d.2).countP p := by
      refine List.map_congr_left fun d hd => ?_
      rw [slice_put_disjoint]
      rw [List.length_replicate]
      exact (h_first d hd).symm
    have h_rest := ih (put xs c.1 (List.replicate c.2 z))
    have h_clear := countP_slice_add_clear hz xs c.1 c.2
    rw [List.map_cons, List.sum_cons, h_same]
    omega

/-- **The cells of a table** do not hold more than the block. -/
theorem Layout.countP_rows_le {t : Layout} {cs : List Column} (h_apart : cs.Pairwise Apart)
    (h_holds : ∀ c ∈ cs, t.Holds c) {k : ℕ} (hk : k ≤ t.rows) (xs : List α) :
    (((List.range k).map fun i => t.readRow cs i xs).flatten.flatten).countP p
      ≤ xs.countP p := by
  have h_cells : ((List.range k).flatMap fun i => cs.map fun c => (t.address c i, c.width)).Pairwise
      fun c d => c.1 + c.2 ≤ d.1 ∨ d.1 + d.2 ≤ c.1 := by
    refine List.pairwise_flatMap.mpr ⟨fun i hi => ?_, ?_⟩
    · have hi := List.mem_range.mp hi
      refine List.pairwise_map.mpr (h_apart.imp_of_mem fun {c d} hc hd h => ?_)
      exact (h_holds c hc).disjoint (h_holds d hd) (by omega) (by omega) (.inl h)
    · refine List.pairwise_lt_range.imp_of_mem fun {i j} hi hj h_lt => ?_
      have hi := List.mem_range.mp hi
      have hj := List.mem_range.mp hj
      simp only [List.mem_map]
      rintro _ ⟨c, hc, rfl⟩ _ ⟨d, hd, rfl⟩
      refine (h_holds c hc).disjoint (h_holds d hd) (by omega) (by omega) ?_
      by_cases h_eq : c = d
      · exact .inr ⟨by omega, h_eq⟩
      · exact .inl (h_apart.forall hc hd h_eq)
  refine le_trans (le_of_eq ?_) (sum_countP_slices_le hz h_cells xs)
  rw [List.countP_flatten, ← List.flatMap_def, List.map_flatMap, List.map_flatMap]
  simp only [readRow, List.map_map]
  rfl

end Clear

end Bytes
