import Mathlib

/-!
# A block of memory

A block is a list of cells. `put` overwrites a range and `slice` reads one; both keep inside the
block: `put` drops what would lie beyond the end, and `slice` stops there.
-/

namespace Bytes

variable {α : Type}

/-- Overwrite the block `xs` with `bs` from offset `off` on. -/
def put : List α → ℕ → List α → List α
  | [], _, _ => []
  | x :: xs, off + 1, bs => x :: put xs off bs
  | x :: xs, 0, [] => x :: xs
  | _ :: xs, 0, b :: bs => b :: put xs 0 bs

/-- The `len` cells of the block `xs` from offset `off` on. -/
def slice (xs : List α) (off len : ℕ) : List α := (xs.drop off).take len

theorem getElem?_put (xs : List α) (off : ℕ) (bs : List α) (i : ℕ) :
    (put xs off bs)[i]?
      = if off ≤ i ∧ i < off + bs.length ∧ i < xs.length then bs[i - off]? else xs[i]? := by
  induction xs generalizing off bs i with
  | nil => simp [put]
  | cons x xs ih =>
    match off, bs, i with
    | off + 1, bs, 0 => simp [put]
    | off + 1, bs, i + 1 =>
      simp only [put, List.getElem?_cons_succ, ih, List.length_cons, Nat.add_lt_add_iff_right,
        Nat.add_le_add_iff_right, Nat.add_sub_add_right]
      refine if_congr ?_ rfl rfl
      omega
    | 0, [], i => simp [put]
    | 0, b :: bs, 0 => simp [put]
    | 0, b :: bs, i + 1 =>
      simp only [put, List.getElem?_cons_succ, ih, List.length_cons, Nat.add_lt_add_iff_right,
        Nat.zero_le, true_and, Nat.sub_zero, Nat.zero_add]

@[simp] theorem length_put (xs : List α) (off : ℕ) (bs : List α) :
    (put xs off bs).length = xs.length := by
  induction xs generalizing off bs with
  | nil => rfl
  | cons x xs ih => rcases off with _ | off <;> rcases bs with _ | ⟨b, bs⟩ <;> simp [put, ih]

@[simp] theorem put_nil (xs : List α) (off : ℕ) : put xs off [] = xs := by
  induction xs generalizing off with
  | nil => rfl
  | cons x xs ih => rcases off with _ | off <;> simp [put, ih]

theorem getElem?_slice (xs : List α) (off len i : ℕ) :
    (slice xs off len)[i]? = if i < len then xs[off + i]? else none := by
  simp [slice, List.getElem?_take, List.getElem?_drop]

/-- What was written is read back. -/
theorem slice_put_same {xs : List α} {off : ℕ} {bs : List α} (h : off + bs.length ≤ xs.length) :
    slice (put xs off bs) off bs.length = bs := by
  refine List.ext_getElem? fun i => ?_
  rw [getElem?_slice, getElem?_put]
  split
  · rw [if_pos (by omega), Nat.add_sub_cancel_left]
  · rw [List.getElem?_eq_none (by omega)]

/-- A range apart from the one written is unchanged. -/
theorem slice_put_disjoint {xs : List α} {off : ℕ} {bs : List α} {off' len : ℕ}
    (h : off' + len ≤ off ∨ off + bs.length ≤ off') :
    slice (put xs off bs) off' len = slice xs off' len := by
  refine List.ext_getElem? fun i => ?_
  rw [getElem?_slice, getElem?_slice, getElem?_put]
  split
  · rw [if_neg (by omega)]
  · rfl

/-- A second write to the same place leaves the rest of a longer first one. -/
theorem put_put_of_le {xs as bs : List α} {off : ℕ} (h : bs.length ≤ as.length) :
    put (put xs off as) off bs = put xs off (bs ++ as.drop bs.length) := by
  refine List.ext_getElem? fun i => ?_
  have h_length : (bs ++ as.drop bs.length).length = as.length := by simp; omega
  rw [getElem?_put, getElem?_put, getElem?_put, length_put, h_length, List.getElem?_append,
    List.getElem?_drop]
  by_cases hi : off ≤ i ∧ i < off + as.length ∧ i < xs.length
  · rw [if_pos hi]
    by_cases h_second : i < off + bs.length
    · rw [if_pos ⟨hi.1, h_second, hi.2.2⟩, if_pos hi, if_pos (by omega)]
    · rw [if_neg (by omega), if_pos hi, if_neg (by omega)]
      congr 1
      omega
  · rw [if_neg hi, if_neg (by omega), if_neg hi]

/-- A range inside a prefix is read from the prefix. -/
theorem slice_take {xs : List α} {k off len : ℕ} (h : off + len ≤ k) :
    slice (xs.take k) off len = slice xs off len := by
  refine List.ext_getElem? fun i => ?_
  rw [getElem?_slice, getElem?_slice]
  split
  · rw [List.getElem?_take, if_pos (by omega)]
  · rfl

theorem slice_zero (xs : List α) (len : ℕ) : slice xs 0 len = xs.take len := rfl

/-- A prefix read back after a write at the beginning. -/
theorem take_put_zero {xs bs : List α} (h : bs.length ≤ xs.length) :
    (put xs 0 bs).take bs.length = bs := by
  rw [← slice_zero, slice_put_same (by omega)]

/-- Appending to a written prefix extends it. -/
theorem take_put_append {xs as bs : List α} (h_as : xs.take as.length = as)
    (h : as.length + bs.length ≤ xs.length) :
    (put xs as.length bs).take (as.length + bs.length) = as ++ bs := by
  refine List.ext_getElem? fun i => ?_
  rw [List.getElem?_take, getElem?_put, List.getElem?_append]
  have h_front : i < as.length → xs[i]? = as[i]? := by
    intro hi
    have h := congrArg (·[i]?) h_as
    simpa [List.getElem?_take, hi] using h
  by_cases hi : i < as.length
  · rw [if_pos (by omega), if_neg (by omega), if_pos hi, h_front hi]
  · by_cases hlt : i < as.length + bs.length
    · rw [if_pos hlt, if_pos (by omega), if_neg hi]
    · rw [if_neg hlt, if_neg hi, List.getElem?_eq_none (by omega)]

end Bytes
