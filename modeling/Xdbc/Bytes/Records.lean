import Xdbc.Bytes.Text

/-!
# The records of a stream

`getline` takes one record after the other from a stream. A record ends at a newline, or where the
stream does, so a stream has one record for each newline and one more if anything is left behind the
last one (`length_records`).
-/

namespace Bytes

/-- What `getline` leaves is shorter. -/
theorem length_of_getline {s text rest : List UInt8} (h : getline s = some (text, rest)) :
    rest.length < s.length := by
  unfold getline at h
  split at h
  · cases h
  · next h_ne =>
    cases h
    have h_pos := List.length_pos_of_ne_nil h_ne
    have h_le := (List.dropWhile_sublist (fun b => b ≠ newline) (l := s)).length_le
    rw [List.length_tail]
    omega

/-- The records `getline` yields on the stream, up to its end. -/
def records (s : List UInt8) : List (List UInt8) :=
  match _h : getline s with
  | none => []
  | some (text, rest) => text :: records rest
termination_by s.length
decreasing_by exact length_of_getline _h

/-- Nothing stands behind the last newline of the stream. -/
def Terminated (s : List UInt8) : Prop := s = [] ∨ s.getLast? = some newline

instance (s : List UInt8) : Decidable (Terminated s) := inferInstanceAs (Decidable (_ ∨ _))

theorem records_of_none {s : List UInt8} (h : getline s = none) : records s = [] := by
  rw [records]
  split
  · rfl
  · next h_some => rw [h] at h_some; cases h_some

theorem records_of_some {s text rest : List UInt8} (h : getline s = some (text, rest)) :
    records s = text :: records rest := by
  rw [records]
  split
  · next h_none => rw [h] at h_none; cases h_none
  · next h_some => rw [h] at h_some; cases h_some; rfl

/-- The first record ends at the first newline. -/
theorem getline_append {text : List UInt8} (h : newline ∉ text) (rest : List UInt8) :
    getline (text ++ newline :: rest) = some (text, rest) := by
  have h_text : ∀ b ∈ text, decide (b ≠ newline) = true := fun b hb => by
    simpa using ne_of_mem_of_not_mem hb h
  rw [getline, if_neg (by simp), List.takeWhile_append_of_pos h_text,
    List.dropWhile_append_of_pos h_text]
  simp

/-- Without a newline the whole stream is one record. -/
theorem getline_of_notMem {s : List UInt8} (h : newline ∉ s) (h_ne : s ≠ []) :
    getline s = some (s, []) := by
  have h_all : ∀ b ∈ s, decide (b ≠ newline) = true := fun b hb => by
    simpa using ne_of_mem_of_not_mem hb h
  rw [getline, if_neg h_ne, List.takeWhile_eq_self_iff.mpr h_all,
    List.dropWhile_eq_nil_iff.mpr h_all]
  rfl

theorem terminated_append_newline (text rest : List UInt8) :
    Terminated (text ++ newline :: rest) ↔ Terminated rest := by
  unfold Terminated
  cases rest with
  | nil => simp
  | cons b rest => simp

/-- **A stream has one record for each newline**, and one more if it is not terminated. -/
theorem length_records (s : List UInt8) :
    (records s).length = s.count newline + if Terminated s then 0 else 1 := by
  induction h_length : s.length using Nat.strong_induction_on generalizing s with
  | _ k ih =>
  by_cases h_mem : newline ∈ s
  · obtain ⟨text, rest, rfl, h_text⟩ := List.eq_append_cons_of_mem h_mem
    have h_rest := ih rest.length (by rw [← h_length]; simp; omega) rest rfl
    rw [records_of_some (getline_append h_text rest), List.length_cons, h_rest,
      List.count_append, List.count_cons_self, List.count_eq_zero.mpr h_text]
    simp only [terminated_append_newline]
    omega
  · by_cases h_nil : s = []
    · subst h_nil
      rw [records_of_none rfl, if_pos (.inl rfl)]
      rfl
    · have h_not : ¬ Terminated s := by
        rintro (h_eq | h_last)
        · exact h_nil h_eq
        · exact h_mem (List.mem_of_getLast? h_last)
      rw [records_of_some (getline_of_notMem h_mem h_nil), records_of_none rfl, if_neg h_not,
        List.count_eq_zero.mpr h_mem]
      rfl

end Bytes
