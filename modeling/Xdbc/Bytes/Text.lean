import Mathlib

/-!
# Text in memory

The C library functions on character ranges, over lists of bytes: `strchr`, `strnlen`, and the
line-wise reading of a stream by `getline`.
-/

namespace Bytes

/-- The byte `'\n'`. -/
def newline : UInt8 := 10

/-- `strchr(s, c) - s`, or `none` where a NUL comes first or the memory ends. -/
def strchr (c : UInt8) : List UInt8 → Option ℕ
  | [] => none
  | b :: s => if b = c then some 0 else if b = 0 then none else (strchr c s).map (· + 1)

/-- `strchr` stops at the delimiter behind a text that contains neither it nor a NUL. -/
theorem strchr_append {c : UInt8} {field : List UInt8} (hc : c ∉ field) (h0 : (0 : UInt8) ∉ field)
    (rest : List UInt8) : strchr c (field ++ c :: rest) = some field.length := by
  induction field with
  | nil => simp [strchr]
  | cons b field ih =>
    rw [List.mem_cons, not_or] at hc h0
    rw [List.cons_append, strchr, if_neg (Ne.symm hc.1), if_neg (Ne.symm h0.1), ih hc.2 h0.2]
    rfl

/-- What `strchr` has passed over contains neither the delimiter nor a NUL. -/
theorem eq_of_strchr {c : UInt8} {s : List UInt8} {len : ℕ} (h : strchr c s = some len) :
    s = s.take len ++ c :: s.drop (len + 1) ∧ c ∉ s.take len ∧ (c ≠ 0 → (0 : UInt8) ∉ s.take len) := by
  induction s generalizing len with
  | nil => cases h
  | cons b s ih =>
    rw [strchr] at h
    split at h
    · next hb => cases h; simp [hb]
    · next hb =>
      split at h
      · cases h
      · next h0 =>
        obtain ⟨l, hl, rfl⟩ := Option.map_eq_some_iff.mp h
        obtain ⟨h_eq, h_c, h_nul⟩ := ih hl
        refine ⟨?_, ?_, fun hc => ?_⟩
        · rw [List.take_succ_cons, List.drop_succ_cons, List.cons_append, ← h_eq]
        · rw [List.take_succ_cons, List.mem_cons, not_or]
          exact ⟨Ne.symm hb, h_c⟩
        · rw [List.take_succ_cons, List.mem_cons, not_or]
          exact ⟨Ne.symm h0, h_nul hc⟩

/-- `strnlen(s, n)`. -/
def strnlen (s : List UInt8) (n : ℕ) : ℕ := ((s.take n).takeWhile (· ≠ 0)).length

/-- A text padded with NULs to at most `n` bytes has the length of the text. -/
theorem strnlen_padded {field : List UInt8} {n : ℕ} (h0 : (0 : UInt8) ∉ field)
    (hn : field.length ≤ n) :
    strnlen (field ++ List.replicate (n - field.length) 0) n = field.length := by
  have h_field : field.takeWhile (· ≠ 0) = field :=
    List.takeWhile_eq_self_iff.mpr fun b hb => by simpa using ne_of_mem_of_not_mem hb h0
  have h_pad : (List.replicate (n - field.length) (0 : UInt8)).takeWhile (· ≠ 0) = [] := by
    cases n - field.length <;> simp [List.replicate_succ]
  rw [strnlen, List.take_of_length_le (by simp; omega), List.takeWhile_append, h_field, h_pad]
  simp

/-- `std::getline`: the next line without its newline, and what is left of the stream. -/
def getline (file : List UInt8) : Option (List UInt8 × List UInt8) :=
  if file = [] then none
  else some (file.takeWhile (· ≠ newline), (file.dropWhile (· ≠ newline)).tail)

@[simp] theorem getline_nil : getline [] = none := rfl

/-- The stream that consists of the given lines, each followed by a newline. -/
def unlines (lines : List (List UInt8)) : List UInt8 := lines.flatMap (· ++ [newline])

@[simp] theorem unlines_nil : unlines [] = [] := rfl

theorem unlines_cons (line : List UInt8) (lines : List (List UInt8)) :
    unlines (line :: lines) = line ++ newline :: unlines lines := by
  simp [unlines]

theorem unlines_append (ls ls' : List (List UInt8)) :
    unlines (ls ++ ls') = unlines ls ++ unlines ls' := by
  simp [unlines]

/-- `getline` takes the first line off a stream of lines. -/
theorem getline_unlines {line : List UInt8} (h : newline ∉ line) (lines : List (List UInt8)) :
    getline (unlines (line :: lines)) = some (line, unlines lines) := by
  have h_line : ∀ b ∈ line, decide (b ≠ newline) = true := fun b hb => by
    simpa using ne_of_mem_of_not_mem hb h
  have h_ne : unlines (line :: lines) ≠ [] := by rw [unlines_cons]; simp
  rw [getline, if_neg h_ne, unlines_cons, List.takeWhile_append_of_pos h_line,
    List.dropWhile_append_of_pos h_line]
  simp

/-- The lines of a text. What stands behind the last newline is no line. -/
def lines (text : List UInt8) : List (List UInt8) := (text.splitOn newline).dropLast

@[simp] theorem lines_nil : lines [] = [] := rfl

theorem lines_cons {line : List UInt8} (h : newline ∉ line) (text : List UInt8) :
    lines (line ++ newline :: text) = line :: lines text := by
  rw [lines, List.splitOn_append_cons_self_of_not_mem h, List.dropLast_cons_of_ne_nil
    (List.splitOn_ne_nil _ _)]
  rfl

/-- The lines put together are found again. -/
theorem lines_unlines_append {ls : List (List UInt8)} (h : ∀ line ∈ ls, newline ∉ line)
    (text : List UInt8) : lines (unlines ls ++ text) = ls ++ lines text := by
  induction ls with
  | nil => rfl
  | cons line ls ih =>
    rw [unlines_cons, List.append_assoc, List.cons_append, lines_cons (h line List.mem_cons_self),
      ih fun l hl => h l (List.mem_cons_of_mem _ hl), List.cons_append]

theorem lines_unlines {ls : List (List UInt8)} (h : ∀ line ∈ ls, newline ∉ line) :
    lines (unlines ls) = ls := by
  have h_lines := lines_unlines_append h []
  rwa [List.append_nil, lines_nil, List.append_nil] at h_lines

end Bytes
