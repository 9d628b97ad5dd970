import Xdbc.Bytes.Memory

/-!
# Escaped texts in fields of a fixed size

A producer puts an escape character in front of every special character of a text (`escape`), and a
consumer that knows nothing of it copies the text to a field of `n` characters, which cuts it off or
pads it (`padded`).

The field holds the text itself exactly if the text `Survives`: it has no special character but the
escape character, and where this one occurs the rest of the field is made of it (`padded_escape_iff`).
Then what is cut off is the second half of the doubled characters.
-/

namespace Bytes

variable {α : Type}

/-! ### Fields of a fixed size -/

/-- The text in a field of `n` characters. -/
def padded (z : α) (n : ℕ) (text : List α) : List α := (text ++ List.replicate n z).take n

variable {z : α} {n : ℕ} {text : List α}

@[simp] theorem padded_zero : padded z 0 text = [] := List.take_zero

theorem padded_nil_succ : padded z (n + 1) [] = z :: padded z n [] := by
  simp [padded, List.replicate_succ]

theorem padded_cons_succ (b : α) : padded z (n + 1) (b :: text) = b :: padded z n text := by
  rw [padded, List.replicate_succ', List.cons_append, List.take_succ_cons, ← List.append_assoc,
    List.take_append_of_le_length (by simp), padded]

/-- A text that fits is padded. -/
theorem padded_eq_append (h : text.length ≤ n) :
    padded z n text = text ++ List.replicate (n - text.length) z := by
  rw [padded, List.take_append, List.take_of_length_le h, List.take_replicate, Nat.min_eq_left
    (Nat.sub_le _ _)]

theorem mem_padded_of_length_le (h : text.length ≤ n) {b : α} (hb : b ∈ text) :
    b ∈ padded z n text := by
  rw [padded_eq_append h]
  exact List.mem_append_left _ hb

theorem mem_text_of_mem_padded {b : α} (hb : b ∈ padded z n text) (hz : b ≠ z) : b ∈ text := by
  rcases List.mem_append.mp (List.mem_of_mem_take hb) with h_text | h_pad
  · exact h_text
  · exact absurd (List.eq_of_mem_replicate h_pad) hz

/-- A text that is copied over its cleared field. -/
theorem slice_put_padded {xs : List α} {off : ℕ} (h : off + n ≤ xs.length) (text : List α) :
    slice (put (put xs off (List.replicate n z)) off text) off n = padded z n text := by
  refine List.ext_getElem? fun i => ?_
  rw [getElem?_slice, padded, List.getElem?_take]
  split
  · rw [getElem?_put, getElem?_put, length_put, List.length_replicate, List.getElem?_append,
      List.getElem?_replicate, List.getElem?_replicate]
    by_cases hi : i < text.length
    · rw [if_pos ⟨by omega, by omega, by omega⟩, if_pos hi, Nat.add_sub_cancel_left]
    · rw [if_neg (by omega), if_pos ⟨by omega, by omega, by omega⟩, if_neg hi, if_pos (by omega),
        if_pos (by omega)]
  · rfl

/-! ### Escaping -/

variable (esc : α) (special : α → Option α)

/-- A character of the text: a special one becomes the escape character and its substitute. -/
def escapeChar (b : α) : List α :=
  match special b with
  | some c => [esc, c]
  | none => [b]

/-- The text with its special characters escaped. -/
def escape (text : List α) : List α := text.flatMap (escapeChar esc special)

variable {esc special} in
theorem escape_cons (b : α) : escape esc special (b :: text)
    = escapeChar esc special b ++ escape esc special text := List.flatMap_cons

variable [DecidableEq α]

/-- The text is not damaged in a field of `n` characters. -/
structure Survives (n : ℕ) (text : List α) : Prop where
  plain : ∀ b ∈ text, special b ≠ none → b = esc
  fills : esc ∈ text → text.length = n ∧ ∀ b ∈ text.dropWhile (· ≠ esc), b = esc

variable {esc special}

omit [DecidableEq α] in
/-- Behind the first escape character the field and the text are shifted. -/
theorem padded_shifted_iff (h_esc : special esc = some esc) (hz : z ≠ esc) {k : ℕ} (hk : 1 ≤ k)
    (h : text.length ≤ n) :
    padded z n (List.replicate k esc ++ escape esc special text) = padded z n text ↔
      text = List.replicate n esc := by
  obtain ⟨k, rfl⟩ := Nat.exists_eq_add_of_le' hk
  induction n generalizing k text with
  | zero =>
    rw [List.eq_nil_of_length_eq_zero (Nat.le_zero.mp h)]
    simp
  | succ n ih =>
    rw [List.replicate_succ, List.cons_append, padded_cons_succ]
    cases text with
    | nil => simp [padded_nil_succ, hz.symm, List.replicate_succ]
    | cons b text =>
      rw [padded_cons_succ, List.replicate_succ, List.cons.injEq, List.cons.injEq]
      rcases eq_or_ne b esc with rfl | hb
      · have h_shift : List.replicate k b ++ escape b special (b :: text)
            = List.replicate (k + 1 + 1) b ++ escape b special text := by
          rw [escape_cons, escapeChar, h_esc, List.replicate_succ', List.replicate_succ',
            List.append_assoc, List.append_assoc]
          rfl
        rw [h_shift, ih (Nat.le_of_succ_le_succ h) (k + 1) (Nat.le_add_left 1 _)]
      · simp [hb, Ne.symm hb]

theorem survives_cons_of_ne {b : α} (h_none : special b = none) (hb : b ≠ esc) :
    Survives esc special (n + 1) (b :: text) ↔ Survives esc special n text := by
  constructor
  · rintro ⟨h_plain, h_fills⟩
    refine ⟨fun c hc => h_plain c (List.mem_cons_of_mem _ hc), fun h_mem => ?_⟩
    obtain ⟨h_length, h_rest⟩ := h_fills (List.mem_cons_of_mem _ h_mem)
    rw [List.dropWhile_cons_of_pos (by simpa using hb)] at h_rest
    exact ⟨Nat.succ.inj h_length, h_rest⟩
  · rintro ⟨h_plain, h_fills⟩
    refine ⟨List.forall_mem_cons.mpr ⟨fun h => absurd h_none h, h_plain⟩, fun h_mem => ?_⟩
    obtain ⟨h_length, h_rest⟩ := h_fills ((List.mem_cons.mp h_mem).resolve_left hb.symm)
    rw [List.dropWhile_cons_of_pos (by simpa using hb)]
    exact ⟨congrArg (· + 1) h_length, h_rest⟩

theorem survives_cons_esc : Survives esc special (n + 1) (esc :: text) ↔
    text = List.replicate n esc := by
  rw [List.eq_replicate_iff]
  constructor
  · rintro ⟨-, h_fills⟩
    obtain ⟨h_length, h_rest⟩ := h_fills List.mem_cons_self
    rw [List.dropWhile_cons_of_neg (by simp)] at h_rest
    exact ⟨Nat.succ.inj h_length, fun b hb => h_rest b (List.mem_cons_of_mem _ hb)⟩
  · rintro ⟨h_length, h_rest⟩
    have h_all : ∀ b ∈ esc :: text, b = esc := List.forall_mem_cons.mpr ⟨rfl, h_rest⟩
    exact ⟨fun b hb _ => h_all b hb, fun _ => ⟨congrArg (· + 1) h_length,
      fun b hb => h_all b (List.dropWhile_subset _ hb)⟩⟩

/-- **An escaped text in a field is the text exactly if it survives.** -/
theorem padded_escape_iff (h_esc : special esc = some esc) (hz : z ≠ esc) (h : text.length ≤ n) :
    padded z n (escape esc special text) = padded z n text ↔ Survives esc special n text := by
  induction text generalizing n with
  | nil => exact ⟨fun _ => ⟨nofun, nofun⟩, fun _ => rfl⟩
  | cons b text ih =>
    obtain ⟨n, rfl⟩ := Nat.exists_eq_add_of_le' (Nat.one_le_iff_ne_zero.mpr
      (Nat.ne_of_gt (Nat.lt_of_lt_of_le (Nat.succ_pos _) h)))
    have h_le : text.length ≤ n := Nat.le_of_succ_le_succ h
    rw [escape_cons, padded_cons_succ, escapeChar]
    -- a plain byte stands for itself
    cases h_special : special b with
    | none =>
      have hb : b ≠ esc := by
        rintro rfl
        rw [h_esc] at h_special
        cases h_special
      rw [survives_cons_of_ne h_special hb, ← ih h_le]
      exact ⟨fun h => (List.cons.inj (padded_cons_succ b ▸ h)).2, fun h => by
        rw [List.singleton_append, padded_cons_succ, h]⟩
    -- an escaped one takes two places
    | some c =>
      change padded z (n + 1) (esc :: c :: escape esc special text) = _ ↔ _
      rw [padded_cons_succ, List.cons.injEq]
      -- only an escape sequence for the escape itself begins with the byte it stands for
      by_cases hb : b = esc
      · subst hb
        obtain rfl : b = c := Option.some.inj (h_esc.symm.trans h_special)
        rw [survives_cons_esc, ← padded_shifted_iff h_esc hz le_rfl h_le]
        simp
      · refine ⟨fun h => absurd h.1.symm hb, fun h => absurd ?_ hb⟩
        exact h.plain b List.mem_cons_self (by rw [h_special]; exact Option.some_ne_none c)

end Bytes
