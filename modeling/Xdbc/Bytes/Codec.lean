import Xdbc.Bytes.Memory

/-!
# Files that are read back

A `Codec` turns values into files and files into values. It is `Lawful` if every file is read back
and the empty file is none. Nothing else is known of it: what a reader makes of the bytes that are
not a file of the writer is open. So a statement about all lawful codecs can be refuted with one
whose reader accepts nothing but the files of the writer (`ofInjective`), and in which only the
files of interest are short (`lengthen`).
-/

namespace Bytes

/-- A format of files. -/
structure Codec (ρ : Type) where
  file : ρ → List UInt8
  /-- The value of a file, `none` if it is not well formed. -/
  read : List UInt8 → Option ρ

namespace Codec

variable {ρ : Type}

/-- What is known of a format. -/
structure Lawful (c : Codec ρ) : Prop where
  read_file : ∀ r, c.read (c.file r) = some r
  read_nil : c.read [] = none

variable {c : Codec ρ}

theorem Lawful.file_injective (h : c.Lawful) : Function.Injective c.file := fun r r' h_file => by
  have h_read := h.read_file r
  rw [h_file, h.read_file r'] at h_read
  exact (Option.some.inj h_read).symm

theorem Lawful.file_ne_nil (h : c.Lawful) (r : ρ) : c.file r ≠ [] := fun h_nil => by
  have h_read := h.read_file r
  rw [h_nil, h.read_nil] at h_read
  cases h_read

open Classical in
/-- The format that accepts the given files only. -/
noncomputable def ofInjective (file : ρ → List UInt8) : Codec ρ where
  file := file
  read bs := if h : ∃ r, file r = bs then some h.choose else none

/-- What is readable is a file. -/
theorem file_of_read_ofInjective {file : ρ → List UInt8} {bs : List UInt8} {r : ρ}
    (h : (ofInjective file).read bs = some r) : file r = bs := by
  unfold ofInjective at h
  dsimp only at h
  split at h
  · next h_file =>
    cases h
    exact h_file.choose_spec
  · cases h

theorem ofInjective_lawful {file : ρ → List UInt8} (h_inj : Function.Injective file)
    (h_nil : ∀ r, file r ≠ []) : (ofInjective file).Lawful where
  read_file r := by
    have h_file : ∃ r', file r' = file r := ⟨r, rfl⟩
    refine (dif_pos h_file).trans ?_
    exact congrArg some (h_inj h_file.choose_spec)
  read_nil := by
    refine dif_neg ?_
    rintro ⟨r, h_file⟩
    exact h_nil r h_file

open Classical in
/-- The files of the values in `keep`, and files of more than `n` bytes for all others. -/
noncomputable def lengthen (file : ρ → List UInt8) (keep : ρ → Prop) (n : ℕ) (r : ρ) : List UInt8 :=
  if keep r then file r else List.replicate (n + 1) 0 ++ file r

section Lengthen

variable {file : ρ → List UInt8} {keep : ρ → Prop} {n : ℕ} {r : ρ}

theorem lengthen_of_keep (h : keep r) : lengthen file keep n r = file r := if_pos h

variable (file n) in
theorem lt_length_lengthen (h : ¬ keep r) : n < (lengthen file keep n r).length := by
  rw [lengthen, if_neg h, List.length_append, List.length_replicate]
  omega

theorem lengthen_ne_nil (h_nil : ∀ r, file r ≠ []) : lengthen file keep n r ≠ [] := by
  by_cases h : keep r
  · rw [lengthen_of_keep h]
    exact h_nil r
  · exact List.ne_nil_of_length_pos (Nat.lt_of_le_of_lt (Nat.zero_le n) (lt_length_lengthen file n h))

/-- The files that are kept are short, so they are not confused with the others. -/
theorem lengthen_injective (h_inj : Function.Injective file)
    (h_short : ∀ r, keep r → (file r).length ≤ n) : Function.Injective (lengthen file keep n) := by
  intro r r' h_file
  by_cases h : keep r <;> by_cases h' : keep r'
  · rw [lengthen_of_keep h, lengthen_of_keep h'] at h_file
    exact h_inj h_file
  · have h_lt := lt_length_lengthen file n h'
    rw [← h_file, lengthen_of_keep h] at h_lt
    exact absurd (h_short r h) (Nat.not_le.mpr h_lt)
  · have h_lt := lt_length_lengthen file n h
    rw [h_file, lengthen_of_keep h'] at h_lt
    exact absurd (h_short r' h') (Nat.not_le.mpr h_lt)
  · rw [lengthen, lengthen, if_neg h, if_neg h'] at h_file
    exact h_inj (List.append_cancel_left h_file)

/-- The format with the long files is lawful if the one it is made from is. -/
theorem Lawful.lengthen (h : c.Lawful) (h_short : ∀ r, keep r → (c.file r).length ≤ n) :
    (ofInjective (lengthen c.file keep n)).Lawful :=
  ofInjective_lawful (lengthen_injective h.file_injective h_short) fun _ =>
    lengthen_ne_nil h.file_ne_nil

end Lengthen

end Codec

/-! ### Prefix codes -/

section PrefixFree

variable {α : Type}

/-- The code of a value can be told from what follows. -/
def PrefixFree (code : α → List UInt8) : Prop :=
  ∀ a b r s, code a ++ r = code b ++ s → a = b ∧ r = s

theorem PrefixFree.injective {code : α → List UInt8} (h : PrefixFree code) :
    Function.Injective code := fun a b h_code => (h a b [] [] (by rw [h_code])).1

/-- A byte stands for itself. -/
theorem prefixFree_byte : PrefixFree fun b : UInt8 => [b] := fun _ _ _ _ h => by
  obtain ⟨rfl, rfl⟩ := List.cons.inj h
  exact ⟨rfl, rfl⟩

/-- The code of a list: every entry is announced by `1`, and `0` is the end. -/
def listCode (code : α → List UInt8) : List α → List UInt8
  | [] => [0]
  | a :: as => 1 :: (code a ++ listCode code as)

theorem listCode_ne_nil (code : α → List UInt8) (as : List α) : listCode code as ≠ [] := by
  cases as <;> exact List.cons_ne_nil _ _

theorem PrefixFree.listCode {code : α → List UInt8} (h : PrefixFree code) :
    PrefixFree (listCode code) := by
  intro as
  induction as with
  | nil =>
    intro bs r s h_code
    cases bs with
    | nil => exact ⟨rfl, (List.cons.inj h_code).2⟩
    | cons b bs => exact absurd (List.cons.inj h_code).1 (by decide)
  | cons a as ih =>
    intro bs r s h_code
    cases bs with
    | nil => exact absurd (List.cons.inj h_code).1 (by decide)
    | cons b bs =>
      have h_rest := (List.cons.inj h_code).2
      change (code a ++ Bytes.listCode code as) ++ r
        = (code b ++ Bytes.listCode code bs) ++ s at h_rest
      rw [List.append_assoc, List.append_assoc] at h_rest
      obtain ⟨rfl, h_tail⟩ := h a b _ _ h_rest
      obtain ⟨rfl, rfl⟩ := ih bs r s h_tail
      exact ⟨rfl, rfl⟩

end PrefixFree

/-- A byte behind what is written stays. -/
theorem getElem?_put_of_le {α : Type} {xs bs : List α} {off q : ℕ} (h : off + bs.length ≤ q) :
    (put xs off bs)[q]? = xs[q]? := by
  rw [getElem?_put, if_neg (by omega)]

end Bytes
