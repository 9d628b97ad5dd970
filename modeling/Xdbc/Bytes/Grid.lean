import Xdbc.Bytes.Memory

/-!
# Tables in memory

A table with a fixed number of rows is laid out row by row or column by column. A column is a place
in the tuple, `off`, with the room `size` it takes there and the `stride` between its cells in the
second layout; a cell is `width` bytes. If every cell has room, then different cells are apart, in
either layout (`Layout.disjoint`).

`writeRow` writes the cells of one row and `readRow` reads them. A row that was written is read back
(`readRow_writeRow_same`) and the others are unchanged (`readRow_writeRow_of_ne`).
-/

namespace Bytes

/-- A column of a table. -/
structure Column where
  off : ℕ
  size : ℕ
  stride : ℕ
  width : ℕ

/-- How a table of `rows` tuples of `tupleSize` bytes lies in memory. -/
structure Layout where
  rowMajor : Bool
  rows : ℕ
  tupleSize : ℕ

namespace Layout

variable (t : Layout)

/-- The address of a cell. -/
def address (c : Column) (i : ℕ) : ℕ :=
  if t.rowMajor then i * t.tupleSize + c.off else c.off * t.rows + i * c.stride

/-- The cells of a column have room in the layout. -/
structure Holds (c : Column) : Prop where
  width_le : c.width ≤ c.stride
  stride_le : c.stride ≤ c.size
  inside : c.off + c.size ≤ t.tupleSize

/-- Two columns lie apart in the tuple. -/
def Apart (c c' : Column) : Prop := c.off + c.size ≤ c'.off ∨ c'.off + c'.size ≤ c.off

instance : Std.Symm Apart := ⟨fun _ _ => Or.symm⟩

variable {t} {c c' : Column} {i i' : ℕ}

private theorem mul_add_le {i i' a b : ℕ} (h : i < i') (hb : b ≤ a) : i * a + b ≤ i' * a := by
  have h_mul := Nat.mul_le_mul_right a (Nat.succ_le_of_lt h)
  rw [Nat.succ_mul] at h_mul
  omega

/-- A cell lies inside the table. -/
theorem Holds.address_add_le (h : t.Holds c) (hi : i < t.rows) :
    t.address c i + c.width ≤ t.rows * t.tupleSize := by
  have h_width := h.width_le
  have h_stride := h.stride_le
  have h_inside := h.inside
  unfold address
  split
  · have h_row := mul_add_le hi (le_refl t.tupleSize)
    omega
  · have h_col := mul_add_le hi (le_refl c.stride)
    have h_size := Nat.mul_le_mul_left t.rows h_stride
    have h_all := Nat.mul_le_mul_left t.rows h_inside
    rw [Nat.mul_add, Nat.mul_comm t.rows c.off] at h_all
    omega

/-- In row-major layout the cells of the first rows lie in front. -/
theorem Holds.address_add_le_of_rowMajor (h : t.Holds c) (h_row : t.rowMajor = true) {k : ℕ}
    (hi : i < k) : t.address c i + c.width ≤ k * t.tupleSize := by
  have h_width := h.width_le
  have h_stride := h.stride_le
  have h_inside := h.inside
  rw [address, if_pos h_row]
  have := mul_add_le hi (le_refl t.tupleSize)
  omega

/-- **Different cells are apart.** -/
theorem Holds.disjoint (h : t.Holds c) (h' : t.Holds c') (hi : i < t.rows) (hi' : i' < t.rows)
    (h_ne : Apart c c' ∨ i ≠ i' ∧ c = c') :
    t.address c i + c.width ≤ t.address c' i' ∨ t.address c' i' + c'.width ≤ t.address c i := by
  have hw := h.width_le
  have hs := h.stride_le
  have hin := h.inside
  have hw' := h'.width_le
  have hs' := h'.stride_le
  have hin' := h'.inside
  unfold address
  split
  · -- row by row: different rows are apart, and in one row the columns are
    rcases Nat.lt_trichotomy i i' with hlt | rfl | hlt
    · left
      have := mul_add_le hlt (le_refl t.tupleSize)
      omega
    · rcases h_ne with (h_apart | h_apart) | ⟨h_ne, -⟩
      · left; omega
      · right; omega
      · exact absurd rfl h_ne
    · right
      have := mul_add_le hlt (le_refl t.tupleSize)
      omega
  · -- column by column: different columns are apart, and in one column the rows are
    have h_end := mul_add_le hi (le_refl c.stride)
    have h_end' := mul_add_le hi' (le_refl c'.stride)
    have h_size := Nat.mul_le_mul_left t.rows hs
    have h_size' := Nat.mul_le_mul_left t.rows hs'
    rcases h_ne with (h_apart | h_apart) | ⟨h_ne, rfl⟩
    · left
      have h_all := Nat.mul_le_mul_left t.rows h_apart
      rw [Nat.mul_add, Nat.mul_comm t.rows c.off, Nat.mul_comm t.rows c'.off] at h_all
      omega
    · right
      have h_all := Nat.mul_le_mul_left t.rows h_apart
      rw [Nat.mul_add, Nat.mul_comm t.rows c.off, Nat.mul_comm t.rows c'.off] at h_all
      omega
    · rcases Nat.lt_or_gt_of_ne h_ne with hlt | hlt
      · left
        have := mul_add_le hlt hw
        omega
      · right
        have := mul_add_le hlt hw
        omega

/-! ### Rows -/

variable {α : Type}

/-- The cells of row `i`. -/
def readRow (t : Layout) (cs : List Column) (i : ℕ) (block : List α) : List (List α) :=
  cs.map fun c => slice block (t.address c i) c.width

/-- Write the cells `vs` of row `i`. -/
def writeRow (t : Layout) (i : ℕ) : List Column → List (List α) → List α → List α
  | c :: cs, v :: vs, block => writeRow t i cs vs (put block (t.address c i) v)
  | _, _, block => block

@[simp] theorem length_writeRow (cs : List Column) (vs : List (List α)) (block : List α) :
    (t.writeRow i cs vs block).length = block.length := by
  induction cs generalizing vs block with
  | nil => cases vs <;> rfl
  | cons c cs ih =>
    cases vs with
    | nil => rfl
    | cons v vs => rw [writeRow, ih, length_put]

/-- The values have the widths of their columns. -/
def Widths : List Column → List (List α) → Prop := List.Forall₂ fun c v => v.length = c.width

/-- A cell apart from the cells written is unchanged. -/
theorem slice_writeRow {cs : List Column} {vs : List (List α)} (h_widths : Widths cs vs)
    {off len : ℕ} {block : List α}
    (h : ∀ c ∈ cs, off + len ≤ t.address c i ∨ t.address c i + c.width ≤ off) :
    slice (t.writeRow i cs vs block) off len = slice block off len := by
  induction h_widths generalizing block with
  | nil => rfl
  | @cons c v cs vs hv _ ih =>
    rw [writeRow, ih fun c' hc' => h c' (List.mem_cons_of_mem _ hc'), slice_put_disjoint]
    rw [hv]
    exact h c List.mem_cons_self

/-- **A row that was written is read back.** -/
theorem readRow_writeRow_same {cs : List Column} {vs : List (List α)} (h_widths : Widths cs vs)
    (h_apart : cs.Pairwise Apart) (h_holds : ∀ c ∈ cs, t.Holds c) (hi : i < t.rows)
    {block : List α} (h_block : t.rows * t.tupleSize ≤ block.length) :
    t.readRow cs i (t.writeRow i cs vs block) = vs := by
  induction h_widths generalizing block with
  | nil => rfl
  | @cons c v cs vs hv h_widths ih =>
    obtain ⟨h_first, h_apart⟩ := List.pairwise_cons.mp h_apart
    have h_tail := fun c' hc' => h_holds c' (List.mem_cons_of_mem _ hc')
    have h_head := h_holds c List.mem_cons_self
    rw [readRow, List.map_cons, writeRow]
    refine congrArg₂ List.cons ?_ (ih h_apart h_tail (by rwa [length_put]))
    rw [slice_writeRow h_widths fun c' hc' => h_head.disjoint (h_tail c' hc') hi hi
      (.inl (h_first c' hc')), ← hv]
    exact slice_put_same ((hv ▸ h_head.address_add_le hi).trans h_block)

/-- **Other rows are unchanged.** -/
theorem readRow_writeRow_of_ne {cs : List Column} {vs : List (List α)} (h_widths : Widths cs vs)
    (h_apart : cs.Pairwise Apart) (h_holds : ∀ c ∈ cs, t.Holds c) (hi : i < t.rows)
    (hi' : i' < t.rows) (h_ne : i' ≠ i) (block : List α) :
    t.readRow cs i' (t.writeRow i cs vs block) = t.readRow cs i' block := by
  refine List.map_congr_left fun c' hc' => slice_writeRow h_widths fun c hc => ?_
  refine (h_holds c' hc').disjoint (h_holds c hc) hi' hi ?_
  by_cases h_eq : c' = c
  · exact .inr ⟨h_ne, h_eq⟩
  · exact .inl (h_apart.forall hc' hc h_eq)

/-- Write rows from row `i` on. -/
def writeRows (t : Layout) (cs : List Column) : ℕ → List (List (List α)) → List α → List α
  | _, [], block => block
  | i, vs :: rows, block => writeRows t cs (i + 1) rows (t.writeRow i cs vs block)

@[simp] theorem length_writeRows (cs : List Column) (i : ℕ) (rows : List (List (List α)))
    (block : List α) : (t.writeRows cs i rows block).length = block.length := by
  induction rows generalizing i block with
  | nil => rfl
  | cons vs rows ih => rw [writeRows, ih, length_writeRow]

/-- Rows written behind a row leave it. -/
theorem readRow_writeRows_of_lt {cs : List Column} {rows : List (List (List α))}
    (h_widths : ∀ vs ∈ rows, Widths cs vs) (h_apart : cs.Pairwise Apart)
    (h_holds : ∀ c ∈ cs, t.Holds c) (h_rows : i + rows.length ≤ t.rows) (hi : i' < i)
    (block : List α) : t.readRow cs i' (t.writeRows cs i rows block) = t.readRow cs i' block := by
  induction rows generalizing i block with
  | nil => rfl
  | cons vs rows ih =>
    obtain ⟨h_first, h_widths⟩ := List.forall_mem_cons.mp h_widths
    rw [List.length_cons] at h_rows
    rw [writeRows, ih h_widths (by omega) (by omega),
      readRow_writeRow_of_ne h_first h_apart h_holds (by omega) (by omega) (by omega)]

/-- **Rows that were written are read back.** -/
theorem readRow_writeRows {cs : List Column} {rows : List (List (List α))}
    (h_widths : ∀ vs ∈ rows, Widths cs vs) (h_apart : cs.Pairwise Apart)
    (h_holds : ∀ c ∈ cs, t.Holds c) (h_rows : i + rows.length ≤ t.rows) {block : List α}
    (h_block : t.rows * t.tupleSize ≤ block.length) {k : ℕ} {vs : List (List α)}
    (h : rows[k]? = some vs) : t.readRow cs (i + k) (t.writeRows cs i rows block) = vs := by
  induction rows generalizing i block k with
  | nil => cases h
  | cons first rows ih =>
    obtain ⟨h_first, h_widths⟩ := List.forall_mem_cons.mp h_widths
    rw [List.length_cons] at h_rows
    cases k with
    | zero =>
      obtain rfl : first = vs := Option.some.inj h
      rw [writeRows, Nat.add_zero, readRow_writeRows_of_lt h_widths h_apart h_holds (by omega)
        (Nat.lt_succ_self i), readRow_writeRow_same h_first h_apart h_holds (by omega) h_block]
    | succ k =>
      rw [writeRows, show i + (k + 1) = i + 1 + k by omega]
      exact ih h_widths (by omega) (by rwa [length_writeRow]) h

/-- Rows inside a prefix of the block are read from the prefix. -/
theorem readRow_take {cs : List Column} {k : ℕ}
    (h : ∀ c ∈ cs, t.address c i + c.width ≤ k) (block : List α) :
    t.readRow cs i (block.take k) = t.readRow cs i block :=
  List.map_congr_left fun c hc => slice_take (h c hc)

end Layout

end Bytes
