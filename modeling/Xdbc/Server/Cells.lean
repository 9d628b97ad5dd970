import Xdbc.Server.Rows
import Xdbc.Server.System

/-!
# The bytes that a field changes

The deserializers write the field of an attribute through a pointer into the vector of the output
buffer. An integer, a floating-point number and a character are copied in their own size. A string
is copied in the size of the field, after its cell has been cleared, by `deserializeCSV`,
`deserializePG` and `deserializePQ` alike, while `deserialize<std::string>`, which none of them uses
for strings, cuts it off.

The cells are as wide as the schema of the client says, and nothing compares the two widths: an
attribute may be declared smaller than its type, and where a reader adds up or multiplies the width
of the type (`deserializeCSV` in column format, `deserializePQ` for its offsets) one that is
declared larger overlaps its neighbours. So the writes of a buffer stay inside their cells exactly
if the declared sizes are `Sized` for the reader and no string is longer than its attribute
(`field_framed_iff`), and then they leave the header, the other cells and what lies behind the
vector as they are, and agree with `deserialize<std::string>`.
-/

namespace Xdbc.Server

open Bytes

/-! ### The writes -/

/-- `deserialize<std::string>` of `deserializers_parquet.h`. -/
def deserializeStdString (value dst : List UInt8) (dest attSize : ℕ) : List UInt8 :=
  put dst dest (if value.length > attSize then value.take attSize
    else value ++ List.replicate (attSize - value.length) 0)

section Fields

variable (src : Source) (env : RuntimeEnv) (ext : External)

/-- The size of a cell in column format. -/
def columnStride (a : SchemaAttribute) : ℕ :=
  match src with
  | .csv => csvText.stride a
  | .postgres => pgText.stride a
  | .parquet => a.size

/-- What the loop over the attributes has added up in front of column `j`. -/
def columnOffset (j : ℕ) : ℕ :=
  match src with
  | .csv => tupleSize (env.schema.take j)
  | .postgres => tupleSize (env.schema.take j)
  | .parquet => ((env.schema.take j).map SchemaAttribute.width).sum

/-- The address of cell `(i, j)` in the payload, for the attribute `a` of column `j`. -/
def fieldAddress (a : SchemaAttribute) (i j : ℕ) : ℕ :=
  cellAddress env (columnStride src a) i (columnOffset src env j)

/-- The write of a field to address `dest` of a block of memory. In a text the field is followed by
`rest`. -/
def writeField (a : SchemaAttribute) (field rest mem : List UInt8) (dest : ℕ) : List UInt8 :=
  match src with
  | .csv => deserialize ext a.tpe (field ++ rest) mem dest a.size field.length
  | .postgres => deserialize ext a.tpe (field ++ rest) mem dest a.size field.length
  | .parquet => writeParquetField a field mem dest

/-- The memory that begins with the vector, after the field of cell `(i, j)` has been written. -/
def afterField (a : SchemaAttribute) (i j : ℕ) (field rest mem : List UInt8) : List UInt8 :=
  writeField src ext a field rest mem (sizeofHeader + fieldAddress src env a i j)

/-- The write of a field changes only the bytes of its cell, which is as wide as the schema says:
not the other cells, the header or what lies behind the vector; and a string is written as by
`deserialize<std::string>`. -/
structure FieldFramed (a : SchemaAttribute) (i j : ℕ) (field rest mem : List UInt8) : Prop where
  cell : ∀ p, p < sizeofHeader + fieldAddress src env a i j ∨
    sizeofHeader + fieldAddress src env a i j + a.size ≤ p →
    (afterField src env ext a i j field rest mem)[p]? = mem[p]?
  header : (afterField src env ext a i j field rest mem).take sizeofHeader
    = mem.take sizeofHeader
  others : ∀ i' < env.tuplesPerBuffer, ∀ j' b, env.schema[j']? = some b → i' ≠ i ∨ j' ≠ j →
    slice (afterField src env ext a i j field rest mem)
        (sizeofHeader + fieldAddress src env b i' j') b.size
      = slice mem (sizeofHeader + fieldAddress src env b i' j') b.size
  behind : (afterField src env ext a i j field rest mem).drop (sizeofHeader + env.payloadSize)
    = mem.drop (sizeofHeader + env.payloadSize)
  truncates : a.tpe = .string → afterField src env ext a i j field rest mem
    = deserializeStdString field mem (sizeofHeader + fieldAddress src env a i j) a.size

/-- The writes of all fields of a buffer do, whatever follows a field in a text and whatever the
buffer held. -/
def FieldsFramed (fields : ℕ → ℕ → List UInt8) : Prop :=
  ∀ i < env.tuplesPerBuffer, ∀ j a, env.schema[j]? = some a → ∀ rest mem,
    FieldFramed src env ext a i j (fields i j) rest mem

/-- The numbers of a Parquet file have the size of their type. -/
def ParquetValues (fields : ℕ → ℕ → List UInt8) : Prop :=
  src = .parquet → ∀ i j a, env.schema[j]? = some a → a.tpe = .int ∨ a.tpe = .double →
    (fields i j).length = a.width

/-- Where the attribute of column `j` overlaps its neighbours if it is declared larger than its
type: the cells of a column are as far apart as their type is wide, or the columns are. -/
def Tight (j : ℕ) : Prop :=
  match src with
  | .csv => env.iformat ≠ 1 ∧ 1 < env.tuplesPerBuffer
  | .postgres => False
  | .parquet => 0 < tupleSize (env.schema.drop (j + 1))

/-- The declared sizes suit the reader. -/
def Sized : Prop :=
  ∀ j a, env.schema[j]? = some a → a.width ≤ a.size ∧ (Tight src env j → a.size = a.width)

/-- No string is longer than its attribute. -/
def LengthsFit (fields : ℕ → ℕ → List UInt8) : Prop :=
  ∀ i < env.tuplesPerBuffer, ∀ j a, env.schema[j]? = some a → a.tpe = .string →
    (fields i j).length ≤ a.size

variable {src env ext}

/-! ### Writes and what they leave -/

/-- A write leaves what is in front of it. -/
theorem put_append (head xs : List UInt8) (off : ℕ) (bs : List UInt8) :
    put (head ++ xs) (head.length + off) bs = head ++ put xs off bs := by
  induction head with
  | nil => rw [List.length_nil, Nat.zero_add]; rfl
  | cons b head ih => rw [List.length_cons, Nat.succ_add, List.cons_append, put, ih]; rfl

/-- **The rows are written by these writes**: what `deserializeRow` does to a payload is done to the
vector behind its header. -/
theorem writeField_append (a : SchemaAttribute) (field rest head mem : List UInt8) (dest : ℕ) :
    writeField src ext a field rest (head ++ mem) (head.length + dest)
      = head ++ writeField src ext a field rest mem dest := by
  obtain ⟨tpe, size⟩ := a
  cases src <;> cases tpe <;>
    simp only [writeField, deserialize, writeParquetField, put_append]

/-- A string is written over its cleared cell, which it may exceed. -/
theorem put_put (mem as bs : List UInt8) (dest : ℕ) :
    put (put mem dest as) dest bs = put mem dest (bs ++ as.drop bs.length) := by
  refine List.ext_getElem? fun p => ?_
  rw [getElem?_put, getElem?_put, getElem?_put, length_put, List.length_append, List.length_drop]
  by_cases hp : dest ≤ p ∧ p < dest + bs.length ∧ p < mem.length
  · rw [if_pos hp, if_pos (by omega), List.getElem?_append_left (by omega)]
  · rw [if_neg hp]
    by_cases hp' : dest ≤ p ∧ p < dest + as.length ∧ p < mem.length
    · rw [if_pos hp', if_pos (by omega), List.getElem?_append_right (by omega), List.getElem?_drop]
      congr 1
      omega
    · rw [if_neg hp', if_neg (by omega)]

variable (src ext) in
/-- **A field is one block of bytes.** A string takes at least the size of its attribute, and all
that it has; anything else takes the width of its type. -/
theorem exists_fieldBytes (a : SchemaAttribute) (field rest : List UInt8) :
    ∃ bs : List UInt8, (∀ mem dest, writeField src ext a field rest mem dest = put mem dest bs) ∧
      (a.tpe = .string → bs.length = max a.size field.length ∧
        (field.length ≤ a.size →
          ∀ mem dest, put mem dest bs = deserializeStdString field mem dest a.size)) ∧
      (a.tpe ≠ .string → bs.length ≤ a.width ∧
        ((src = .parquet → a.tpe = .int ∨ a.tpe = .double → field.length = a.width) → rest ≠ [] →
          bs.length = a.width)) := by
  obtain ⟨tpe, size⟩ := a
  cases tpe with
  -- the bytes of a string, then zeros up to its size
  | string =>
    refine ⟨field ++ (List.replicate size 0).drop field.length, fun mem dest => ?_,
      fun _ => ⟨by simp; omega, fun h_le mem dest => ?_⟩, fun h => absurd rfl h⟩
    · rw [← put_put]
      cases src with
      | parquet => rfl
      | _ => rw [writeField, deserialize, List.take_left]
    · rw [deserializeStdString, if_neg (Nat.not_lt.mpr h_le), List.drop_replicate]
  | int =>
    have h_tpe : SchemaAttribute.tpe ⟨.int, size⟩ ≠ .string := by simp
    cases src with
    | parquet =>
      exact ⟨field.take 4, fun _ _ => rfl, (absurd · h_tpe), fun _ => ⟨List.length_take_le _ _,
        fun h _ => List.length_take_of_le (h rfl (.inl rfl)).ge⟩⟩
    | _ => exact ⟨_, fun _ _ => rfl, (absurd · h_tpe), fun _ => ⟨(length_int32Bytes _).le,
        fun _ _ => length_int32Bytes _⟩⟩
  | double =>
    have h_tpe : SchemaAttribute.tpe ⟨.double, size⟩ ≠ .string := by simp
    cases src with
    | parquet =>
      exact ⟨field.take 8, fun _ _ => rfl, (absurd · h_tpe), fun _ => ⟨List.length_take_le _ _,
        fun h _ => List.length_take_of_le (h rfl (.inr rfl)).ge⟩⟩
    | _ => exact ⟨_, fun _ _ => rfl, (absurd · h_tpe), fun _ => ⟨(length_doubleBytes _).le,
        fun _ _ => length_doubleBytes _⟩⟩
  | char =>
    have h_tpe : SchemaAttribute.tpe ⟨.char, size⟩ ≠ .string := by simp
    have h_one : rest ≠ [] → ((field ++ rest).take 1).length = 1 := fun h_rest => by
      rw [List.length_take_of_le]
      rw [List.length_append]
      have := List.length_pos_iff.mpr h_rest
      omega
    cases src with
    | parquet => exact ⟨[field.headD 0], fun _ _ => rfl, (absurd · h_tpe), fun _ =>
        ⟨le_rfl, fun _ _ => rfl⟩⟩
    | _ => exact ⟨(field ++ rest).take 1, fun _ _ => rfl, (absurd · h_tpe), fun _ =>
        ⟨List.length_take_le _ _, fun _ => h_one⟩⟩

/-- Every byte of a block can be seen to be written. -/
theorem exists_getElem?_put_ne {bs : List UInt8} {k : ℕ} (hk : k < bs.length) (dest : ℕ) :
    ∃ mem : List UInt8, (put mem dest bs)[dest + k]? ≠ mem[dest + k]? := by
  refine ⟨List.replicate (dest + bs.length) (bs[k] + 1), ?_⟩
  rw [getElem?_put, if_pos (by simp; omega), Nat.add_sub_cancel_left, List.getElem?_eq_getElem hk,
    List.getElem?_replicate, if_pos (by omega)]
  intro h_eq
  have h_succ : bs[k] = bs[k] + 1 := Option.some.inj h_eq
  simp at h_succ

/-- Blocks that agree in a range have the same slice there. -/
theorem slice_congr {xs ys : List UInt8} {off len : ℕ}
    (h : ∀ p, off ≤ p → p < off + len → xs[p]? = ys[p]?) : slice xs off len = slice ys off len := by
  refine List.ext_getElem? fun k => ?_
  rw [getElem?_slice, getElem?_slice]
  split
  · exact h _ (by omega) (by omega)
  · rfl

theorem getElem?_eq_of_slice_eq {xs ys : List UInt8} {off len p : ℕ} (hp : off ≤ p)
    (hp' : p < off + len) (h : slice xs off len = slice ys off len) : xs[p]? = ys[p]? := by
  have h_at := congrArg (·[p - off]?) h
  simp only [getElem?_slice] at h_at
  rwa [if_pos (by omega), if_pos (by omega), Nat.add_sub_cancel' hp] at h_at

/-! ### Sums in front of a column -/

section Sums

variable {f g : SchemaAttribute → ℕ} {schema : List SchemaAttribute} {j j' : ℕ}

/-- What is added up in front of a column. -/
def sumBefore (f : SchemaAttribute → ℕ) (schema : List SchemaAttribute) (j : ℕ) : ℕ :=
  ((schema.take j).map f).sum

theorem sumBefore_succ {a : SchemaAttribute} (h : schema[j]? = some a) :
    sumBefore f schema (j + 1) = sumBefore f schema j + f a := by
  rw [sumBefore, sumBefore, List.take_add_one, h, List.map_append, List.sum_append]
  rfl

theorem sumBefore_succ_of_none (f : SchemaAttribute → ℕ) (h : schema[j]? = none) :
    sumBefore f schema (j + 1) = sumBefore f schema j := by
  rw [sumBefore, List.take_add_one, h, Option.toList_none, List.append_nil, sumBefore]

/-- Where `f` is at most `g`, the sums of `f` grow no faster. -/
theorem sumBefore_add_le (h_le : ∀ a ∈ schema, f a ≤ g a) (h : j ≤ j') :
    sumBefore f schema j' + sumBefore g schema j
      ≤ sumBefore f schema j + sumBefore g schema j' := by
  induction j', h using Nat.le_induction with
  | base => rfl
  | succ k hk ih =>
    cases h_k : schema[k]? with
    | none => rwa [sumBefore_succ_of_none f h_k, sumBefore_succ_of_none g h_k]
    | some a =>
      rw [sumBefore_succ h_k, sumBefore_succ h_k]
      have h_a := h_le a (List.mem_of_getElem? h_k)
      omega

theorem sumBefore_mono (f : SchemaAttribute → ℕ) (schema : List SchemaAttribute) (h : j ≤ j') :
    sumBefore f schema j ≤ sumBefore f schema j' := by
  have h_zero : ∀ k, sumBefore (fun _ => 0) schema k = 0 := fun k => by simp [sumBefore]
  have h_least : ∀ a ∈ schema, (fun _ => 0) a ≤ f a := fun _ _ => Nat.zero_le _
  have h_le := sumBefore_add_le h_least h
  rw [h_zero, h_zero] at h_le
  omega

theorem sumBefore_of_length_le (f : SchemaAttribute → ℕ) (h : schema.length ≤ j) :
    sumBefore f schema j = (schema.map f).sum := by
  rw [sumBefore, List.take_of_length_le h]

/-- If anything follows column `j`, then there is a first column that follows it. -/
theorem exists_next (h : 0 < tupleSize (schema.drop (j + 1))) :
    ∃ k b, j < k ∧ schema[k]? = some b ∧ 0 < b.size ∧
      sumBefore SchemaAttribute.size schema k = sumBefore SchemaAttribute.size schema (j + 1) := by
  have h_more : sumBefore SchemaAttribute.size schema (j + 1)
      < sumBefore SchemaAttribute.size schema (schema.length + (j + 1)) := by
    have h_split := congrArg tupleSize (List.take_append_drop (j + 1) schema)
    rw [tupleSize, List.map_append, List.sum_append] at h_split
    rw [sumBefore_of_length_le _ (Nat.le_add_right _ _)]
    change sumBefore SchemaAttribute.size schema (j + 1) + tupleSize (schema.drop (j + 1))
      = tupleSize schema at h_split
    change _ < tupleSize schema
    omega
  have h_ex : ∃ k, sumBefore SchemaAttribute.size schema (j + 1)
      < sumBefore SchemaAttribute.size schema k := ⟨_, h_more⟩
  -- the least sum that has grown has the column behind which it has grown
  obtain ⟨k, h_grown, h_least⟩ := Nat.findX h_ex
  have hk : j + 1 < k := by
    by_contra h_le
    exact absurd (sumBefore_mono SchemaAttribute.size schema (Nat.le_of_not_lt h_le))
      (Nat.not_le.mpr h_grown)
  obtain ⟨k, rfl⟩ : ∃ m, k = m + 1 := ⟨k - 1, by omega⟩
  have h_same : sumBefore SchemaAttribute.size schema k
      = sumBefore SchemaAttribute.size schema (j + 1) :=
    le_antisymm (Nat.le_of_not_lt (h_least k (Nat.lt_succ_self k)))
      (sumBefore_mono _ _ (by omega))
  cases h_k : schema[k]? with
  | none =>
    rw [sumBefore_succ_of_none _ h_k, h_same] at h_grown
    exact absurd h_grown (lt_irrefl _)
  | some b =>
    rw [sumBefore_succ h_k] at h_grown
    exact ⟨k, b, by omega, h_k, by omega, h_same⟩

end Sums

/-! ### Different cells are apart -/

variable {a b : SchemaAttribute} {i i' j j' : ℕ} {fields : ℕ → ℕ → List UInt8}

/-- The column of an attribute in the output buffers. -/
def fieldColumn (src : Source) (env : RuntimeEnv) (a : SchemaAttribute) (j : ℕ) : Column :=
  ⟨columnOffset src env j, a.size, a.size, a.size⟩

theorem address_fieldColumn (h_sized : Sized src env) (h : env.schema[j]? = some a)
    (hi : i < env.tuplesPerBuffer) :
    (layout env).address (fieldColumn src env a j) i = fieldAddress src env a i j := by
  have h_stride : env.iformat ≠ 1 → i * a.size = i * columnStride src a := by
    intro h_format
    cases src with
    | csv =>
      rcases Nat.eq_zero_or_pos i with rfl | h_pos
      · rw [Nat.zero_mul, Nat.zero_mul]
      · exact congrArg (i * ·) ((h_sized j a h).2 ⟨h_format, by omega⟩)
    | _ => rfl
  by_cases h_format : env.iformat = 1
  · simp [layout, Layout.address, fieldAddress, cellAddress, fieldColumn, h_format]
  · simp [layout, Layout.address, fieldAddress, cellAddress, fieldColumn, h_format,
      h_stride h_format]

variable (src) in
theorem holds_fieldColumn (h_sized : Sized src env) (h : env.schema[j]? = some a) :
    (layout env).Holds (fieldColumn src env a j) := by
  refine ⟨le_rfl, le_rfl, ?_⟩
  change columnOffset src env j + a.size ≤ tupleSize env.schema
  have h_size : sumBefore SchemaAttribute.size env.schema j + a.size ≤ tupleSize env.schema := by
    rw [← sumBefore_succ (f := SchemaAttribute.size) h]
    exact (sumBefore_mono _ _ (Nat.le_add_right (j + 1) env.schema.length)).trans
      (sumBefore_of_length_le _ (Nat.le_add_left _ _)).le
  cases src with
  | parquet =>
    have h_width := sumBefore_add_le (f := SchemaAttribute.width) (g := SchemaAttribute.size)
      (fun b hb => (h_sized _ b (List.getElem?_of_mem hb).choose_spec).1) (Nat.zero_le j)
    have h_zero : ∀ f, sumBefore f env.schema 0 = 0 := fun f => by simp [sumBefore]
    rw [h_zero, h_zero] at h_width
    change sumBefore SchemaAttribute.width env.schema j + a.size ≤ _
    omega
  | _ => exact h_size

theorem apart_fieldColumn (h_sized : Sized src env) (h : env.schema[j]? = some a)
    (h' : env.schema[j']? = some b) (h_pos : 0 < b.size) (h_lt : j < j') :
    (fieldColumn src env a j).off + (fieldColumn src env a j).size
      ≤ (fieldColumn src env b j').off := by
  change columnOffset src env j + a.size ≤ columnOffset src env j'
  cases src with
  | parquet =>
    have h_mem : b ∈ env.schema.drop (j + 1) := by
      refine List.mem_of_getElem? (i := j' - (j + 1)) ?_
      rw [List.getElem?_drop, Nat.add_sub_cancel' h_lt, h']
    have h_behind : 0 < tupleSize (env.schema.drop (j + 1)) := h_pos.trans_le
      (List.single_le_sum (fun _ _ => Nat.zero_le _) _ (List.mem_map_of_mem h_mem))
    change sumBefore SchemaAttribute.width env.schema j + a.size
      ≤ sumBefore SchemaAttribute.width env.schema j'
    rw [(h_sized j a h).2 h_behind, ← sumBefore_succ (f := SchemaAttribute.width) h]
    exact sumBefore_mono _ _ h_lt
  | _ =>
    change sumBefore SchemaAttribute.size env.schema j + a.size
      ≤ sumBefore SchemaAttribute.size env.schema j'
    rw [← sumBefore_succ (f := SchemaAttribute.size) h]
    exact sumBefore_mono _ _ h_lt

variable (src) in
/-- The bytes of another cell are outside. -/
theorem fieldAddress_disjoint (h_sized : Sized src env) (h : env.schema[j]? = some a)
    (h' : env.schema[j']? = some b) (h_pos : 0 < a.size) (h_pos' : 0 < b.size)
    (hi : i < env.tuplesPerBuffer) (hi' : i' < env.tuplesPerBuffer) (h_ne : i' ≠ i ∨ j' ≠ j) :
    fieldAddress src env b i' j' + b.size ≤ fieldAddress src env a i j ∨
      fieldAddress src env a i j + a.size ≤ fieldAddress src env b i' j' := by
  have h_apart : Layout.Apart (fieldColumn src env b j') (fieldColumn src env a j) ∨
      i' ≠ i ∧ fieldColumn src env b j' = fieldColumn src env a j := by
    rcases Nat.lt_trichotomy j' j with h_lt | rfl | h_lt
    · exact .inl (.inl (apart_fieldColumn h_sized h' h h_pos h_lt))
    · obtain rfl : a = b := Option.some.inj (h.symm.trans h')
      exact .inr ⟨h_ne.resolve_right fun h => h rfl, rfl⟩
    · exact .inl (.inr (apart_fieldColumn h_sized h h' h_pos' h_lt))
  have h_disjoint := (holds_fieldColumn src h_sized h').disjoint
    (holds_fieldColumn src h_sized h) hi' hi h_apart
  rwa [address_fieldColumn h_sized h' hi', address_fieldColumn h_sized h hi] at h_disjoint

variable (src) in
/-- A cell lies inside the vector. -/
theorem fieldAddress_add_le (h_sized : Sized src env) (h : env.schema[j]? = some a)
    (hi : i < env.tuplesPerBuffer) :
    fieldAddress src env a i j + a.size ≤ env.payloadSize := by
  have h_le := (holds_fieldColumn src h_sized h).address_add_le hi
  rwa [address_fieldColumn h_sized h hi] at h_le

/-- **Fields that fit** stay in their cells. -/
theorem FieldsFramed.of_sized (ext : External) (h_sized : Sized src env)
    (h_lengths : LengthsFit env fields) : FieldsFramed src env ext fields := by
  intro i hi j a h rest mem
  obtain ⟨bs, h_write, h_string, h_other⟩ := exists_fieldBytes src ext a (fields i j) rest
  have h_length : bs.length ≤ a.size := by
    by_cases h_tpe : a.tpe = .string
    · rw [(h_string h_tpe).1]
      exact max_le le_rfl (h_lengths i hi j a h h_tpe)
    · exact (h_other h_tpe).1.trans (h_sized j a h).1
  have h_cell : ∀ p, p < sizeofHeader + fieldAddress src env a i j ∨
      sizeofHeader + fieldAddress src env a i j + a.size ≤ p →
      (afterField src env ext a i j (fields i j) rest mem)[p]? = mem[p]? := fun p hp => by
    rw [afterField, h_write, getElem?_put, if_neg (by omega)]
  refine ⟨h_cell, ?_, fun i' hi' j' b h' h_ne => ?_, ?_, fun h_tpe => ?_⟩
  · have h_front : slice (afterField src env ext a i j (fields i j) rest mem) 0 sizeofHeader
        = slice mem 0 sizeofHeader := slice_congr fun p _ hp => h_cell p (.inl (by omega))
    exact h_front
  · -- an empty cell is no place to write to, nor one to be changed
    refine slice_congr fun p hp hp' => h_cell p ?_
    rcases Nat.eq_zero_or_pos a.size with h_zero | h_pos
    · omega
    · have h_disjoint := fieldAddress_disjoint src h_sized h h' h_pos (by omega) hi hi' h_ne
      omega
  · have h_le := fieldAddress_add_le src h_sized h hi
    refine List.ext_getElem? fun p => ?_
    rw [List.getElem?_drop, List.getElem?_drop]
    exact h_cell _ (.inr (by omega))
  · rw [afterField, h_write]
    exact (h_string h_tpe).2 (h_lengths i hi j a h h_tpe) _ _

/-! ### Fields that do not fit -/

/-- A byte that is written lies in the cell of the field. -/
theorem FieldsFramed.length_le (h : FieldsFramed src env ext fields) (hi : i < env.tuplesPerBuffer)
    (h_j : env.schema[j]? = some a) {rest bs : List UInt8}
    (h_write : ∀ mem dest, writeField src ext a (fields i j) rest mem dest = put mem dest bs) :
    bs.length ≤ a.size := by
  by_contra h_long
  obtain ⟨mem, h_changed⟩ := exists_getElem?_put_ne (Nat.lt_of_not_le h_long)
    (sizeofHeader + fieldAddress src env a i j)
  have h_cell := (h i hi j a h_j rest mem).cell _ (.inr le_rfl)
  rw [afterField, h_write] at h_cell
  exact h_changed h_cell

/-- The first byte of a field does not lie in another cell. -/
theorem FieldsFramed.not_inside (h : FieldsFramed src env ext fields)
    (h_values : ParquetValues src env fields) (hi : i < env.tuplesPerBuffer)
    (h_j : env.schema[j]? = some a) (h_pos : 0 < a.width) (hi' : i' < env.tuplesPerBuffer)
    (h_j' : env.schema[j']? = some b) (h_ne : i' ≠ i ∨ j' ≠ j) :
    ¬ (fieldAddress src env b i' j' ≤ fieldAddress src env a i j ∧
      fieldAddress src env a i j < fieldAddress src env b i' j' + b.size) := by
  intro h_inside
  obtain ⟨bs, h_write, h_string, h_other⟩ := exists_fieldBytes src ext a (fields i j) [0]
  have h_some : 0 < bs.length := by
    by_cases h_tpe : a.tpe = .string
    · rw [SchemaAttribute.width, h_tpe] at h_pos
      rw [(h_string h_tpe).1]
      exact h_pos.trans_le (le_max_left _ _)
    · rwa [(h_other h_tpe).2 (fun h_src => h_values h_src i j a h_j) (List.cons_ne_nil _ _)]
  obtain ⟨mem, h_changed⟩ := exists_getElem?_put_ne h_some
    (sizeofHeader + fieldAddress src env a i j)
  have h_slice := (h i hi j a h_j [0] mem).others i' hi' j' b h_j' h_ne
  rw [afterField, h_write] at h_slice
  exact h_changed (getElem?_eq_of_slice_eq (by omega) (by omega) h_slice)

theorem FieldsFramed.width_le (h : FieldsFramed src env ext fields)
    (h_values : ParquetValues src env fields) (h_tuples : 0 < env.tuplesPerBuffer)
    (h_j : env.schema[j]? = some a) : a.width ≤ a.size := by
  by_cases h_tpe : a.tpe = .string
  · rw [SchemaAttribute.width, h_tpe]
  · obtain ⟨bs, h_write, -, h_other⟩ := exists_fieldBytes src ext a (fields 0 j) [0]
    rw [← (h_other h_tpe).2 (fun h_src => h_values h_src 0 j a h_j) (List.cons_ne_nil _ _)]
    exact h.length_le h_tuples h_j h_write

/-- An attribute that is larger than its type is not a string. -/
theorem width_pos_of_lt (h : a.width < a.size) : 0 < a.width := by
  obtain ⟨tpe, size⟩ := a
  cases tpe with
  | string => exact absurd h (lt_irrefl _)
  | int => exact Nat.succ_pos _
  | double => exact Nat.succ_pos _
  | char => exact Nat.succ_pos _

/-- In column format `deserializeCSV` puts the cells of a column as close as its type allows. -/
theorem FieldsFramed.size_eq_csv (h : FieldsFramed .csv env ext fields)
    (h_format : env.iformat ≠ 1) (h_tuples : 1 < env.tuplesPerBuffer)
    (h_j : env.schema[j]? = some a) : a.size = a.width := by
  refine le_antisymm (Nat.le_of_not_lt fun h_lt => ?_) (h.width_le nofun (by omega) h_j)
  have h_pos := width_pos_of_lt h_lt
  have h_first : 0 < env.tuplesPerBuffer := by omega
  refine h.not_inside nofun h_tuples h_j h_pos h_first h_j (.inl Nat.zero_ne_one) ?_
  have h_stride : columnStride .csv a = a.width := rfl
  simp only [fieldAddress, cellAddress, if_neg h_format, h_stride]
  omega

/-- `deserializePQ` puts the columns as close as their types allow. -/
theorem FieldsFramed.size_eq_parquet (h : FieldsFramed .parquet env ext fields)
    (h_values : ParquetValues .parquet env fields) (h_tuples : 0 < env.tuplesPerBuffer)
    (h_behind : 0 < tupleSize (env.schema.drop (j + 1))) (h_j : env.schema[j]? = some a) :
    a.size = a.width := by
  refine le_antisymm (Nat.le_of_not_lt fun h_lt => ?_) (h.width_le h_values h_tuples h_j)
  have h_sizes : ∀ b ∈ env.schema, b.width ≤ b.size := fun b hb =>
    h.width_le h_values h_tuples (List.getElem?_of_mem hb).choose_spec
  obtain ⟨k, b, hk, h_k, h_pos, h_same⟩ := exists_next h_behind
  have h_width : 0 < b.width := by
    by_contra h_zero
    have h_lt' : b.width < b.size := by omega
    exact h_zero (width_pos_of_lt h_lt')
  -- the next column begins where the type of this one ends
  have h_off : columnOffset .parquet env k = columnOffset .parquet env j + a.width := by
    have h_next : j + 1 ≤ k := hk
    have h_le := sumBefore_add_le h_sizes h_next
    have h_mono := sumBefore_mono SchemaAttribute.width env.schema h_next
    have h_succ := sumBefore_succ (f := SchemaAttribute.width) h_j
    change sumBefore SchemaAttribute.width env.schema k
      = sumBefore SchemaAttribute.width env.schema j + a.width
    omega
  have h_stride : ∀ c : SchemaAttribute, columnStride .parquet c = c.size := fun _ => rfl
  by_cases h_format : env.iformat = 1
  · refine h.not_inside h_values h_tuples h_k h_width h_tuples h_j (.inr (by omega)) ?_
    simp only [fieldAddress, cellAddress, if_pos h_format, h_off]
    omega
  · -- the cell of this column in which the first cell of the next one begins
    have h_div := Nat.div_mul_le_self (env.tuplesPerBuffer * a.width) a.size
    have h_mod := Nat.lt_div_mul_add (a := env.tuplesPerBuffer * a.width) (b := a.size) (by omega)
    have h_row : env.tuplesPerBuffer * a.width / a.size < env.tuplesPerBuffer :=
      Nat.div_lt_of_lt_mul (by
        rw [Nat.mul_comm a.size]
        exact Nat.mul_lt_mul_of_pos_left h_lt h_tuples)
    refine h.not_inside h_values h_tuples h_k h_width h_row h_j (.inr (by omega)) ?_
    simp only [fieldAddress, cellAddress, if_neg h_format, h_off, h_stride, Nat.add_mul,
      Nat.zero_mul, Nat.mul_comm a.width]
    omega

/-- **Framed writes need room**: the declared sizes suit the reader. -/
theorem FieldsFramed.sized (h : FieldsFramed src env ext fields)
    (h_values : ParquetValues src env fields) (h_tuples : 0 < env.tuplesPerBuffer) :
    Sized src env := by
  refine fun j a h_j => ⟨h.width_le h_values h_tuples h_j, fun h_tight => ?_⟩
  cases src with
  | csv => exact h.size_eq_csv h_tight.1 h_tight.2 h_j
  | postgres => exact h_tight.elim
  | parquet => exact h.size_eq_parquet h_values h_tuples h_tight h_j

/-- **The fields of a buffer stay in their cells** exactly if the declared sizes suit the reader and
no string is longer than its attribute. -/
theorem field_framed_iff (src : Source) (env : RuntimeEnv) (ext : External)
    (fields : ℕ → ℕ → List UInt8) (h_values : ParquetValues src env fields) :
    FieldsFramed src env ext fields ↔
      (0 < env.tuplesPerBuffer → Sized src env) ∧ LengthsFit env fields := by
  constructor
  · refine fun h => ⟨h.sized h_values, fun i hi j a h_j h_tpe => ?_⟩
    obtain ⟨bs, h_write, h_string, -⟩ := exists_fieldBytes src ext a (fields i j) []
    exact (le_max_right _ _).trans ((h_string h_tpe).1.symm.le.trans (h.length_le hi h_j h_write))
  · rintro ⟨h_sized, h_lengths⟩ i hi
    exact FieldsFramed.of_sized ext (h_sized (by omega)) h_lengths i hi

end Fields

/-- A table with a string of four bytes and an integer. -/
def shortStringEnv : RuntimeEnv := { oneCharEnv with schema := [⟨.string, 4⟩, ⟨.int, 4⟩] }

/-- A file with one line for it, whose string is too long. -/
def oneLine : External where
  file := [55, 55, 55, 55, 55, 44, 56, newline]
  codecs := storingCodecs

/-- Strings of three bytes leave the integers alone. -/
theorem field_framed_shortString :
    FieldsFramed .csv shortStringEnv oneLine fun _ _ => [55, 56, 57] := by
  refine (field_framed_iff .csv shortStringEnv oneLine _ nofun).mpr ⟨fun _ j a h_j => ?_,
    fun _ _ j a h_j h_tpe => ?_⟩
  · have h_mem : ∀ b ∈ shortStringEnv.schema, b.width ≤ b.size ∧ b.size = b.width := by decide
    obtain ⟨h_le, h_eq⟩ := h_mem a (List.mem_of_getElem? h_j)
    exact ⟨h_le, fun _ => h_eq⟩
  · have h_mem : ∀ b ∈ shortStringEnv.schema, 3 ≤ b.size := by decide
    exact h_mem a (List.mem_of_getElem? h_j)

/-- A string of five bytes does not fit the cell. -/
theorem field_not_framed :
    ¬ ∀ (src : Source) (env : RuntimeEnv) (ext : External) (fields : ℕ → ℕ → List UInt8),
      ParquetValues src env fields → FieldsFramed src env ext fields := by
  intro h
  have h_framed := h .csv shortStringEnv oneLine (fun _ _ => [55, 55, 55, 55, 55]) nofun
  obtain ⟨bs, h_write, h_string, -⟩ := exists_fieldBytes .csv oneLine ⟨.string, 4⟩
    [55, 55, 55, 55, 55] []
  have h_le := h_framed.length_le (i := 0) (j := 0) (by decide) rfl h_write
  rw [(h_string rfl).1] at h_le
  exact absurd h_le (by decide)

end Xdbc.Server
