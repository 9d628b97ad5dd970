import Xdbc.Schema

/-!
# Which schemas are admitted

The schema is what a client sends: `createSchemaFromJsonString` takes any number of attributes with
any sizes, and `serve` computes with `int` what all later code relies on. The server refuses no
schema, so the computation goes well exactly for the schemas that are sound: the sizes from every
attribute on add up to what its deserializer writes, no sum in front of one is negative, and a tuple
has a size and fits a buffer (`schema_admitted_iff`). An empty schema divides by zero.
-/

namespace Xdbc.Server

/-! ### The schema as it is sent -/

/-- An entry of the schema in the JSON text; the name is not used. -/
structure JsonAttribute where
  type : String
  size : ℤ

/-- A `SchemaAttribute` of the server, whose `size` is an `int`. -/
structure Attribute where
  tpe : String
  size : ℤ
  deriving DecidableEq

/-- `createSchemaFromJsonString`: a number is cast to `int`. -/
def createSchemaFromJsonString (items : List JsonAttribute) : List Attribute :=
  items.map fun item => ⟨item.type, Int.bmod item.size (2 ^ 32)⟩

/-- The type of an attribute, by the first letter of `tpe`; a name may have none. -/
def Attribute.type (a : Attribute) : Option AttrType :=
  match a.tpe.toList.head? with
  | some 'I' => some .int
  | some 'D' => some .double
  | some 'C' => some .char
  | some 'S' => some .string
  | _ => none

/-- The bytes a deserializer writes for a field that is not longer than the attribute; there is no
deserializer for an unknown type. -/
def Attribute.written (a : Attribute) : Option ℕ :=
  a.type.map fun
    | .int => 4
    | .double => 8
    | .char => 1
    | .string => toSizeT a.size

/-! ### What `serve` computes -/

/-- The undefined behaviour of `int`. -/
inductive Fault where
  | overflow
  | divisionByZero
  deriving DecidableEq

/-- A value of an `int`. -/
def IsInt (z : ℤ) : Prop := -2 ^ 31 ≤ z ∧ z < 2 ^ 31

instance (z : ℤ) : Decidable (IsInt z) := instDecidableAnd

/-- The result of an `int` operation. -/
def toInt (z : ℤ) : Except Fault ℤ := if IsInt z then .ok z else .error .overflow

/-- `tuple_size`. -/
def accumulateSizes (acc : ℤ) : List Attribute → Except Fault ℤ
  | [] => .ok acc
  | a :: schema => (toInt (acc + a.size)).bind fun acc => accumulateSizes acc schema

/-- `tuples_per_buffer`. -/
def divideBuffer (bufferSize tupleSize : ℤ) : Except Fault ℤ :=
  (toInt (bufferSize * 1024)).bind fun bytes =>
    if tupleSize = 0 then .error .divisionByZero else .ok (bytes.tdiv tupleSize)

/-- `tuple_size` and `tuples_per_buffer`. -/
def serveSizes (bufferSize : ℤ) (schema : List Attribute) : Except Fault (ℤ × ℤ) :=
  (accumulateSizes 0 schema).bind fun tupleSize =>
    (divideBuffer bufferSize tupleSize).map fun tuplesPerBuffer => (tupleSize, tuplesPerBuffer)

/-- The sum of the sizes. -/
def sumSizes (schema : List Attribute) : ℤ := (schema.map Attribute.size).sum

/-- `bytesInTuple` in front of attribute `j`. -/
def bytesInTuple (schema : List Attribute) (j : ℕ) : ℤ := sumSizes (schema.take j)

/-- The sizes that `serve` computes are as the later code needs them. -/
def Admitted (bufferSize : ℤ) (schema : List Attribute) : Prop :=
  ∃ tupleSize tuplesPerBuffer : ℤ,
    serveSizes bufferSize schema = .ok (tupleSize, tuplesPerBuffer) ∧
    1 ≤ tupleSize ∧ 1 ≤ tuplesPerBuffer ∧ tuplesPerBuffer * tupleSize ≤ bufferSize * 1024 ∧
    ∀ (j : ℕ) (a : Attribute), schema[j]? = some a → ∃ w, a.written = some w ∧
      0 ≤ bytesInTuple schema j ∧ bytesInTuple schema j + w ≤ tupleSize

/-- A schema that is as it should be. -/
structure SoundSchema (bufferSize : ℤ) (schema : List Attribute) : Prop where
  buffer : bufferSize * 1024 < 2 ^ 31
  pos : 1 ≤ sumSizes schema
  fits : sumSizes schema ≤ bufferSize * 1024
  cells : ∀ (j : ℕ) (a : Attribute), schema[j]? = some a → ∃ w, a.written = some w ∧
    0 ≤ sumSizes (schema.take j) ∧ (w : ℤ) ≤ sumSizes (schema.drop j)

/-! ### The sums -/

variable {bufferSize : ℤ} {schema : List Attribute}

theorem toInt_eq_ok {z z' : ℤ} : toInt z = .ok z' ↔ IsInt z ∧ z' = z := by
  unfold toInt
  split
  · next h => exact ⟨fun h_eq => ⟨h, (Except.ok.inj h_eq).symm⟩, fun h_eq => by rw [h_eq.2]⟩
  · next h => exact ⟨nofun, fun h_eq => absurd h_eq.1 h⟩

theorem sumSizes_cons (a : Attribute) (schema : List Attribute) :
    sumSizes (a :: schema) = a.size + sumSizes schema := by
  rw [sumSizes, List.map_cons, List.sum_cons]
  rfl

theorem sumSizes_take_add_drop (schema : List Attribute) (j : ℕ) :
    sumSizes (schema.take j) + sumSizes (schema.drop j) = sumSizes schema := by
  rw [sumSizes, sumSizes, ← List.sum_append, ← List.map_append, List.take_append_drop]
  rfl

/-- **The accumulation goes well if every partial sum is an `int`.** -/
theorem accumulateSizes_eq_ok {acc t : ℤ} :
    accumulateSizes acc schema = .ok t ↔
      t = acc + sumSizes schema ∧ ∀ j < schema.length, IsInt (acc + bytesInTuple schema (j + 1)) := by
  induction schema generalizing acc with
  | nil =>
    rw [accumulateSizes, Except.ok.injEq, sumSizes, List.map_nil, List.sum_nil, add_zero]
    exact ⟨fun h => ⟨h.symm, fun j hj => absurd hj (Nat.not_lt_zero j)⟩, fun h => h.1.symm⟩
  | cons a schema ih =>
    -- the sums of the other columns, with this one in front
    have h_shift : ∀ j, acc + bytesInTuple (a :: schema) (j + 1)
        = acc + a.size + bytesInTuple schema j := fun j => by
      rw [bytesInTuple, List.take_succ_cons, sumSizes_cons, add_assoc]
      rfl
    have h_zero : acc + bytesInTuple (a :: schema) (0 + 1) = acc + a.size := by
      rw [h_shift]
      exact add_zero _
    rw [accumulateSizes, sumSizes_cons, ← add_assoc]
    constructor
    · -- the addition of this column overflows, or it does not
      intro h
      cases h_int : toInt (acc + a.size) with
      | error fault =>
        rw [h_int] at h
        cases h
      | ok acc' =>
        obtain ⟨h_first, rfl⟩ := toInt_eq_ok.mp h_int
        rw [h_int] at h
        obtain ⟨h_sum, h_partial⟩ := ih.mp h
        refine ⟨h_sum, fun j hj => ?_⟩
        cases j with
        | zero => rwa [h_zero]
        | succ j =>
          rw [h_shift]
          exact h_partial j (Nat.lt_of_succ_lt_succ hj)
    · rintro ⟨rfl, h_partial⟩
      have h_first := h_partial 0 (Nat.succ_pos _)
      rw [h_zero] at h_first
      rw [toInt_eq_ok.mpr ⟨h_first, rfl⟩]
      refine ih.mpr ⟨rfl, fun j hj => ?_⟩
      rw [← h_shift]
      exact h_partial (j + 1) (Nat.succ_lt_succ hj)

theorem serveSizes_eq_ok {t n : ℤ} :
    serveSizes bufferSize schema = .ok (t, n) ↔ accumulateSizes 0 schema = .ok t ∧
      IsInt (bufferSize * 1024) ∧ t ≠ 0 ∧ n = (bufferSize * 1024).tdiv t := by
  rw [serveSizes]
  cases h_sum : accumulateSizes 0 schema with
  | error fault => exact iff_of_false nofun fun h => nomatch h.1
  | ok t' =>
    change (divideBuffer bufferSize t').map (fun n => (t', n)) = _ ↔ _
    rw [divideBuffer]
    -- `buffer_size * 1024` overflows, or it does not
    cases h_bytes : toInt (bufferSize * 1024) with
    | error fault =>
      refine iff_of_false nofun fun h => ?_
      rw [toInt_eq_ok.mpr ⟨h.2.1, rfl⟩] at h_bytes
      cases h_bytes
    | ok bytes =>
      obtain ⟨h_int, rfl⟩ := toInt_eq_ok.mp h_bytes
      change Except.map _ (if t' = 0 then _ else _) = _ ↔ _
      -- and there is no division by zero
      split
      · next h_zero =>
        refine iff_of_false nofun fun h => h.2.2.1 ?_
        rw [← Except.ok.inj h.1]
        exact h_zero
      · next h_zero =>
        constructor
        · intro h
          obtain ⟨rfl, rfl⟩ := Prod.mk.inj (Except.ok.inj h)
          exact ⟨rfl, h_int, h_zero, rfl⟩
        · rintro ⟨h, -, -, rfl⟩
          cases h
          rfl

/-! ### The condition -/

/-- The offsets of a sound schema are between zero and the size of the tuple. -/
theorem SoundSchema.isInt (h : SoundSchema bufferSize schema) :
    ∀ j < schema.length, IsInt (0 + bytesInTuple schema (j + 1)) := by
  intro j _
  have h_buffer := h.buffer
  have h_pos := h.pos
  have h_fits := h.fits
  rw [zero_add]
  rcases Nat.lt_or_ge (j + 1) schema.length with h_lt | h_ge
  · obtain ⟨w, -, h_front, h_room⟩ := h.cells (j + 1) _ (List.getElem?_eq_getElem h_lt)
    have h_split := sumSizes_take_add_drop schema (j + 1)
    unfold IsInt bytesInTuple
    omega
  · rw [bytesInTuple, List.take_of_length_le h_ge]
    unfold IsInt
    omega

theorem SoundSchema.admitted (h : SoundSchema bufferSize schema) : Admitted bufferSize schema := by
  have h_buffer := h.buffer
  have h_pos := h.pos
  have h_fits := h.fits
  have h_div : (bufferSize * 1024).tdiv (sumSizes schema) = bufferSize * 1024 / sumSizes schema :=
    Int.tdiv_eq_ediv_of_nonneg (by omega)
  refine ⟨sumSizes schema, (bufferSize * 1024).tdiv (sumSizes schema), serveSizes_eq_ok.mpr
    ⟨accumulateSizes_eq_ok.mpr ⟨(zero_add _).symm, h.isInt⟩, ?_, ?_, rfl⟩, h_pos, ?_, ?_, ?_⟩
  · unfold IsInt
    omega
  · omega
  · rw [h_div]
    exact (Int.le_ediv_iff_mul_le (by omega)).mpr (by omega)
  · rw [h_div]
    exact Int.ediv_mul_le _ (by omega)
  · intro j a hj
    obtain ⟨w, h_written, h_front, h_room⟩ := h.cells j a hj
    have h_split := sumSizes_take_add_drop schema j
    exact ⟨w, h_written, h_front, by unfold bytesInTuple; omega⟩

/-- **Which schemas are admitted.** -/
theorem schema_admitted_iff (bufferSize : ℤ) (items : List JsonAttribute) :
    Admitted bufferSize (createSchemaFromJsonString items)
      ↔ SoundSchema bufferSize (createSchemaFromJsonString items) := by
  refine ⟨fun h => ?_, SoundSchema.admitted⟩
  generalize createSchemaFromJsonString items = schema at h ⊢
  obtain ⟨t, n, h_serve, h_size, h_count, h_room, h_cells⟩ := h
  obtain ⟨h_sum, h_int, -, rfl⟩ := serveSizes_eq_ok.mp h_serve
  obtain ⟨rfl, -⟩ := accumulateSizes_eq_ok.mp h_sum
  rw [zero_add] at h_size h_count h_room h_cells
  refine ⟨h_int.2, h_size, ?_, fun j a hj => ?_⟩
  · -- at least one tuple fits
    have h_one := mul_le_mul_of_nonneg_right h_count (by omega : 0 ≤ sumSizes schema)
    omega
  · obtain ⟨w, h_written, h_front, h_end⟩ := h_cells j a hj
    have h_split := sumSizes_take_add_drop schema j
    exact ⟨w, h_written, h_front, by unfold bytesInTuple at h_end; omega⟩

/-- The empty schema, which the test of `createSchemaFromJsonString` accepts, divides by zero. -/
theorem empty_schema_not_admitted : ¬ Admitted 1 (createSchemaFromJsonString []) := by
  rintro ⟨t, n, h_serve, -⟩
  cases h_serve

/-! ### The schemas of the other modules -/

/-- The name of a type. -/
def typeName : AttrType → String
  | .int => "INT"
  | .double => "DOUBLE"
  | .char => "CHAR"
  | .string => "STRING"

/-- An attribute as the client sends it. -/
def toAttribute (a : SchemaAttribute) : Attribute := ⟨typeName a.tpe, a.size⟩

theorem sumSizes_map (schema : List SchemaAttribute) :
    sumSizes (schema.map toAttribute) = tupleSize schema := by
  induction schema with
  | nil => rfl
  | cons a schema ih =>
    rw [List.map_cons, sumSizes_cons, ih, tupleSize, tupleSize, List.map_cons, List.sum_cons,
      Nat.cast_add]
    rfl

theorem type_toAttribute (a : SchemaAttribute) : (toAttribute a).type = some a.tpe := by
  obtain ⟨tpe, size⟩ := a
  cases tpe <;> simp [Attribute.type, toAttribute, typeName]

theorem written_toAttribute (a : SchemaAttribute) : (toAttribute a).written = some a.width := by
  rw [Attribute.written, type_toAttribute]
  obtain ⟨tpe, size⟩ := a
  cases tpe with
  | string => exact congrArg some (toSizeT_natCast size)
  | _ => rfl

/-- **A schema with room for its fields is admitted**, and `serve` computes the sizes of the
model. -/
theorem admitted_of_width_le {schema : List SchemaAttribute} {bufferSize : ℕ}
    (h_width : ∀ a ∈ schema, a.width ≤ a.size) (h_buffer : bufferSize * 1024 < 2 ^ 31)
    (h_pos : 1 ≤ tuplesPerBuffer bufferSize schema) :
    Admitted bufferSize (schema.map toAttribute) ∧
      serveSizes bufferSize (schema.map toAttribute)
        = .ok (↑(tupleSize schema), ↑(tuplesPerBuffer bufferSize schema)) := by
  have h_size : 0 < tupleSize schema := by
    by_contra h_zero
    rw [tuplesPerBuffer, Nat.eq_zero_of_not_pos h_zero, Nat.div_zero] at h_pos
    omega
  -- one tuple fits, so `tuple_size` is no more than the buffer
  have h_fits : tupleSize schema ≤ bufferSize * 1024 := by
    have h_one := (Nat.le_div_iff_mul_le h_size).mp h_pos
    omega
  have h_sound : SoundSchema bufferSize (schema.map toAttribute) := by
    refine ⟨by omega, by rw [sumSizes_map]; omega, by rw [sumSizes_map]; omega, fun j a hj => ?_⟩
    rw [List.getElem?_map] at hj
    obtain ⟨b, hb, rfl⟩ := Option.map_eq_some_iff.mp hj
    refine ⟨b.width, written_toAttribute b, ?_, ?_⟩
    · rw [← List.map_take, sumSizes_map]
      exact Nat.cast_nonneg _
    · obtain ⟨h_lt, rfl⟩ := List.getElem?_eq_some_iff.mp hb
      rw [← List.map_drop, sumSizes_map, List.drop_eq_getElem_cons h_lt, tupleSize, List.map_cons,
        List.sum_cons]
      exact Nat.cast_le.mpr ((h_width _ (List.getElem_mem h_lt)).trans (Nat.le_add_right _ _))
  refine ⟨h_sound.admitted, serveSizes_eq_ok.mpr ⟨accumulateSizes_eq_ok.mpr
    ⟨by rw [sumSizes_map, zero_add], h_sound.isInt⟩, ⟨by omega, by omega⟩, by omega, ?_⟩⟩
  rw [Int.tdiv_eq_ediv_of_nonneg (by omega), tuplesPerBuffer]
  push_cast
  rfl

end Xdbc.Server
