import Xdbc.Client.Rows
import Xdbc.Bytes.Double

/-!
# How long a line is

`serialize` compares what it has written with an estimate of the longest line (`maxTupleSize`). This
module gives the lengths that lines really have. The text of an attribute has a least and a greatest
length, all lengths in between occur, and so it is for lines (`Printer.length_lineWith`,
`Printer.exists_lineWith`). The estimate for a double is 24 characters, and its text has up to 314.
-/

namespace Xdbc.Client

open Bytes

/-! ### Texts between two lengths -/

/-- A serializer of attributes: `ok` data are written with `lo` to `hi` characters, and any number
in between is written for `good` data. -/
structure Printer where
  text : SchemaAttribute → List UInt8 → UInt8 → List UInt8
  ok : SchemaAttribute → List UInt8 → Prop
  good : SchemaAttribute → List UInt8 → Prop
  lo : SchemaAttribute → ℕ
  hi : SchemaAttribute → ℕ
  lo_pos : ∀ a, 1 ≤ lo a
  lo_le_hi : ∀ a, lo a ≤ hi a
  length_text : ∀ a data, ok a data → ∀ d,
    lo a ≤ (text a data d).length ∧ (text a data d).length ≤ hi a
  exists_text : ∀ a n, lo a ≤ n → n ≤ hi a → ∃ data, good a data ∧ ∀ d, (text a data d).length = n

namespace Printer

variable (P : Printer)

/-- The line of a row. -/
def lineWith : List SchemaAttribute → List (List UInt8) → List UInt8
  | a :: schema, data :: row => P.text a data (delimiterBefore schema) ++ lineWith schema row
  | _, _ => []

/-- The length of the shortest line. -/
def minLine (schema : List SchemaAttribute) : ℕ := (schema.map P.lo).sum

/-- The length of the longest line. -/
def maxLine (schema : List SchemaAttribute) : ℕ := (schema.map P.hi).sum

theorem minLine_le_maxLine (schema : List SchemaAttribute) : P.minLine schema ≤ P.maxLine schema :=
  List.sum_le_sum fun a _ => P.lo_le_hi a

theorem one_le_minLine {schema : List SchemaAttribute} (h : schema ≠ []) : 1 ≤ P.minLine schema := by
  cases schema with
  | nil => exact absurd rfl h
  | cons a schema =>
    rw [minLine, List.map_cons, List.sum_cons]
    exact (P.lo_pos a).trans (Nat.le_add_right _ _)

/-- **Every line is between the shortest and the longest.** -/
theorem length_lineWith {schema : List SchemaAttribute} {row : List (List UInt8)}
    (h : List.Forall₂ P.ok schema row) :
    P.minLine schema ≤ (P.lineWith schema row).length ∧
      (P.lineWith schema row).length ≤ P.maxLine schema := by
  induction h with
  | nil => exact ⟨le_rfl, le_rfl⟩
  | @cons a data schema row h_data _ ih =>
    have h_first := P.length_text a data h_data (delimiterBefore schema)
    simp only [minLine, maxLine, lineWith, List.map_cons, List.sum_cons, List.length_append] at ih ⊢
    omega

/-- **All lengths in between occur.** -/
theorem exists_lineWith {schema : List SchemaAttribute} {n : ℕ} (h_lo : P.minLine schema ≤ n)
    (h_hi : n ≤ P.maxLine schema) :
    ∃ row, List.Forall₂ P.good schema row ∧ (P.lineWith schema row).length = n := by
  induction schema generalizing n with
  | nil => exact ⟨[], .nil, (Nat.le_zero.mp h_hi).symm⟩
  | cons a schema ih =>
    have h_rest := P.minLine_le_maxLine schema
    have h_first := P.lo_le_hi a
    simp only [minLine, maxLine, List.map_cons, List.sum_cons] at h_lo h_hi h_rest ih
    -- the first attribute takes what the others leave, but not less than it needs
    obtain ⟨data, h_good, h_length⟩ := P.exists_text a
      (max (P.lo a) (n - (schema.map P.hi).sum)) (le_max_left _ _) (by omega)
    obtain ⟨row, h_row, h_line⟩ := ih (n := n - max (P.lo a) (n - (schema.map P.hi).sum))
      (by omega) (by omega)
    refine ⟨data :: row, .cons h_good h_row, ?_⟩
    rw [lineWith, List.length_append, h_length, h_line]
    omega

/-- So it is for several lines together. -/
theorem exists_lines {schema : List SchemaAttribute} {k s : ℕ} (h_lo : k * P.minLine schema ≤ s)
    (h_hi : s ≤ k * P.maxLine schema) :
    ∃ rows : List (List (List UInt8)), rows.length = k ∧
      (∀ row ∈ rows, List.Forall₂ P.good schema row) ∧
      (rows.map fun row => (P.lineWith schema row).length).sum = s := by
  induction k generalizing s with
  | zero =>
    rw [Nat.zero_mul] at h_hi
    exact ⟨[], rfl, List.forall_mem_nil _, (Nat.le_zero.mp h_hi).symm⟩
  | succ k ih =>
    have h_le := P.minLine_le_maxLine schema
    have h_rest := Nat.mul_le_mul_left k h_le
    rw [Nat.succ_mul] at h_lo h_hi
    -- the first line takes what the others leave, but not less than it needs
    obtain ⟨row, h_row, h_line⟩ := P.exists_lineWith
      (le_max_left (P.minLine schema) (s - k * P.maxLine schema)) (by omega)
    obtain ⟨rows, h_length, h_rows, h_sum⟩ := ih
      (s := s - max (P.minLine schema) (s - k * P.maxLine schema)) (by omega) (by omega)
    refine ⟨row :: rows, by rw [List.length_cons, h_length],
      List.forall_mem_cons.mpr ⟨h_row, h_rows⟩, ?_⟩
    rw [List.map_cons, List.sum_cons, h_line, h_sum]
    omega

end Printer

/-! ### Numbers as text -/

theorem length_printInt {z : ℤ} (h_lo : -2 ^ 31 ≤ z) (h_hi : z < 2 ^ 31) :
    1 ≤ (printInt z).length ∧ (printInt z).length ≤ 11 := by
  have h_pos := length_printNat_pos z.natAbs
  have h_le : (printNat z.natAbs).length ≤ 10 := length_printNat_le (by decide) (by omega)
  rw [printInt]
  split
  · rw [List.length_cons]
    omega
  · omega

/-- There is an integer with any of these lengths. -/
theorem exists_length_printInt {n : ℕ} (h_lo : 1 ≤ n) (h_hi : n ≤ 11) :
    ∃ z : ℤ, -2 ^ 31 ≤ z ∧ z < 2 ^ 31 ∧ (printInt z).length = n := by
  have h_max : 10 ^ 9 < 2 ^ 31 := by decide
  rcases Nat.lt_or_ge n 11 with h_small | h_large
  · have h_pow : 10 ^ (n - 1) ≤ 10 ^ 9 := Nat.pow_le_pow_right (by decide) (by omega)
    have h_length : (printNat (10 ^ (n - 1))).length = n - 1 + 1 := length_printNat_eq le_rfl
      (Nat.pow_lt_pow_right (by decide) (Nat.lt_succ_self _))
    generalize 10 ^ (n - 1) = q at h_pow h_length
    refine ⟨(q : ℕ), by omega, by omega, ?_⟩
    rw [printInt, if_neg (by omega), Int.natAbs_natCast, h_length]
    omega
  · refine ⟨-(10 ^ 9 : ℕ), by omega, by omega, ?_⟩
    rw [printInt, if_pos (by omega), Int.natAbs_neg, Int.natAbs_natCast, List.length_cons,
      length_printNat_eq le_rfl (by decide)]
    omega

theorem int32OfBytes_mem (bs : List UInt8) :
    -2 ^ 31 ≤ int32OfBytes bs ∧ int32OfBytes bs < 2 ^ 31 := by
  have h_lo := Int.le_bmod (x := (ofLeBytes bs : ℤ)) (m := 2 ^ 32) (by decide)
  have h_hi := Int.bmod_lt (x := (ofLeBytes bs : ℤ)) (m := 2 ^ 32) (by decide)
  unfold int32OfBytes
  norm_num at h_lo h_hi ⊢
  exact ⟨h_lo, h_hi⟩

/-! ### The two serializers -/

/-- The shortest text of a serialized attribute. -/
def minAttribute (a : SchemaAttribute) : ℕ :=
  match a.tpe with
  | .int => 2
  | .double => 5
  | .char => 2
  | .string => 1

/-- The longest text of a serialized attribute, of finite doubles. -/
def maxAttribute (a : SchemaAttribute) : ℕ :=
  match a.tpe with
  | .int => 12
  | .double => 314
  | .char => 2
  | .string => a.size + 1

/-- The shortest text of a serialized attribute of a Parquet file. -/
def minParquetAttribute (a : SchemaAttribute) : ℕ :=
  match a.tpe with
  | .int => 2
  | .double => 5
  | .char => 1
  | .string => 1

theorem one_le_minAttribute (a : SchemaAttribute) : 1 ≤ minAttribute a := by
  unfold minAttribute
  split <;> decide

theorem one_le_minParquetAttribute (a : SchemaAttribute) : 1 ≤ minParquetAttribute a := by
  unfold minParquetAttribute
  split <;> decide

theorem minAttribute_le_maxAttribute (a : SchemaAttribute) : minAttribute a ≤ maxAttribute a := by
  unfold minAttribute maxAttribute
  split <;> omega

theorem minParquetAttribute_le_maxAttribute (a : SchemaAttribute) :
    minParquetAttribute a ≤ maxAttribute a := by
  unfold minParquetAttribute maxAttribute
  split <;> omega

/-- The memory of a double. -/
def doubleOfBytes (data : List UInt8) : UInt64 := UInt64.ofNat (ofLeBytes data)

/-- A double in a cell is finite. -/
def FiniteCell (a : SchemaAttribute) (data : List UInt8) : Prop :=
  a.tpe = .double → IsFinite (doubleOfBytes (data.take 8))

/-- A double among the values of a row of a Parquet file is finite. -/
def ParquetCell (a : SchemaAttribute) (value : List UInt8) : Prop :=
  a.tpe = .double → IsFinite (doubleOfBytes value)

theorem doubleOfBytes_leBytes (x : UInt64) : doubleOfBytes (leBytes 8 x.toNat) = x := by
  have h_lt : x.toNat < 256 ^ 8 := x.toNat_lt
  rw [doubleOfBytes, ofLeBytes_leBytes, Nat.mod_eq_of_lt h_lt, UInt64.ofNat_toNat]

section Printers

variable {ext : External}

/-- The lengths of the texts of `SerializeAttribute`. -/
theorem length_serializeAttribute (h_print : ext.formatDouble = printDouble) (a : SchemaAttribute)
    (data : List UInt8) (h : FiniteCell a data) (d : UInt8) :
    minAttribute a ≤ (serializeAttribute ext a data d).length ∧
      (serializeAttribute ext a data d).length ≤ maxAttribute a := by
  obtain ⟨tpe, size⟩ := a
  cases tpe with
  | int =>
    have h_range := int32OfBytes_mem (data.take 4)
    have h_length := length_printInt h_range.1 h_range.2
    simp only [serializeAttribute, minAttribute, maxAttribute, List.length_append,
      List.length_singleton]
    omega
  | double =>
    have h_length := length_printDouble (h rfl)
    simp only [serializeAttribute, minAttribute, maxAttribute, List.length_append,
      List.length_singleton, h_print]
    rw [doubleOfBytes] at h_length
    omega
  | char => exact ⟨le_rfl, le_rfl⟩
  | string =>
    -- the text of a string ends at its first NUL
    have h_len : strnlen data size ≤ size := by
      unfold strnlen
      exact (List.takeWhile_prefix _).length_le.trans (List.length_take_le _ _)
    simp only [serializeAttribute, minAttribute, maxAttribute, SchemaAttribute.width,
      List.length_append, List.length_singleton, List.length_take]
    omega

/-- All lengths in between occur. -/
theorem exists_serializeAttribute (h_print : ext.formatDouble = printDouble) (a : SchemaAttribute)
    (n : ℕ) (h_lo : minAttribute a ≤ n) (h_hi : n ≤ maxAttribute a) :
    ∃ data, (data.length = a.width ∧ FiniteCell a data) ∧
      ∀ d, (serializeAttribute ext a data d).length = n := by
  obtain ⟨tpe, size⟩ := a
  cases tpe with
  | int =>
    simp only [minAttribute, maxAttribute] at h_lo h_hi
    -- an integer with as many digits
    obtain ⟨z, hz_lo, hz_hi, h_length⟩ := exists_length_printInt (n := n - 1) (by omega) (by omega)
    refine ⟨int32Bytes z, ⟨length_int32Bytes z, fun h => by cases h⟩, fun d => ?_⟩
    have h_take : (int32Bytes z).take 4 = int32Bytes z :=
      List.take_of_length_le (length_int32Bytes z).le
    rw [serializeAttribute, h_take, int32OfBytes_int32Bytes hz_lo hz_hi, List.length_append,
      h_length, List.length_singleton]
    omega
  | double =>
    simp only [minAttribute, maxAttribute] at h_lo h_hi
    -- a finite double that is printed as long
    obtain ⟨x, h_finite, h_length⟩ := exists_length_printDouble (n := n - 1) (by omega) (by omega)
    have h_take : (leBytes 8 x.toNat).take 8 = leBytes 8 x.toNat :=
      List.take_of_length_le (length_leBytes 8 _).le
    have h_double : doubleOfBytes ((leBytes 8 x.toNat).take 8) = x := by
      rw [h_take, doubleOfBytes_leBytes]
    have h_cell : FiniteCell ⟨.double, size⟩ (leBytes 8 x.toNat) := fun _ => by
      rw [h_double]
      exact h_finite
    refine ⟨leBytes 8 x.toNat, ⟨length_leBytes 8 _, h_cell⟩, fun d => ?_⟩
    have h_text : serializeAttribute ext ⟨.double, size⟩ (leBytes 8 x.toNat) d
        = ext.formatDouble (doubleOfBytes ((leBytes 8 x.toNat).take 8)) ++ [d] := rfl
    rw [h_text, h_double, h_print, List.length_append, h_length, List.length_singleton]
    omega
  | char =>
    refine ⟨[65], ⟨rfl, fun h => by cases h⟩, fun d => ?_⟩
    exact Nat.le_antisymm h_lo h_hi
  | string =>
    simp only [minAttribute, maxAttribute] at h_lo h_hi
    -- a string of that many letters, padded with zeros to its width
    have h_field : (0 : UInt8) ∉ List.replicate (n - 1) 65 := fun h_mem =>
      absurd (List.eq_of_mem_replicate h_mem) (by decide)
    have h_fits : (List.replicate (n - 1) (65 : UInt8)).length ≤ size := by
      rw [List.length_replicate]
      omega
    have h_len := strnlen_padded h_field h_fits
    refine ⟨List.replicate (n - 1) 65
      ++ List.replicate (size - (List.replicate (n - 1) (65 : UInt8)).length) 0,
      ⟨?_, fun h => by cases h⟩, fun d => ?_⟩
    · simp only [List.length_append, List.length_replicate, SchemaAttribute.width]
      omega
    · simp only [serializeAttribute, SchemaAttribute.width]
      rw [h_len, List.take_left, List.length_append, List.length_replicate, List.length_singleton]
      omega

/-- `SerializeAttribute`. -/
def tablePrinter (h_print : ext.formatDouble = printDouble) : Printer where
  text := serializeAttribute ext
  ok := FiniteCell
  good a data := data.length = a.width ∧ FiniteCell a data
  lo := minAttribute
  hi := maxAttribute
  lo_pos := one_le_minAttribute
  lo_le_hi := minAttribute_le_maxAttribute
  length_text := length_serializeAttribute h_print
  exists_text := exists_serializeAttribute h_print

/-- The lengths of the texts of `SerializeParquetAttribute`. -/
theorem length_serializeParquetAttribute (h_print : ext.formatDouble = printDouble)
    (a : SchemaAttribute) (value : List UInt8) (h : ParquetCell a value) (d : UInt8) :
    minParquetAttribute a ≤ (serializeParquetAttribute ext a value d).length ∧
      (serializeParquetAttribute ext a value d).length ≤ maxAttribute a := by
  obtain ⟨tpe, size⟩ := a
  cases tpe with
  | int =>
    have h_range := int32OfBytes_mem value
    have h_length := length_printInt h_range.1 h_range.2
    simp only [serializeParquetAttribute, minParquetAttribute, maxAttribute, List.length_append,
      List.length_singleton]
    omega
  | double =>
    have h_length := length_printDouble (h rfl)
    simp only [serializeParquetAttribute, minParquetAttribute, maxAttribute, List.length_append,
      List.length_singleton, h_print]
    rw [doubleOfBytes] at h_length
    omega
  | char =>
    simp only [serializeParquetAttribute, minParquetAttribute, maxAttribute, SchemaAttribute.width,
      List.length_append, List.length_singleton, List.length_take]
    omega
  | string =>
    simp only [serializeParquetAttribute, minParquetAttribute, maxAttribute, SchemaAttribute.width,
      List.length_append, List.length_singleton, List.length_take]
    omega

/-- All lengths in between occur. -/
theorem exists_serializeParquetAttribute (h_print : ext.formatDouble = printDouble)
    (a : SchemaAttribute) (n : ℕ) (h_lo : minParquetAttribute a ≤ n) (h_hi : n ≤ maxAttribute a) :
    ∃ value, ParquetCell a value ∧
      ∀ d, (serializeParquetAttribute ext a value d).length = n := by
  obtain ⟨tpe, size⟩ := a
  cases tpe with
  -- an integer with as many digits
  | int =>
    simp only [minParquetAttribute, maxAttribute] at h_lo h_hi
    obtain ⟨z, hz_lo, hz_hi, h_length⟩ := exists_length_printInt (n := n - 1) (by omega) (by omega)
    refine ⟨int32Bytes z, (fun h => by cases h), fun d => ?_⟩
    rw [serializeParquetAttribute, int32OfBytes_int32Bytes hz_lo hz_hi, List.length_append,
      h_length, List.length_singleton]
    omega
  -- a finite double that is printed as long
  | double =>
    simp only [minParquetAttribute, maxAttribute] at h_lo h_hi
    obtain ⟨x, h_finite, h_length⟩ := exists_length_printDouble (n := n - 1) (by omega) (by omega)
    have h_cell : ParquetCell ⟨.double, size⟩ (leBytes 8 x.toNat) := fun _ => by
      rw [doubleOfBytes_leBytes]
      exact h_finite
    refine ⟨leBytes 8 x.toNat, h_cell, fun d => ?_⟩
    have h_text : serializeParquetAttribute ext ⟨.double, size⟩ (leBytes 8 x.toNat) d
        = ext.formatDouble (doubleOfBytes (leBytes 8 x.toNat)) ++ [d] := rfl
    rw [h_text, doubleOfBytes_leBytes, h_print, List.length_append, h_length,
      List.length_singleton]
    omega
  -- the other types are cut off at the width of the attribute
  | char =>
    simp only [minParquetAttribute, maxAttribute] at h_lo h_hi
    refine ⟨List.replicate (n - 1) 65, (fun h => by cases h), fun d => ?_⟩
    simp only [serializeParquetAttribute, SchemaAttribute.width, List.length_append,
      List.length_singleton, List.length_take, List.length_replicate]
    omega
  | string =>
    simp only [minParquetAttribute, maxAttribute] at h_lo h_hi
    refine ⟨List.replicate (n - 1) 65, (fun h => by cases h), fun d => ?_⟩
    simp only [serializeParquetAttribute, SchemaAttribute.width, List.length_append,
      List.length_singleton, List.length_take, List.length_replicate]
    omega

/-- `SerializeParquetAttribute`. -/
def parquetPrinter (h_print : ext.formatDouble = printDouble) : Printer where
  text := serializeParquetAttribute ext
  ok := ParquetCell
  good := ParquetCell
  lo := minParquetAttribute
  hi := maxAttribute
  lo_pos := one_le_minParquetAttribute
  lo_le_hi := minParquetAttribute_le_maxAttribute
  length_text := length_serializeParquetAttribute h_print
  exists_text := exists_serializeParquetAttribute h_print

variable (h_print : ext.formatDouble = printDouble)

theorem lineOf_eq (schema : List SchemaAttribute) (row : List (List UInt8)) :
    lineOf ext schema row = (tablePrinter h_print).lineWith schema row := by
  induction schema generalizing row with
  | nil => rfl
  | cons a schema ih =>
    cases row with
    | nil => rfl
    | cons data row =>
      rw [lineOf, Printer.lineWith, ih]
      rfl

theorem serializeParquetRow_eq (schema : List SchemaAttribute) (row : List (List UInt8)) :
    serializeParquetRow ext schema row = (parquetPrinter h_print).lineWith schema row := by
  induction schema generalizing row with
  | nil => rfl
  | cons a schema ih =>
    cases row with
    | nil => rfl
    | cons value row =>
      rw [serializeParquetRow, Printer.lineWith, ih]
      rfl

end Printers

end Xdbc.Client
