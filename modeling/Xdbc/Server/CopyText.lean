import Xdbc.Server.Ownership
import Xdbc.Server.Rows
import Xdbc.Bytes.Escape

/-!
# The text of `COPY`

`readPG` asks for the table as text with the delimiter `|`, and the database escapes what its text
must not contain: it puts a backslash in front of each delimiter and backslash, writes a newline as
`\n` and `NULL` as `\N`. `deserializePG` looks for the next delimiter, and copies what is in front of
it.

So a delimiter in a value ends its field too early, unless the column is the last one, and the
backslashes stay. A row of the table is stored as it is exactly if its strings and characters
survive that (`row_decoded_iff`).
-/

namespace Xdbc.Server

open Bytes

/-! ### Rows of the table and their text -/

/-- The escape character of `COPY`. -/
def backslash : UInt8 := 92

/-- What stands behind the backslash for a character that is escaped. -/
def copySpecial (b : UInt8) : Option UInt8 :=
  if b = pgText.delimiter then some pgText.delimiter
  else if b = backslash then some backslash
  else if b = newline then some 110
  else none

/-- The text of a value, `none` being `NULL`. -/
def copyField : Option (List UInt8) → List UInt8
  | none => [backslash, 78]
  | some value => escape backslash copySpecial value

/-- The line of a row. -/
def copyText (row : List (Option (List UInt8))) : List UInt8 := rowText pgText (row.map copyField)

/-- A value of a column: text without NULs that fits the attribute, or the text of a number. -/
structure TableValue (a : SchemaAttribute) (value : Option (List UInt8)) : Prop where
  room : a.width ≤ a.size
  nul : ∀ v, value = some v → (0 : UInt8) ∉ v
  fits : ∀ v, value = some v → match a.tpe with
    | .string => v.length ≤ a.size
    | .char => v.length ≤ 1
    | _ => ∀ b ∈ v, copySpecial b = none

/-- The cell of a string or a character holds the value. -/
def CellHolds (x : SchemaAttribute × Option (List UInt8)) (cell : List UInt8) : Prop :=
  ∀ v, x.2 = some v → x.1.tpe = .string ∨ x.1.tpe = .char → cell = padded 0 x.1.width v

/-- The line of the row is taken to its end, and its strings and characters are in the cells. -/
def Decodes (env : RuntimeEnv) (ext : External) (k : ℕ) (row : List (Option (List UInt8)))
    (rest dst : List UInt8) : Prop :=
  ∃ payload,
    deserializeRow pgText env ext k env.schema (copyText row ++ rest) 0 dst
      = some ((copyText row).length, payload) ∧
    List.Forall₂ CellHolds (env.schema.zip row)
      ((layout env).readRow (columns pgText env.schema 0) k payload)

/-- A string or a character survives: it has no delimiter and no newline; a character is there, and
a string with a backslash has nothing but backslashes from there to the size of the attribute. -/
def SurvivesCopy (a : SchemaAttribute) (value : Option (List UInt8)) : Prop :=
  ∀ v, value = some v → match a.tpe with
    | .string => Survives backslash copySpecial a.size v
    | .char => v ≠ [] ∧ ∀ b ∈ v, copySpecial b ≠ none → b = backslash
    | _ => True

/-! ### The text of a value -/

theorem copySpecial_backslash : copySpecial backslash = some backslash := by decide

theorem copySpecial_delimiter : copySpecial pgText.delimiter = some pgText.delimiter := by decide

/-- What is written for a character. -/
theorem mem_escapeChar {b c : UInt8} (h : c ∈ escapeChar backslash copySpecial b) :
    c = backslash ∨ c = 110 ∨ c = b ∧ b ≠ newline := by
  by_cases h_delimiter : b = pgText.delimiter
  · subst h_delimiter
    rw [escapeChar, copySpecial_delimiter] at h
    rcases List.mem_pair.mp h with rfl | rfl
    · exact .inl rfl
    · exact .inr (.inr ⟨rfl, by decide⟩)
  by_cases h_backslash : b = backslash
  · subst h_backslash
    rw [escapeChar, copySpecial_backslash] at h
    exact .inl ((List.mem_pair.mp h).elim id id)
  by_cases h_newline : b = newline
  · subst h_newline
    exact (List.mem_pair.mp h).imp id .inl
  · rw [escapeChar, copySpecial, if_neg h_delimiter, if_neg h_backslash, if_neg h_newline] at h
    exact .inr (.inr ⟨List.mem_singleton.mp h, h_newline⟩)

/-- The text of a value has no newline, and no other character that the value has not. -/
theorem notMem_copyField {value : Option (List UInt8)} {c : UInt8}
    (hc : c = newline ∨ c = 0 ∨ c = pgText.delimiter)
    (h : ∀ v, value = some v → c ∈ v → c = newline) : c ∉ copyField value := by
  have h_ne : c ≠ backslash ∧ c ≠ 110 ∧ c ≠ 78 := by
    rcases hc with rfl | rfl | rfl <;> decide
  cases value with
  | none => simpa [copyField] using ⟨h_ne.1, h_ne.2.2⟩
  | some v =>
    rw [copyField, escape, List.mem_flatMap]
    rintro ⟨b, hb, h_char⟩
    rcases mem_escapeChar h_char with h_eq | h_eq | ⟨rfl, h_newline⟩
    · exact h_ne.1 h_eq
    · exact h_ne.2.1 h_eq
    · exact h_newline (h v rfl hb)

/-- The separator behind the first value of a line. -/
def separator (row : List (Option (List UInt8))) : UInt8 :=
  if row.isEmpty then newline else pgText.delimiter

/-- What comes behind the first value of a line and its separator. -/
def lineTail (row : List (Option (List UInt8))) (rest : List UInt8) : List UInt8 :=
  if row.isEmpty then rest else copyText row ++ rest

theorem copyText_cons_append (value : Option (List UInt8)) (row : List (Option (List UInt8)))
    (rest : List UInt8) :
    copyText (value :: row) ++ rest = copyField value ++ separator row :: lineTail row rest := by
  cases row with
  | nil => simp [copyText, rowText, List.intercalate, separator, lineTail]
  | cons next row => simp [copyText, rowText, List.intercalate, separator, lineTail]

theorem length_copyText_cons (value : Option (List UInt8)) (row : List (Option (List UInt8))) :
    (copyText (value :: row)).length = (copyField value).length + 1 + (lineTail row []).length := by
  have h_length := congrArg List.length (copyText_cons_append value row [])
  rw [List.append_nil, List.length_append, List.length_cons] at h_length
  omega

/-! ### The cell of a value -/

section Cell

variable {env : RuntimeEnv} {ext : External} {a : SchemaAttribute} {value : Option (List UInt8)}
  {src dst : List UInt8} {dest len : ℕ}

/-- The cell of a string. -/
theorem slice_deserialize_string (h_string : a.tpe = .string) (h : dest + a.width ≤ dst.length) :
    slice (deserialize ext a.tpe src dst dest a.size len) dest a.width
      = padded 0 a.width (src.take len) := by
  have h_width : a.width = a.size := by rw [SchemaAttribute.width, h_string]
  rw [h_width] at h ⊢
  rw [h_string, deserialize, slice_put_padded h]

/-- The cell of a character. -/
theorem slice_deserialize_char (h_char : a.tpe = .char) (h : dest + a.width ≤ dst.length)
    (h_src : src ≠ []) :
    slice (deserialize ext a.tpe src dst dest a.size len) dest a.width = src.take 1 := by
  have h_width : a.width = 1 := by rw [SchemaAttribute.width, h_char]
  have h_length : (src.take 1).length = 1 := by
    rw [List.length_take, Nat.min_eq_left (List.length_pos_of_ne_nil h_src)]
  have h_put : slice (put dst dest (src.take 1)) dest (src.take 1).length = src.take 1 :=
    slice_put_same (by rw [h_length, ← h_width]; exact h)
  rw [h_length] at h_put
  rw [h_width, h_char]
  exact h_put

/-- A character is the first byte of its text. -/
theorem take_one_iff {v : List UInt8} (h : v.length ≤ 1) {sep : UInt8} (h_sep : sep ≠ 0)
    (tail : List UInt8) :
    (copyField (some v) ++ sep :: tail).take 1 = padded 0 1 v ↔
      v ≠ [] ∧ ∀ b ∈ v, copySpecial b ≠ none → b = backslash := by
  match v, h with
  | [], _ => simp [copyField, escape, padded, h_sep]
  | [b], _ =>
    rw [copyField, escape_cons, escapeChar, padded_cons_succ, padded_zero, List.forall_mem_singleton]
    cases h_special : copySpecial b with
    | none => simp
    | some c => simp [eq_comm]

variable (ext) in
/-- A value that is written whole is in its cell exactly if it survives. -/
theorem cellHolds_iff (h : TableValue a value) (h_room : dest + a.width ≤ dst.length) {sep : UInt8}
    (h_sep : sep ≠ 0) (tail : List UInt8) :
    CellHolds (a, value) (slice (deserialize ext a.tpe (copyField value ++ sep :: tail) dst dest
      a.size (copyField value).length) dest a.width) ↔ SurvivesCopy a value := by
  cases value with
  | none => exact ⟨fun _ => nofun, fun _ => nofun⟩
  | some v =>
    have h_fits := h.fits v rfl
    have h_all : ∀ {p : List UInt8 → Prop}, (∀ w, some v = some w → p w) ↔ p v :=
      fun {p} => ⟨fun h => h v rfl, fun h w hw => Option.some.inj hw ▸ h⟩
    rw [CellHolds, SurvivesCopy, h_all, h_all]
    cases h_tpe : a.tpe with
    -- a string survives the escapes as padded text, a character by its first byte
    | string =>
      have h_width : a.width = a.size := by rw [SchemaAttribute.width, h_tpe]
      rw [h_tpe] at h_fits
      simp only [reduceCtorEq, or_false, forall_const]
      rw [← h_tpe, slice_deserialize_string h_tpe h_room, List.take_left, copyField, h_width]
      exact padded_escape_iff copySpecial_backslash (by decide) h_fits
    | char =>
      have h_width : a.width = 1 := by rw [SchemaAttribute.width, h_tpe]
      rw [h_tpe] at h_fits
      simp only [reduceCtorEq, or_true, forall_const]
      rw [← h_tpe, slice_deserialize_char h_tpe h_room (by simp), h_width]
      exact take_one_iff h_fits h_sep tail
    -- numbers have no special bytes
    | int => simp
    | double => simp

/-- A value with a delimiter does not survive. -/
theorem SurvivesCopy.delimiter_notMem {v : List UInt8} (h : SurvivesCopy a (some v))
    (h_value : TableValue a (some v)) : pgText.delimiter ∉ v := by
  intro h_mem
  have h := h v rfl
  have h_fits := h_value.fits v rfl
  have h_ne : pgText.delimiter ≠ backslash := by decide
  have h_special : copySpecial pgText.delimiter ≠ none := by decide
  cases h_tpe : a.tpe with
  | string => rw [h_tpe] at h; exact h_ne (h.plain _ h_mem h_special)
  | char => rw [h_tpe] at h; exact h_ne (h.2 _ h_mem h_special)
  | int => rw [h_tpe] at h_fits; exact h_special (h_fits _ h_mem)
  | double => rw [h_tpe] at h_fits; exact h_special (h_fits _ h_mem)

/-- A value that its delimiter cuts off is not in its cell. -/
theorem not_cellHolds_of_delimiter {v : List UInt8} (h : TableValue a (some v))
    (h_mem : pgText.delimiter ∈ v) (h_room : dest + a.width ≤ dst.length) {tail : List UInt8}
    (h_src : src = copyField (some v) ++ tail) (h_len : pgText.delimiter ∉ src.take len) :
    ¬ CellHolds (a, some v) (slice (deserialize ext a.tpe src dst dest a.size len) dest a.width) := by
  intro h_cell
  have h_fits := h.fits v rfl
  have h_cell := h_cell v rfl
  cases h_tpe : a.tpe with
  -- the text of a string ends before the delimiter, so its cell lacks it
  | string =>
    have h_width : a.width = a.size := by rw [SchemaAttribute.width, h_tpe]
    rw [h_tpe] at h_fits
    have h_cell := h_cell (.inl h_tpe)
    rw [slice_deserialize_string h_tpe h_room, h_width] at h_cell
    refine h_len (mem_text_of_mem_padded (z := 0) (n := a.size) ?_ (by decide))
    rw [h_cell]
    exact mem_padded_of_length_le h_fits h_mem
  | char =>
    rw [h_tpe] at h_fits
    -- a character that is the delimiter is sent as a backslash and itself
    obtain rfl : v = [pgText.delimiter] := by
      obtain ⟨b, rfl⟩ := List.length_eq_one_iff.mp
        (Nat.le_antisymm h_fits (List.length_pos_of_mem h_mem))
      rw [List.mem_singleton.mp h_mem]
    have h_cell := h_cell (.inr h_tpe)
    have h_width : a.width = 1 := by rw [SchemaAttribute.width, h_tpe]
    have h_text : src = backslash :: pgText.delimiter :: tail := h_src
    rw [slice_deserialize_char h_tpe h_room (by rw [h_text]; exact List.cons_ne_nil _ _), h_text,
      h_width, List.take_succ_cons, List.take_zero] at h_cell
    exact absurd h_cell (by decide)
  -- a number has no delimiter
  | int =>
    rw [h_tpe] at h_fits
    exact absurd (h_fits _ h_mem) (by decide)
  | double =>
    rw [h_tpe] at h_fits
    exact absurd (h_fits _ h_mem) (by decide)

end Cell

/-! ### The cells of a row -/

section Row

variable {X : TextSource} {env : RuntimeEnv} {ext : External} {k : ℕ}

/-- Where the columns behind an offset of the tuple begin. -/
def rowStart (env : RuntimeEnv) (k off : ℕ) : ℕ :=
  if env.iformat = 1 then k * env.tupleSize + off else off * env.tuplesPerBuffer

theorem rowStart_le_cellAddress (stride : ℕ) {off off' : ℕ} (h : off ≤ off') :
    rowStart env k off ≤ cellAddress env stride k off' := by
  unfold rowStart cellAddress
  split
  · omega
  · exact (Nat.mul_le_mul_right _ h).trans (Nat.le_add_right _ _)

/-- A cell ends before the next column begins. -/
theorem cellAddress_add_le_rowStart (hk : k < env.tuplesPerBuffer) {a : SchemaAttribute}
    (h_room : a.width ≤ a.size) (off : ℕ) :
    cellAddress env (pgText.stride a) k off + a.width ≤ rowStart env k (off + a.size) := by
  unfold rowStart cellAddress
  split
  · omega
  · have h_rows := Nat.mul_le_mul_right a.size (Nat.succ_le_of_lt hk)
    rw [Nat.succ_mul] at h_rows
    rw [Nat.add_mul, Nat.mul_comm a.size]
    change off * env.tuplesPerBuffer + k * a.size + a.width ≤ _
    omega

/-- The write of a field leaves what is in front of it. -/
theorem slice_deserialize_front {tpe : AttrType} {src dst : List UInt8} {dest attSize len o n : ℕ}
    (h : o + n ≤ dest) :
    slice (deserialize ext tpe src dst dest attSize len) o n = slice dst o n := by
  cases tpe <;> simp only [deserialize, slice_put_disjoint (.inl h)]

/-- **The writes of a row go forward.** -/
theorem slice_deserializeRow {schema : List SchemaAttribute} {src dst : List UInt8} {off : ℕ}
    {r : ℕ × List UInt8} (h : deserializeRow X env ext k schema src off dst = some r) {o n : ℕ}
    (h_front : o + n ≤ rowStart env k off) : slice r.2 o n = slice dst o n := by
  induction schema generalizing src off dst r with
  | nil => cases h; rfl
  | cons a schema ih =>
    simp only [deserializeRow] at h
    split at h
    · cases h
    · obtain ⟨r', h', rfl⟩ := Option.map_eq_some_iff.mp h
      -- the next column begins no further in front
      have h_next : o + n ≤ rowStart env k (off + a.size) := by
        refine h_front.trans ?_
        unfold rowStart
        split
        · omega
        · exact Nat.mul_le_mul_right _ (Nat.le_add_right _ _)
      rw [ih h' h_next]
      split
      · exact slice_deserialize_front (h_front.trans (rowStart_le_cellAddress _ le_rfl))
      · rfl

/-- The first column of a line, whose text contains no separator. -/
theorem deserializeRow_copyText (h_format : env.iformat = 1 ∨ env.iformat = 2)
    {schema : List SchemaAttribute} {row : List (Option (List UInt8))}
    (h_empty : schema.isEmpty = row.isEmpty) {value : Option (List UInt8)}
    (h_zero : (0 : UInt8) ∉ copyField value) (h_sep : separator row ∉ copyField value)
    (a : SchemaAttribute) (off : ℕ) (rest dst : List UInt8) :
    deserializeRow pgText env ext k (a :: schema) (copyText (value :: row) ++ rest) off dst
      = (deserializeRow pgText env ext k schema (lineTail row rest) (off + a.size)
          (deserialize ext a.tpe (copyField value ++ separator row :: lineTail row rest) dst
            (cellAddress env (pgText.stride a) k off) a.size (copyField value).length)).map
          fun r => ((copyField value).length + 1 + r.1, r.2) := by
  have h_drop : (copyField value ++ separator row :: lineTail row rest).drop
      ((copyField value).length + 1) = lineTail row rest := by
    rw [List.drop_append, List.drop_eq_nil_of_le (Nat.le_succ _)]
    simp
  rw [copyText_cons_append, deserializeRow, h_empty,
    show (if row.isEmpty = true then newline else pgText.delimiter) = separator row from rfl,
    strchr_append h_sep h_zero]
  simp only [if_pos h_format, h_drop]

/-- A column whose delimiter is in its value. -/
theorem not_cellHolds_of_run (h_format : env.iformat = 1 ∨ env.iformat = 2)
    (hk : k < env.tuplesPerBuffer) {schema : List SchemaAttribute} {a : SchemaAttribute}
    (h_schema : schema.isEmpty = false) {v src dst : List UInt8} (h_value : TableValue a (some v))
    (h_mem : pgText.delimiter ∈ v) {tail : List UInt8} (h_src : src = copyField (some v) ++ tail)
    {off : ℕ} (h_room : cellAddress env (pgText.stride a) k off + a.width ≤ dst.length)
    {r : ℕ × List UInt8}
    (h : deserializeRow pgText env ext k (a :: schema) src off dst = some r) :
    ¬ CellHolds (a, some v) (slice r.2 (cellAddress env (pgText.stride a) k off) a.width) := by
  simp only [deserializeRow, h_schema, if_pos h_format] at h
  split at h
  · cases h
  · next len h_len =>
    obtain ⟨r', h', rfl⟩ := Option.map_eq_some_iff.mp h
    rw [slice_deserializeRow h' (cellAddress_add_le_rowStart hk h_value.room off)]
    exact not_cellHolds_of_delimiter h_value h_mem h_room h_src (eq_of_strchr h_len).2.1

/-- **A row is stored exactly if its values survive**, column by column. -/
theorem decodes_iff (h_format : env.iformat = 1 ∨ env.iformat = 2) (hk : k < env.tuplesPerBuffer)
    {schema : List SchemaAttribute} {row : List (Option (List UInt8))}
    (h : List.Forall₂ TableValue schema row) (h_ne : schema ≠ []) {off : ℕ}
    (h_size : off + tupleSize schema ≤ env.tupleSize) (rest : List UInt8) {dst : List UInt8}
    (h_dst : env.payloadSize ≤ dst.length) :
    (∃ payload,
      deserializeRow pgText env ext k schema (copyText row ++ rest) off dst
        = some ((copyText row).length, payload) ∧
      List.Forall₂ CellHolds (schema.zip row)
        ((layout env).readRow (columns pgText schema off) k payload)) ↔
      List.Forall₂ SurvivesCopy schema row := by
  -- induction over the columns: `off` moves past one attribute a step, `dst` is what it has stored
  induction h generalizing off dst with
  | nil => exact absurd rfl h_ne
  | @cons a value schema row h_value h_row ih =>
    have h_tuple : tupleSize (a :: schema) = a.size + tupleSize schema := List.sum_cons
    have h_empty : schema.isEmpty = row.isEmpty := by cases h_row <;> rfl
    have h_holds : (layout env).Holds ⟨off, a.size, pgText.stride a, a.width⟩ :=
      ⟨h_value.room, le_rfl, by change off + a.size ≤ env.tupleSize; omega⟩
    have h_room : cellAddress env (pgText.stride a) k off + a.width ≤ dst.length := by
      have h_le := (h_holds.address_add_le hk).trans h_dst
      rwa [address_layout] at h_le
    -- the cells of the row are that of this column and those of the others
    have h_cells : ∀ payload : List UInt8,
        (layout env).readRow (columns pgText (a :: schema) off) k payload
        = slice payload (cellAddress env (pgText.stride a) k off) a.width
          :: (layout env).readRow (columns pgText schema (off + a.size)) k payload := fun payload => by
      rw [← address_layout pgText env off a.size a.width]
      rfl
    -- the other columns leave this cell alone
    have h_front : ∀ {dst' : List UInt8} {r : ℕ × List UInt8},
        deserializeRow pgText env ext k schema (lineTail row rest) (off + a.size) dst' = some r →
        slice r.2 (cellAddress env (pgText.stride a) k off) a.width
          = slice dst' (cellAddress env (pgText.stride a) k off) a.width := fun h_run =>
      slice_deserializeRow h_run (cellAddress_add_le_rowStart hk h_value.room off)
    by_cases h_cut : row.isEmpty = false ∧ ∃ v, value = some v ∧ pgText.delimiter ∈ v
    · -- the field ends inside the value
      obtain ⟨h_more, v, rfl, h_mem⟩ := h_cut
      constructor
      · rintro ⟨payload, h_run, h_all⟩
        rw [h_cells, List.zip_cons_cons, List.forall₂_cons] at h_all
        exact absurd h_all.1 (not_cellHolds_of_run h_format hk (h_empty.trans h_more) h_value h_mem
          (copyText_cons_append _ _ _) h_room h_run)
      · intro h_survive
        exact absurd h_mem ((List.forall₂_cons.mp h_survive).1.delimiter_notMem h_value)
    · -- the field reaches up to the separator
      have h_zero : (0 : UInt8) ∉ copyField value :=
        notMem_copyField (.inr (.inl rfl)) fun v hv h_mem => absurd h_mem (h_value.nul v hv)
      have h_sep : separator row ∉ copyField value := by
        unfold separator
        split
        · exact notMem_copyField (.inl rfl) fun _ _ _ => rfl
        · next h_more =>
          exact notMem_copyField (.inr (.inr rfl)) fun v hv h_mem =>
            absurd ⟨Bool.eq_false_iff.mpr h_more, v, hv, h_mem⟩ h_cut
      have h_sep_ne : separator row ≠ 0 := by
        unfold separator
        split <;> decide
      -- the other columns
      have h_rest : ∀ {dst' : List UInt8}, env.payloadSize ≤ dst'.length → ((∃ payload,
          deserializeRow pgText env ext k schema (lineTail row rest) (off + a.size) dst'
            = some ((lineTail row []).length, payload) ∧
          List.Forall₂ CellHolds (schema.zip row)
            ((layout env).readRow (columns pgText schema (off + a.size)) k payload)) ↔
          List.Forall₂ SurvivesCopy schema row) := fun {dst'} h_dst' => by
        cases h_row with
        | nil => exact ⟨fun _ => .nil, fun _ => ⟨dst', rfl, .nil⟩⟩
        | @cons _ next _ row _ _ =>
          have h_length : (lineTail (next :: row) []).length = (copyText (next :: row)).length :=
            congrArg List.length (List.append_nil _)
          rw [h_length]
          exact ih (List.cons_ne_nil _ _) (by omega) h_dst'
      -- one column of `deserializeRow`, and its cell decides for it
      rw [deserializeRow_copyText h_format h_empty h_zero h_sep, List.forall₂_cons,
        length_copyText_cons, ← cellHolds_iff ext h_value h_room h_sep_ne (lineTail row rest)]
      have h_length : (deserialize ext a.tpe (copyField value ++ separator row :: lineTail row rest)
          dst (cellAddress env (pgText.stride a) k off) a.size (copyField value).length).length
          = dst.length := length_deserialize _ _ _ _ _ _ _
      generalize deserialize ext a.tpe _ dst _ a.size _ = dst' at h_length ⊢
      rw [← h_rest (h_dst.trans_eq h_length.symm)]
      -- the run over the other columns is the run of the row, with the length of this field added
      constructor
      · rintro ⟨payload, h_run, h_all⟩
        obtain ⟨r, h_run', h_eq⟩ := Option.map_eq_some_iff.mp h_run
        obtain ⟨h_len, rfl⟩ := Prod.mk.inj h_eq
        rw [h_cells, List.zip_cons_cons, List.forall₂_cons, h_front h_run'] at h_all
        refine ⟨h_all.1, r.2, ?_, h_all.2⟩
        rw [h_run', ← Nat.add_left_cancel h_len]
      · rintro ⟨h_first, payload, h_run, h_all⟩
        refine ⟨payload, ?_, ?_⟩
        · rw [h_run]
          rfl
        · rw [h_cells, List.zip_cons_cons, List.forall₂_cons, h_front h_run]
          exact ⟨h_first, h_all⟩

end Row

/-! ### The rows of a table -/

/-- **Decoding inverts `COPY` exactly on the rows whose strings and characters survive it**, wherever
the row stands in the text and in the output buffer. -/
theorem row_decoded_iff {env : RuntimeEnv} (ext : External)
    (h_format : env.iformat = 1 ∨ env.iformat = 2) (h_ne : env.schema ≠ []) {k : ℕ}
    (hk : k < env.tuplesPerBuffer) {row : List (Option (List UInt8))}
    (h : List.Forall₂ TableValue env.schema row) (rest : List UInt8) {dst : List UInt8}
    (h_dst : dst.length = env.payloadSize) :
    Decodes env ext k row rest dst ↔ List.Forall₂ SurvivesCopy env.schema row :=
  decodes_iff h_format hk h h_ne (by rw [Nat.zero_add]; exact le_rfl) rest h_dst.ge

/-- A string and an integer. -/
def namedEnv : RuntimeEnv := { smallEnv with schema := [⟨.string, 4⟩, ⟨.int, 4⟩] }

/-- A row of a string without NULs and the number 7. -/
theorem tableRow_namedEnv {v : List UInt8} (h_nul : 0 ∉ v) (h_fits : v.length ≤ 4) :
    List.Forall₂ TableValue namedEnv.schema [some v, some [55]] := by
  refine .cons ⟨le_rfl, fun w hw => ?_, fun w hw => ?_⟩
    (.cons ⟨le_rfl, fun w hw => ?_, fun w hw => ?_⟩ .nil)
  · rw [← Option.some.inj hw]
    exact h_nul
  · rw [← Option.some.inj hw]
    exact h_fits
  · rw [← Option.some.inj hw]
    decide
  · rw [← Option.some.inj hw]
    have h_seven : copySpecial 55 = none := by decide
    exact List.forall_mem_singleton.mpr h_seven

/-- The payload of a buffer that was used before. -/
def usedPayload : List UInt8 := List.replicate namedEnv.payloadSize 1

theorem length_usedPayload : usedPayload.length = namedEnv.payloadSize := List.length_replicate

/-- The string `ab` survives. -/
theorem row_decoded_plain :
    Decodes namedEnv emptyTable 0 [some [97, 98], some [55]] [] usedPayload := by
  refine (row_decoded_iff emptyTable (.inl rfl) (by decide) (by decide)
    (tableRow_namedEnv (by decide) (by decide)) [] length_usedPayload).mpr ?_
  refine .cons (fun w hw => ?_) (.cons (fun _ _ => trivial) .nil)
  rw [← Option.some.inj hw]
  have h_plain : ∀ b ∈ [(97 : UInt8), 98], copySpecial b = none := by decide +kernel
  have h_none : backslash ∉ [(97 : UInt8), 98] := by decide
  exact ⟨fun b hb h => absurd (h_plain b hb) h, fun h => absurd h h_none⟩

/-- The string `a|b` does not. -/
theorem row_not_decoded :
    ¬ ∀ (env : RuntimeEnv) (ext : External), env.iformat = 1 ∨ env.iformat = 2 →
      env.schema ≠ [] → ∀ k < env.tuplesPerBuffer, ∀ row,
      List.Forall₂ TableValue env.schema row → ∀ rest dst, dst.length = env.payloadSize →
      Decodes env ext k row rest dst := by
  intro h
  have h_row : List.Forall₂ TableValue namedEnv.schema [some [97, 124, 98], some [55]] :=
    tableRow_namedEnv (by decide) (by decide)
  have h_all := (decodes_iff (.inl rfl) (by decide) h_row (by decide)
    (by rw [Nat.zero_add]; exact le_rfl) [] length_usedPayload.ge).mp
    (h namedEnv emptyTable (.inl rfl) (by decide) 0 (by decide) _ h_row [] _ length_usedPayload)
  have h_first := (List.forall₂_cons.mp h_all).1.delimiter_notMem (List.forall₂_cons.mp h_row).1
  exact h_first (by decide)

end Xdbc.Server
