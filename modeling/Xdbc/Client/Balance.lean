import Xdbc.Client.PqRows
import Xdbc.Pipeline.Balance

/-!
# Iterations that lose a buffer

Both sinks take an output buffer before they know whether they write to it. `CsvSink::serialize`
forgets the buffer if there is nothing in it at the end of an iteration: there were no rows, or the
last row of a Parquet file has filled the buffer before. It loses both buffers if the input cannot
be read. `PQSink::serialize` loses both buffers if the input cannot be read or the rows cannot be
streamed, and for the Arrow format it loses the one it has taken for the end marker.

`CsvKeeps` and `PqKeeps` say exactly when nothing is lost (`balanced_iff`). If all that arrives is
of this kind, the ids a thread has taken are those it has given back and those in its hands.
-/

namespace Xdbc.Client

open Bytes Pipeline

/-! ### The Parquet sink -/

section PqSink

variable (env : RuntimeEnv) (lib : Parquet) (arrow : List UInt8 → Option (List PqRow))

/-- What an iteration of `PQSink::serialize` loses nothing for. -/
def PqKeeps : Option (List UInt8) → Prop
  | none => env.skipSerializer = true ∨ env.iformat ≠ 3
  | some x => env.skipSerializer = true ∨
    (env.iformat = 3 → (arrow (bufferOf x).data).isSome) ∧
      (env.iformat = 2 → streamThrows env (bufferOf x).header.totalTuples = false)

/-- The thread converts what it receives. -/
def Converts : Prop := env.skipSerializer = false ∧ (env.iformat = 3 ∨ env.iformat = 2)

/-- The program points of a thread that loses nothing. -/
def PqSer.Course (p : ℤ → List UInt8) : PqSer → Prop
  | .popOut b => Converts env ∧ b ≠ marker ∧ PqKeeps env arrow (some (p b))
  | .convert b _ => Converts env ∧ PqKeeps env arrow (some (p b))
  | .done o => o = none
  | .returned _ _ => False
  | .thrown _ _ => False
  | _ => True

variable {env lib arrow}

theorem pqSerialize_course (l : PqSer) (m : Memory (List UInt8) Unit)
    (h : l.Course env arrow m.pool) : OnCourse 2 (PqKeeps env arrow)
      (fun p l => PqSer.Course env arrow p l) m (pqSerialize env lib arrow l) := by
  cases l with
  | popIn =>
    -- `skip_serializer`: whatever arrives is passed on
    simp only [pqSerialize]
    split
    · intro v _
      dsimp only
      split <;> trivial
    next h_skip =>
    have h_skip : env.skipSerializer = false := Bool.eq_false_iff.mpr h_skip
    split
    · next h_arrow =>
      -- Arrow: a marker is popped for an output buffer all the same, and would be converted
      intro v h_keeps
      have h_v := h_keeps rfl
      by_cases hv : v = marker
      · rw [if_pos hv] at h_v
        rcases h_v with h_v | h_v
        · rw [h_skip] at h_v
          cases h_v
        · exact absurd h_arrow h_v
      · rw [if_neg hv] at h_v
        exact ⟨⟨h_skip, .inl h_arrow⟩, hv, h_v⟩
    · split
      · next h_column =>
        -- columns: the marker ends the thread before that
        intro v h_keeps
        have h_v := h_keeps rfl
        dsimp only
        split
        · rfl
        · next hv =>
          rw [if_neg hv] at h_v
          exact ⟨⟨h_skip, .inr h_column⟩, hv, h_v⟩
      · -- no other format is taken
        exact rfl
  | popOut b =>
    obtain ⟨h_converts, hb, h_keeps⟩ := h
    intro v _
    dsimp only
    rw [if_neg hb]
    exact ⟨h_converts, h_keeps⟩
  | convert b o =>
    obtain ⟨⟨h_skip, h_format⟩, h_keeps⟩ := h
    rcases h_keeps with h_keeps | ⟨h_arrow, h_column⟩
    · rw [h_skip] at h_keeps
      cases h_keeps
    · -- the conversion succeeds, as what arrives is convertible
      simp only [pqSerialize, OnCourse]
      split
      · next h_three =>
        obtain ⟨rows, h_rows⟩ := Option.isSome_iff_exists.mp (h_arrow h_three)
        rw [h_rows]
        trivial
      · next h_three =>
        rw [h_column (h_format.resolve_left h_three)]
        trivial
  | done o => trivial
  | returned b o => exact h.elim
  | thrown b o => exact h.elim
  | _ => trivial

theorem PqSer.course_local (l : PqSer) (p p' : ℤ → List UInt8) (h_own : ∀ b ∈ l.held, p' b = p b)
    (h : l.Course env arrow p) : l.Course env arrow p' := by
  cases l with
  | popOut b =>
    obtain ⟨h_converts, hb, h_keeps⟩ := h
    refine ⟨h_converts, hb, ?_⟩
    rwa [h_own b (by rw [PqSer.held_popOut hb]; exact Multiset.mem_singleton_self b)]
  | convert b o =>
    obtain ⟨h_converts, h_keeps⟩ := h
    refine ⟨h_converts, ?_⟩
    rwa [h_own b (by simp [PqSer.held])]
  | _ => exact h

/-- **The Parquet sink loses nothing** as long as what arrives is of this kind. -/
theorem pqSerialize_conserves : Conserves (σ := Unit) 4 2 PqSer.held (pqSerialize env lib arrow)
    .popIn PqSer.Aborted PqSer.Ended (PqKeeps env arrow) := by
  intro es l m₀ m h h_keeps
  have h_start : PqSer.Course env arrow m₀.pool .popIn := trivial
  have h_off : ∀ (l : PqSer) (p : ℤ → List UInt8), False → ¬ l.Course env arrow p :=
    fun _ _ h => h.elim
  obtain ⟨h_solo, h_course⟩ := h.onCourse pqSerialize_course PqSer.course_local h_off h_start
    h_keeps
  have h_none : NoMarker PqSer.held .popIn := by simp [NoMarker, PqSer.held]
  obtain ⟨-, h_sum⟩ := h_solo.accounts (pqSerialize_honest env lib arrow fun _ => False) h_none
  rw [show PqSer.popIn.held = 0 from rfl, zero_add] at h_sum
  refine ⟨?_, h_sum, ?_⟩
  · cases l <;> first | exact id | exact h_course.elim
  · -- what arrives keeps the thread from throwing, so it has ended or it goes on
    rintro (rfl | h_end)
    · rfl
    · cases l with
      | done o =>
        have h_o : o = none := h_course
        subst h_o
        rfl
      | _ => exact h_end.elim

/-- The iteration over an end marker in the Arrow format. -/
theorem not_balanced_marker (h_skip : env.skipSerializer = false) (h_arrow : env.iformat = 3) :
    ¬ Balanced (σ := Unit) 4 2 PqSer.held (pqSerialize env lib arrow) .popIn PqSer.Aborted
      PqSer.Ended none := by
  intro h
  have h_op : pqSerialize (σ := Unit) env lib arrow .popIn = .pop 2 .popOut := by
    simp [pqSerialize, h_skip, h_arrow]
  set m₀ : Memory (List UInt8) Unit := ⟨fun _ => [], ()⟩
  have h_start : Solo 4 PqSer.held (pqSerialize env lib arrow) (fun _ => False) .popIn m₀ [] .popIn
    m₀ := .start
  have h_marker := h_start.pop (v := marker) h_op (by simp) (fun _ h_new => absurd rfl h_new) id
  have h_out := h_marker.pop (v := 2) rfl (by decide) (by simp [PqSer.held_popOut_marker]) id
  rw [if_pos rfl] at h_out
  have h_sum := (h _ _ _ _ h_out (by
    rw [Event.arrivals_popped_of_ne (by decide), Event.arrivals_popped_marker]
    rfl)).2 (.inr trivial)
  rw [Event.idsPushed_popped, Event.idsPushed_popped, Event.idsPopped_popped (by decide)
    (by decide)] at h_sum
  exact absurd h_sum (Multiset.cons_ne_zero)

/-- The iteration over a buffer that cannot be converted. -/
theorem not_balanced_buffer {x : List UInt8} (h_skip : env.skipSerializer = false)
    (h_fails : env.iformat = 3 ∧ arrow (bufferOf x).data = none ∨
      env.iformat = 2 ∧ streamThrows env (bufferOf x).header.totalTuples = true) :
    ¬ Balanced (σ := Unit) 4 2 PqSer.held (pqSerialize env lib arrow) .popIn PqSer.Aborted
      PqSer.Ended (some x) := by
  intro h
  obtain ⟨k, h_pop, h_next⟩ := pqSerialize_popIn lib arrow h_skip
    (h_fails.imp And.left And.left)
  -- a run with this buffer as the only input
  set m₀ : Memory (List UInt8) Unit := ⟨fun _ => x, ()⟩
  have h_start : Solo 4 PqSer.held (pqSerialize env lib arrow) (fun _ => False) .popIn m₀ [] .popIn
    m₀ := .start
  have h_in := h_start.pop (v := 1) h_pop (by simp) (by simp [PqSer.held]) id
  rw [h_next 1 (by decide)] at h_in
  have h_out := h_in.pop (v := 2) rfl (by decide) (by simp [PqSer.held, marker]) id
  rw [if_neg (by decide)] at h_out
  have h_end := h_out.work rfl id
  have h_arrivals : Event.arrivals 2 (([] ++ [Event.popped 2 1 (m₀.pool 1)])
      ++ [Event.popped 0 2 (m₀.pool 2)]) = [some x] := by
    rw [Event.arrivals_popped_of_ne (by decide), Event.arrivals_popped (by decide)]
    rfl
  -- the thread is at `thrown`
  refine (h _ _ _ _ h_end h_arrivals).1 ?_
  rcases h_fails with ⟨h_arrow, h_none⟩ | ⟨h_column, h_throws⟩
  · simp only [m₀, if_pos h_arrow, h_none]
    trivial
  · simp only [m₀, if_neg (show ¬ env.iformat = 3 by omega), if_pos h_throws]
    trivial

/-- **The Parquet sink is balanced exactly where `PqKeeps` says so.** -/
theorem pqSerialize_balanced_iff {x : Option (List UInt8)} :
    Balanced (σ := Unit) 4 2 PqSer.held (pqSerialize env lib arrow) .popIn PqSer.Aborted
      PqSer.Ended x ↔ PqKeeps env arrow x := by
  refine ⟨fun h => ?_, pqSerialize_conserves.balanced⟩
  by_contra h_not
  cases x with
  | none =>
    obtain ⟨h_skip, h_arrow⟩ := not_or.mp h_not
    exact not_balanced_marker (Bool.eq_false_iff.mpr h_skip) (not_not.mp h_arrow) h
  | some x =>
    obtain ⟨h_skip, h_fails⟩ := not_or.mp h_not
    refine not_balanced_buffer (Bool.eq_false_iff.mpr h_skip) ?_ h
    rcases not_and_or.mp h_fails with h_arrow | h_column
    · obtain ⟨h_three, h_none⟩ := Classical.not_imp.mp h_arrow
      exact .inl ⟨h_three, by simpa using h_none⟩
    · obtain ⟨h_two, h_throws⟩ := Classical.not_imp.mp h_column
      exact .inr ⟨h_two, by simpa using h_throws⟩

end PqSink

/-! ### The CSV sink -/

section CsvSink

variable (env : RuntimeEnv) (ext : External)

/-- The bytes behind the last flush, if there are `total` bytes in the output buffer and `rows` are
still to come. -/
def restBytes : List (List (List UInt8)) → (total : ℕ) → ℕ
  | [], total => total
  | row :: rows, total =>
    let total := total + (serializeParquetRow ext env.schema row).length
    restBytes rows (if total + 1000 > env.bufferSizeInBytes then 0 else total)

/-- What an iteration of `CsvSink::serialize` loses nothing for. -/
def CsvKeeps : Option Buffer → Prop
  | none => True
  | some x =>
    let format := x.header.intermediateFormat
    env.skipSerializer = true ∨
      if format = 1 ∨ format = 2 ∨ format = 3 then
        (env.iformat = 3 → (ext.recordBatch x.data).isSome) ∧ env.schema ≠ [] ∧
          0 < x.header.totalTuples
      else if format = 4 then
        ∃ rows, ext.parquetRows x.data = some rows ∧ 0 < restBytes env ext rows 0
      else True

/-- An exception has ended the thread. -/
def Ser.Thrown : Ser → Prop
  | .thrown _ _ => True
  | _ => False

/-- The loop is left. -/
def Ser.Ended : Ser → Prop
  | .done => True
  | _ => False

/-- The program points of a thread that loses nothing. -/
def Ser.Course (p : ℤ → Buffer) : Ser → Prop
  | .inspect b => env.skipSerializer = false ∧ CsvKeeps env ext (some (p b))
  | .popOut _ n _ => env.schema ≠ [] ∧ 0 < n
  | .row d => env.schema ≠ [] ∧ 0 < d.totalTuples ∧ (0 < d.i → 0 < d.totalSerializedBytes)
  | .flushPush d => env.schema ≠ [] ∧ 0 < d.totalTuples
  | .flushPop d => env.schema ≠ [] ∧ 0 < d.totalTuples
  | .assign d => env.schema ≠ [] ∧ 0 < d.totalTuples
  | .emit d => env.schema ≠ [] ∧ 0 < d.totalTuples
  | .pqPopOut b n =>
    ∃ rows, ext.parquetRows ((p b).payload.take n) = some rows ∧ 0 < restBytes env ext rows 0
  | .pqOpen b n _ =>
    ∃ rows, ext.parquetRows ((p b).payload.take n) = some rows ∧ 0 < restBytes env ext rows 0
  | .pqRow d => 0 < restBytes env ext d.rows d.totalSerializedBytes
  | .pqFlushPush d => 0 < restBytes env ext d.rows 0
  | .pqFlushPop d => 0 < restBytes env ext d.rows 0
  | .forget _ _ => False
  | .thrown _ _ => False
  | _ => True

variable {env ext}

/-- A line has at least a delimiter for every attribute. -/
theorem rowBytes_pos (h_schema : env.schema ≠ []) (cells : ℕ → ℕ → List UInt8)
    (payload : List UInt8) (i : ℕ) : 0 < (rowBytes env ext cells payload i).length := by
  have h_attribute : ∀ a data d, 0 < (serializeAttribute ext a data d).length := by
    intro a data d
    unfold serializeAttribute
    split <;> simp
  obtain ⟨a, schema, h⟩ := List.exists_cons_of_ne_nil h_schema
  rw [rowBytes, h, serializeRow, List.length_append]
  exact Nat.add_pos_left (h_attribute _ _ _) _

/-- A row is written, and the output buffer is not empty. -/
theorem emitRow_course {d : SerVars} {m : Memory Buffer Unit} (h_schema : env.schema ≠ [])
    (h_tuples : 0 < d.totalTuples) :
    ((d.emitRow env ext m).2).Course env ext (d.emitRow env ext m).1.pool := by
  refine ⟨h_schema, h_tuples, fun _ => ?_⟩
  exact Nat.add_pos_right _ (rowBytes_pos h_schema _ _ _)

theorem inspectHeader_course {b : ℤ} {p : ℤ → Buffer} (h_skip : env.skipSerializer = false)
    (h : CsvKeeps env ext (some (p b))) : (inspectHeader env ext b (p b)).Course env ext p := by
  rcases h with h | h
  · rw [h_skip] at h
    cases h
  simp only [inspectHeader]
  -- a table: the header is right, and with Arrow the batch can be read
  split at h
  · next h_table =>
    obtain ⟨h_batch, h_schema, h_tuples⟩ := h
    rw [if_pos h_table]
    split
    · next h_arrow =>
      obtain ⟨cells, h_cells⟩ := Option.isSome_iff_exists.mp (h_batch h_arrow)
      rw [h_cells]
      exact ⟨h_schema, h_tuples⟩
    · exact ⟨h_schema, h_tuples⟩
  · next h_table =>
    rw [if_neg h_table]
    -- a Parquet file, or a buffer of text
    split at h
    · next h_file =>
      rw [if_pos h_file]
      exact h
    · next h_file =>
      rw [if_neg h_file]
      trivial

theorem serialize_course (l : Ser) (m : Memory Buffer Unit) (h : l.Course env ext m.pool) :
    OnCourse 2 (CsvKeeps env ext) (fun p l => Ser.Course env ext p l) m (serialize env ext l) := by
  cases l with
  | popIn =>
    intro v h_keeps
    have h_v := h_keeps rfl
    dsimp only
    split
    · trivial
    · next hv =>
      rw [if_neg hv] at h_v
      split
      · trivial
      · next h_skip => exact ⟨Bool.eq_false_iff.mpr h_skip, h_v⟩
  | inspect b => exact inspectHeader_course h.1 h.2
  | popOut b n cells => exact fun v _ => ⟨h.1, h.2, fun h_row => absurd h_row (Nat.lt_irrefl 0)⟩
  | row d =>
    obtain ⟨h_schema, h_tuples, h_bytes⟩ := h
    simp only [serialize]
    split
    · split
      · exact ⟨h_schema, h_tuples⟩
      · exact emitRow_course h_schema h_tuples
    · next h_last =>
      -- rows were read, so there are bytes to push
      rw [if_pos (h_bytes (by omega))]
      trivial
  | flushPush d => exact h
  | flushPop d => exact fun v _ => h
  | assign d => exact h
  | emit d => exact emitRow_course h.1 h.2
  | pqPopOut b n => exact fun v _ => h
  | pqOpen b n o =>
    obtain ⟨rows, h_rows, h_rest⟩ := h
    simp only [serialize, OnCourse, h_rows]
    exact h_rest
  | pqRow d =>
    simp only [serialize]
    change 0 < restBytes env ext d.rows d.totalSerializedBytes at h
    split
    · next row rows h_rows =>
      -- either this row fills the buffer, or the rest counts what it leaves
      rw [h_rows, restBytes] at h
      simp only [OnCourse, PqSerVars.emitRow]
      split
      · next h_full =>
        rw [if_pos h_full] at h
        exact h
      · next h_full =>
        rw [if_neg h_full] at h
        exact h
    · next h_rows =>
      rw [h_rows, restBytes] at h
      rw [if_pos h]
      trivial
  | pqFlushPush d => exact h
  | pqFlushPop d => exact fun v _ => h
  | forget b o => exact h.elim
  | thrown b o => exact h.elim
  | _ => trivial

theorem Ser.course_local (l : Ser) (p p' : ℤ → Buffer) (h_own : ∀ b ∈ l.held, p' b = p b)
    (h : l.Course env ext p) : l.Course env ext p' := by
  cases l with
  | inspect b =>
    refine ⟨h.1, ?_⟩
    rw [h_own b (Multiset.mem_singleton_self b)]
    exact h.2
  | pqPopOut b n =>
    change ∃ rows, ext.parquetRows ((p' b).payload.take n) = some rows ∧ _
    rw [h_own b (Multiset.mem_singleton_self b)]
    exact h
  | pqOpen b n o =>
    change ∃ rows, ext.parquetRows ((p' b).payload.take n) = some rows ∧ _
    rw [h_own b (by simp [Ser.held])]
    exact h
  | _ => exact h

/-- What holds of the program points of a thread that has forgotten nothing. -/
theorem serialize_accounts {es : List (Event Buffer)} {l : Ser} {m₀ m : Memory Buffer Unit}
    (h : Solo 4 Ser.held (serialize env ext) Ser.Forgets .popIn m₀ es l m) :
    Event.idsPopped 4 es = l.held + Event.idsPushed es := by
  have h_honest : ∀ l : Ser, l.Kept ∧ (env.skipSerializer → l.Forwards) →
      Honest (σ := Unit) 4 Ser.held (fun l => l.Kept ∧ (env.skipSerializer → l.Forwards))
        Ser.Forgets l (serialize env ext l) := fun l h_wf =>
    (serialize_honest env ext Ser.Forgets (fun _ _ h => h) l h_wf.1 h_wf.2).and
      (serialize_leads env ext l h_wf.2)
  have h_start : Ser.Kept .popIn := ⟨by simp [NoMarker, Ser.held], id⟩
  obtain ⟨-, h_sum⟩ := h.accounts h_honest ⟨h_start, fun _ => trivial⟩
  rwa [show Ser.popIn.held = 0 from rfl, zero_add] at h_sum

/-- **The CSV sink loses nothing** as long as what arrives is of this kind. -/
theorem serialize_conserves : Conserves (σ := Unit) 4 2 Ser.held (serialize env ext) .popIn
    Ser.Thrown Ser.Ended (CsvKeeps env ext) := by
  intro es l m₀ m h h_keeps
  have h_start : Ser.Course env ext m₀.pool .popIn := trivial
  have h_off : ∀ (l : Ser) (p : ℤ → Buffer), l.Forgets → ¬ l.Course env ext p := by
    intro l p h
    cases l <;> first | exact id | exact h.elim
  obtain ⟨h_solo, h_course⟩ := h.onCourse serialize_course Ser.course_local h_off h_start h_keeps
  refine ⟨?_, serialize_accounts h_solo, ?_⟩
  · cases l <;> first | exact id | exact h_course.elim
  · rintro (rfl | h_end)
    · rfl
    · cases l with
      | done => rfl
      | _ => exact h_end.elim

/-! ### Where the CSV sink loses a buffer -/

section Loses

variable {es : List (Event Buffer)} {l : Ser} {m₀ m : Memory Buffer Unit} {x : Buffer}

/-- A run that forgets its output buffer has taken one id more than it gives back. -/
theorem not_balanced_of_forget
    (h : Solo 4 Ser.held (serialize env ext) Ser.Forgets .popIn m₀ es l m)
    (h_arrivals : Event.arrivals 2 es = [some x]) {b o : ℤ}
    (hop : serialize (σ := Unit) env ext l = .work [] fun m => (m, .forget b o))
    (h_held : l.held = {b, o}) : ¬ Balanced (σ := Unit) 4 2 Ser.held (serialize env ext) .popIn
      Ser.Thrown Ser.Ended (some x) := by
  intro h_balanced
  have h_sum := serialize_accounts h
  have h_run := h.mono fun _ (h : False) => h.elim
  have h_end := (h_run.work hop id).push rfl id
  have h_equal := (h_balanced _ _ _ _ h_end
    (by rw [Event.arrivals_pushed, h_arrivals])).2 (.inl rfl)
  rw [Event.idsPopped_pushed, Event.idsPushed_pushed, h_sum, h_held] at h_equal
  have h_card := congrArg Multiset.card h_equal
  rw [Multiset.card_add, Multiset.card_pair, Multiset.card_cons] at h_card
  omega

variable (env ext x) in
/-- A run that has popped a buffer and read its header. -/
theorem exists_inspected (h_skip : env.skipSerializer = false)
    (h_keeps : ¬ (inspectHeader env ext 1 x).Forgets) : ∃ es, Event.arrivals 2 es = [some x] ∧
      Solo 4 Ser.held (serialize env ext) Ser.Forgets .popIn ⟨fun _ => x, ()⟩ es
        (inspectHeader env ext 1 x) (⟨fun _ => x, ()⟩ : Memory Buffer Unit) := by
  set m₀ : Memory Buffer Unit := ⟨fun _ => x, ()⟩
  have h_next : (if (1 : ℤ) = marker then Ser.done
      else if env.skipSerializer then .skipPush 1 else .inspect 1) = .inspect 1 := by
    rw [if_neg (by decide), if_neg (by rw [h_skip]; decide)]
  have h_start : Solo 4 Ser.held (serialize env ext) Ser.Forgets .popIn m₀ [] .popIn m₀ := .start
  have h_in := h_start.pop (v := 1) rfl (by simp) (by simp [Ser.held]) (by rw [h_next]; exact id)
  rw [h_next] at h_in
  refine ⟨_, ?_, h_in.work rfl h_keeps⟩
  rw [Event.arrivals_popped (by decide)]
  rfl

/-- The loop over the rows of a table writes nothing if there are no rows or no columns. -/
theorem exists_lastRow (h : env.schema = []) {n i k : ℕ} {cells : ℕ → ℕ → List UInt8}
    (h_rows : i + k = n)
    (h_solo : Solo 4 Ser.held (serialize env ext) Ser.Forgets .popIn m₀ es
      (.row ⟨1, 2, 2, n, cells, i, 0⟩) m) : ∃ m', Solo 4 Ser.held (serialize env ext) Ser.Forgets
        .popIn m₀ es (.row ⟨1, 2, 2, n, cells, n, 0⟩) m' := by
  induction k generalizing i m with
  | zero =>
    obtain rfl : i = n := h_rows
    exact ⟨m, h_solo⟩
  | succ k ih =>
    -- without columns a line is empty, and none of them flushes
    have h_line : ∀ payload, rowBytes env ext cells payload i = [] := fun payload => by
      rw [rowBytes, h, serializeRow]
    have h_fits : ¬ (0 + maxTupleSize env > env.bufferSizeInBytes) := by
      simp [maxTupleSize, h]
    have h_op : serialize (σ := Unit) env ext (.row ⟨1, 2, 2, n, cells, i, 0⟩)
        = .work [1, 2] (SerVars.emitRow env ext ⟨1, 2, 2, n, cells, i, 0⟩) := by
      rw [serialize, if_pos (show i < n by omega), if_neg h_fits]
    have h_next := h_solo.work h_op id
    simp only [SerVars.emitRow, h_line, List.length_nil, Nat.add_zero] at h_next
    exact ih (by omega) h_next

/-- The loop over the rows of a Parquet file, with a new output buffer after every flush. -/
theorem exists_lastParquetRow {rows : List (List (List UInt8))} {k total : ℕ}
    (h_rest : restBytes env ext rows total = 0)
    (h_solo : Solo 4 Ser.held (serialize env ext) Ser.Forgets .popIn m₀ es
      (.pqRow ⟨1, 2, rows, k, total⟩) m) :
    ∃ es' k' m', Event.arrivals 2 es' = Event.arrivals 2 es ∧
      Solo 4 Ser.held (serialize env ext) Ser.Forgets .popIn m₀ es'
        (.pqRow ⟨1, 2, [], k', 0⟩) m' := by
  -- induction over the rows left in the file
  induction rows generalizing es k total m with
  | nil =>
    obtain rfl : total = 0 := h_rest
    exact ⟨es, k, m, rfl, h_solo⟩
  | cons row rows ih =>
    rw [restBytes] at h_rest
    have h_op : serialize (σ := Unit) env ext (.pqRow ⟨1, 2, row :: rows, k, total⟩)
        = .work [2] (PqSerVars.emitRow env ext ⟨1, 2, rows, k, total⟩ row) := rfl
    have h_keeps : ¬ (PqSerVars.emitRow env ext ⟨1, 2, rows, k, total⟩ row m).2.Forgets := by
      simp only [PqSerVars.emitRow]
      split <;> exact id
    have h_next := h_solo.work h_op h_keeps
    simp only [PqSerVars.emitRow] at h_next
    split at h_next
    · next h_full =>
      -- this row fills the buffer
      rw [if_pos h_full] at h_rest
      have h_flushed := (h_next.push rfl id).pop (v := 2) rfl (by decide)
        (by simp [Ser.held]) id
      obtain ⟨es', k', m', h_arrivals, h_last⟩ := ih h_rest h_flushed
      refine ⟨es', k', m', ?_, h_last⟩
      rw [h_arrivals, Event.arrivals_popped_of_ne (by decide), Event.arrivals_pushed]
    · next h_full =>
      rw [if_neg h_full] at h_rest
      exact ih h_rest h_next

/-- An exception breaks the iteration off. -/
theorem not_balanced_of_thrown
    (h : Solo 4 Ser.held (serialize env ext) Ser.Forgets .popIn m₀ es l m)
    (h_arrivals : Event.arrivals 2 es = [some x]) (h_thrown : l.Thrown) :
    ¬ Balanced (σ := Unit) 4 2 Ser.held (serialize env ext) .popIn Ser.Thrown Ser.Ended (some x) :=
  fun h_balanced => (h_balanced _ _ _ _ (h.mono fun _ h => h.elim) h_arrivals).1 h_thrown

/-- A table without rows or without columns. -/
theorem not_balanced_table (h_skip : env.skipSerializer = false) {cells : ℕ → ℕ → List UInt8}
    (h_inspect : inspectHeader env ext 1 x = .popOut 1 x.header.totalTuples cells)
    (h_empty : env.schema = [] ∨ x.header.totalTuples = 0) :
    ¬ Balanced (σ := Unit) 4 2 Ser.held (serialize env ext) .popIn Ser.Thrown Ser.Ended
      (some x) := by
  obtain ⟨es, h_arrivals, h⟩ := exists_inspected env ext x h_skip (by rw [h_inspect]; exact id)
  rw [h_inspect] at h
  have h_first := h.pop (v := 2) rfl (by decide) (by simp [Ser.held]) id
  obtain ⟨m', h_last⟩ : ∃ m', Solo 4 Ser.held (serialize env ext) Ser.Forgets .popIn _ _
      (.row ⟨1, 2, 2, x.header.totalTuples, cells, x.header.totalTuples, 0⟩) m' := by
    rcases h_empty with h_schema | h_none
    · exact exists_lastRow h_schema (Nat.zero_add _) h_first
    · rw [h_none] at h_first ⊢
      exact ⟨_, h_first⟩
  refine not_balanced_of_forget h_last ?_ (b := 1) (o := 2) ?_ rfl
  · rw [Event.arrivals_popped_of_ne (by decide), h_arrivals]
  · rw [serialize, if_neg (Nat.lt_irrefl _), if_neg (Nat.lt_irrefl 0)]

/-- A Parquet file whose last row has filled the output buffer, or one without rows. -/
theorem not_balanced_file (h_skip : env.skipSerializer = false)
    (h_inspect : inspectHeader env ext 1 x = .pqPopOut 1 x.header.totalSize)
    {rows : List (List (List UInt8))} (h_rows : ext.parquetRows x.data = some rows)
    (h_rest : restBytes env ext rows 0 = 0) :
    ¬ Balanced (σ := Unit) 4 2 Ser.held (serialize env ext) .popIn Ser.Thrown Ser.Ended
      (some x) := by
  obtain ⟨es, h_arrivals, h⟩ := exists_inspected env ext x h_skip (by rw [h_inspect]; exact id)
  rw [h_inspect] at h
  have h_popped := h.pop (v := 2) rfl (by decide) (by simp [Ser.held]) id
  have h_rows' : ext.parquetRows (x.payload.take x.header.totalSize) = some rows := h_rows
  have h_open := h_popped.work rfl (by simp only [h_rows']; exact id)
  simp only [h_rows'] at h_open
  obtain ⟨es', k, m', h_arrivals', h_last⟩ := exists_lastParquetRow h_rest h_open
  refine not_balanced_of_forget h_last ?_ (b := 1) (o := 2) rfl rfl
  rw [h_arrivals', Event.arrivals_popped_of_ne (by decide), h_arrivals]

/-- A Parquet file that cannot be read. -/
theorem not_balanced_unreadable (h_skip : env.skipSerializer = false)
    (h_inspect : inspectHeader env ext 1 x = .pqPopOut 1 x.header.totalSize)
    (h_rows : ext.parquetRows x.data = none) :
    ¬ Balanced (σ := Unit) 4 2 Ser.held (serialize env ext) .popIn Ser.Thrown Ser.Ended
      (some x) := by
  obtain ⟨es, h_arrivals, h⟩ := exists_inspected env ext x h_skip (by rw [h_inspect]; exact id)
  rw [h_inspect] at h
  have h_popped := h.pop (v := 2) rfl (by decide) (by simp [Ser.held]) id
  have h_rows' : ext.parquetRows (x.payload.take x.header.totalSize) = none := h_rows
  have h_open := h_popped.work rfl (by simp only [h_rows']; exact id)
  simp only [h_rows'] at h_open
  refine not_balanced_of_thrown h_open ?_ trivial
  rw [Event.arrivals_popped_of_ne (by decide), h_arrivals]

end Loses

/-- **The CSV sink is balanced exactly where `CsvKeeps` says so.** -/
theorem serialize_balanced_iff {x : Option Buffer} :
    Balanced (σ := Unit) 4 2 Ser.held (serialize env ext) .popIn Ser.Thrown Ser.Ended x ↔
      CsvKeeps env ext x := by
  refine ⟨fun h => ?_, serialize_conserves.balanced⟩
  by_contra h_not
  cases x with
  | none => exact h_not trivial
  | some x =>
    obtain ⟨h_skip, h_fails⟩ := not_or.mp h_not
    have h_skip : env.skipSerializer = false := Bool.eq_false_iff.mpr h_skip
    by_cases h_table : x.header.intermediateFormat = 1 ∨ x.header.intermediateFormat = 2 ∨
        x.header.intermediateFormat = 3
    · rw [if_pos h_table] at h_fails
      by_cases h_batch : env.iformat = 3 ∧ ext.recordBatch x.data = none
      · -- the record batch cannot be read
        have h_inspect : inspectHeader env ext 1 x = .thrown 1 none := by
          simp only [inspectHeader, if_pos h_table, if_pos h_batch.1, h_batch.2]
        obtain ⟨es, h_arrivals, h_solo⟩ := exists_inspected env ext x h_skip
          (by rw [h_inspect]; exact id)
        exact not_balanced_of_thrown h_solo h_arrivals (by rw [h_inspect]; trivial) h
      · have h_readable : env.iformat = 3 → (ext.recordBatch x.data).isSome := fun h_arrow => by
          have h_some := not_and.mp h_batch h_arrow
          simpa [Option.isSome_iff_ne_none] using h_some
        obtain ⟨cells, h_inspect⟩ : ∃ cells, inspectHeader env ext 1 x
            = .popOut 1 x.header.totalTuples cells := by
          simp only [inspectHeader, if_pos h_table]
          split
          · next h_arrow =>
            obtain ⟨cells, h_cells⟩ := Option.isSome_iff_exists.mp (h_readable h_arrow)
            exact ⟨cells, by rw [h_cells]⟩
          · exact ⟨_, rfl⟩
        refine not_balanced_table h_skip h_inspect ?_ h
        by_contra h_full
        obtain ⟨h_schema, h_tuples⟩ := not_or.mp h_full
        exact h_fails ⟨h_readable, h_schema, Nat.pos_of_ne_zero h_tuples⟩
    · rw [if_neg h_table] at h_fails
      by_cases h_file : x.header.intermediateFormat = 4
      · rw [if_pos h_file] at h_fails
        have h_inspect : inspectHeader env ext 1 x = .pqPopOut 1 x.header.totalSize := by
          simp only [inspectHeader, if_neg h_table, if_pos h_file]
        cases h_rows : ext.parquetRows x.data with
        | none => exact not_balanced_unreadable h_skip h_inspect h_rows h
        | some rows =>
          refine not_balanced_file h_skip h_inspect h_rows ?_ h
          by_contra h_rest
          exact h_fails ⟨rows, h_rows, Nat.pos_of_ne_zero h_rest⟩
      · rw [if_neg h_file] at h_fails
        exact h_fails trivial

end CsvSink

/-! ### Both sinks -/

/-- **The iterations of the sinks are balanced if and only if what arrives is of the kind of
`CsvKeeps` and `PqKeeps`**, and a run over nothing else loses no id. -/
theorem balanced_iff (env : RuntimeEnv) (ext : External) (lib : Parquet)
    (arrow : List UInt8 → Option (List PqRow)) :
    (Conserves (σ := Unit) 4 2 Ser.held (serialize env ext) .popIn Ser.Thrown Ser.Ended
        (CsvKeeps env ext) ∧
      ∀ x, Balanced (σ := Unit) 4 2 Ser.held (serialize env ext) .popIn Ser.Thrown Ser.Ended x ↔
        CsvKeeps env ext x) ∧
    (Conserves (σ := Unit) 4 2 PqSer.held (pqSerialize env lib arrow) .popIn PqSer.Aborted
        PqSer.Ended (PqKeeps env arrow) ∧
      ∀ x, Balanced (σ := Unit) 4 2 PqSer.held (pqSerialize env lib arrow) .popIn PqSer.Aborted
        PqSer.Ended x ↔ PqKeeps env arrow x) :=
  ⟨⟨serialize_conserves, fun _ => serialize_balanced_iff⟩,
    pqSerialize_conserves, fun _ => pqSerialize_balanced_iff⟩

/-- **A buffer is lost** for a table without rows, and for the end marker in the Arrow format. -/
theorem not_balanced_noRows :
    ¬ Balanced (σ := Unit) 4 2 Ser.held (serialize (intEnv 1) { decoders := storingDecoders })
        .popIn Ser.Thrown Ser.Ended (some ⟨{ intermediateFormat := 1 }, []⟩) ∧
      ¬ Balanced (σ := Unit) 4 2 PqSer.held (pqSerialize (intEnv 3) codeParquet fun _ => none)
        .popIn PqSer.Aborted PqSer.Ended none :=
  ⟨not_balanced_table rfl (show inspectHeader _ _ _ _ = .popOut 1 0 fun _ _ => [] from rfl) (.inr rfl),
    not_balanced_marker rfl rfl⟩

end Xdbc.Client
