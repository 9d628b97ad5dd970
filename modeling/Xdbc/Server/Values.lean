import Xdbc.Server.Batches

/-!
# What the transferred values depend on

Two deserialization threads read the same rows. They may have taken them in different buffers of
text, the pool may have held other bytes before, and the memory of the uninitialised variables
`value` in `deserialize<int>` and `deserialize<double>` may be another one.

The headers are fresh (`deserializeText_titled`), and the cells of a row are those of its fields, so
the output buffers are the same if every field of a number is one: then the parser overwrites
`value`. A field that is no number leaves it as it is, and its cell is what was there before
(`values_determined_iff`).
-/

namespace Xdbc.Server

open Bytes Pipeline

/-! ### Headers -/

section Titles

variable (X : TextSource) (env : RuntimeEnv) (ext : External)

/-- The number of tuples in a header determines the others of its fields. -/
def Titled (b : Buffer) : Prop := b.header = restHeader env b.header.totalTuples

/-- A buffer that is about to be pushed has a fresh header. -/
def Deser.Titled (p : ℤ → Buffer) : Deser → Prop
  | .flushPush d => Server.Titled env (p d.outBid)
  | .restPush d => Server.Titled env (p d.outBid)
  | .skipPush _ => False
  | _ => True

variable {X env ext}

theorem titled_full (payload : List UInt8) :
    Titled env ⟨fullHeader env env.tuplesPerBuffer, payload⟩ := by
  unfold Titled
  simp [fullHeader, restHeader]

theorem Deser.Titled.congr {p p' : ℤ → Buffer} {l : Deser} (h_own : ∀ b ∈ l.held, p' b = p b)
    (h : l.Titled env p) : l.Titled env p' := by
  cases l with
  | flushPush d =>
    rw [Deser.Titled, h_own d.outBid (by simp [held])]
    exact h
  | restPush d =>
    rw [Deser.Titled, h_own d.outBid (by simp [held])]
    exact h
  | skipPush b => exact h
  | _ => trivial

/-- A round of the loop writes a fresh header when it fills the buffer. -/
theorem DeserVars.step_titled {σ : Type} (h_format : env.iformat = 1 ∨ env.iformat = 2)
    (d : DeserVars) (m : Memory Buffer σ) :
    (d.step X env ext m).2.Titled env (d.step X env ext m).1.pool := by
  have h_not_arrow : ¬ (X.arrow = true ∧ env.iformat = 3) := by omega
  simp only [step, if_neg h_not_arrow]
  split
  · split
    · trivial
    · split
      · next h_flush =>
        rw [Deser.Titled, Memory.write_pool_self, h_flush.1]
        exact titled_full _
      · trivial
  · trivial

/-- **Every output buffer has a fresh header.** -/
theorem deserializeText_titled {σ : Type} (h_format : env.iformat = 1 ∨ env.iformat = 2)
    (h_skip : ¬ (X.skips ∧ env.skipDeserializer)) {m₀ m : Memory Buffer σ} {l : Deser}
    {es : List (Event Buffer)}
    (h : Solo 4 Deser.held (deserializeText X env ext) Deser.TakesMarker .start m₀ es l m) :
    (∀ b ∈ Event.outputs 2 es, Titled env b) ∧ l.Titled env m.pool := by
  induction h with
  | start => exact ⟨List.forall_mem_nil _, trivial⟩
  | others _ h_own ih => exact ⟨ih.1, ih.2.congr h_own⟩
  -- only what is popped from the input changes the stage, and no title with it
  | @pop es l m q k v _ hop _ _ _ ih =>
    rw [Event.outputs_popped]
    refine ⟨ih.1, ?_⟩
    cases l with
    | start =>
      simp only [deserializeText, if_neg h_skip] at hop
      cases hop
      trivial
    | nextIn d =>
      simp only [deserializeText] at hop
      cases hop
      dsimp only
      split <;> trivial
    | popIn o => simp only [deserializeText] at hop; cases hop; trivial
    | flushPop d => simp only [deserializeText] at hop; cases hop; trivial
    | rest d =>
      simp only [deserializeText] at hop
      repeat' split at hop
      all_goals cases hop
    | _ => simp [deserializeText] at hop
  | @push es l m q v l' _ hop _ ih =>
    obtain ⟨h_out, h_title⟩ := ih
    -- an output buffer is pushed right after its header was written
    have h_pushed : Titled env (m.pool v) →
        ∀ b ∈ Event.outputs 2 (es ++ [.pushed ⟨2, v, m.pool v⟩]), Titled env b := fun hv => by
      rw [Event.outputs_pushed, List.forall_mem_append]
      exact ⟨h_out, List.forall_mem_singleton.mpr hv⟩
    cases l with
    | flushPush d => simp only [deserializeText] at hop; cases hop; exact ⟨h_pushed h_title, trivial⟩
    | restPush d => simp only [deserializeText] at hop; cases hop; exact ⟨h_pushed h_title, trivial⟩
    | freeIn d =>
      simp only [deserializeText] at hop
      cases hop
      rw [Event.outputs_pushed_of_ne (by decide)]
      exact ⟨h_out, trivial⟩
    | start => simp only [deserializeText, if_neg h_skip] at hop; cases hop
    | skipPush b => exact h_title.elim
    | rest d =>
      simp only [deserializeText] at hop
      repeat' split at hop
      all_goals cases hop
    | _ => simp [deserializeText] at hop
  -- the work of a row and of the rest writes the header of a full and of a last buffer
  | @work es l m bs f _ hop _ ih =>
    refine ⟨ih.1, ?_⟩
    have h_not_arrow : ∀ a b : Prop, ¬ (a ∧ b ∧ X.arrow = true ∧ env.iformat = 3) :=
      fun a b h => by omega
    cases l with
    | row d =>
      simp only [deserializeText] at hop
      cases hop
      exact d.step_titled h_format m
    | rest d =>
      simp only [deserializeText, if_neg (h_not_arrow _ _)] at hop
      split at hop
      · cases hop
        rw [Deser.Titled, Memory.write_pool_self]
        rfl
      · cases hop
        trivial
    | start => simp only [deserializeText, if_neg h_skip] at hop; cases hop
    | thrown i o => simp only [deserializeText] at hop; cases hop; trivial
    | _ => simp [deserializeText] at hop

end Titles

/-! ### The memory of the variables -/

section Stale

variable (X : TextSource) (ext : External) (i : ℤ) (x : UInt64)

/-- The uninitialised variables hold other values. -/
def External.withStale : External := { ext with staleInt := i, staleDouble := x }

/-- The parser finds a number in the field. -/
def Parses (a : SchemaAttribute) (field : List UInt8) : Prop :=
  match a.tpe with
  | .int => (fromChars field).isSome
  | .double => (ext.doubleFromChars field).isSome
  | _ => True

variable {X ext}

/-- A number overwrites what the variable holds. -/
theorem Parses.cellBefore_eq {a : SchemaAttribute} {field : List UInt8} (h : Parses ext a field)
    (sep : UInt8) : cellBefore (ext.withStale i x) sep a field = cellBefore ext sep a field := by
  obtain ⟨tpe, size⟩ := a
  cases tpe with
  | int =>
    obtain ⟨z, hz⟩ := Option.isSome_iff_exists.mp h
    simp only [cellBefore, cell, hz, Option.getD_some]
  | double =>
    obtain ⟨z, hz⟩ := Option.isSome_iff_exists.mp h
    have hz' : (ext.withStale i x).doubleFromChars field = some z := hz
    simp only [cellBefore, cell, hz, hz', Option.getD_some]
  | char => rfl
  | string => rfl

theorem plainCells_withStale {schema : List SchemaAttribute} {fields : List (List UInt8)}
    (h : List.Forall₂ (Parses ext) schema fields) :
    plainCells X (ext.withStale i x) schema fields = plainCells X ext schema fields := by
  induction h with
  | nil => rfl
  | cons h_field _ ih => rw [plainCells, h_field.cellBefore_eq, ih, plainCells]

end Stale

/-! ### What a run takes and what it pushes -/

section Runs

variable (X : TextSource) (env : RuntimeEnv)

/-- The buffer of text holds the lines of the rows. -/
structure HoldsLines (rows : List (List (List UInt8))) (b : Buffer) : Prop where
  data : b.data = rows.flatMap (rowText X)
  size : b.data.length = b.header.totalSize

/-- What a run takes: free buffers with any contents, and buffers of text with the first of the
rows, or with all of them when it is done. -/
structure TakesRows (rows : List (List (List UInt8))) (es : List (Event Buffer)) (l : Deser) :
    Prop where
  free : Takes 0 (Full env) es
  text : ∃ blocks, List.Forall₂ (HoldsLines X) blocks (Event.inputs 1 es) ∧
    blocks.flatten <+: rows ∧ ∀ o, l = .done o → blocks.flatten = rows

/-- Two output buffers transfer the same: their headers and the cells of their tuples are equal. -/
structure SameTable (b b' : Buffer) : Prop where
  header : b.header = b'.header
  cells : cellRows X env b.header.totalTuples b.data = cellRows X env b.header.totalTuples b'.data

variable {X env} {ext : External} {rows : List (List (List UInt8))} {es : List (Event Buffer)}
  {l : Deser}

variable (ext) in
/-- The rows of the buffers of text. -/
theorem TakesRows.exists_items (h_rows : ∀ fields ∈ rows, PlainRow X env.schema fields)
    (h : TakesRows X env rows es l) :
    Takes 1 (plainKind X env ext).Rows es ∧
      (plainKind X env ext).tables.itemsIn es <+: rows ∧
      ∀ o, l = .done o → (plainKind X env ext).tables.itemsIn es = rows := by
  obtain ⟨-, blocks, h_blocks, h_first, h_all⟩ := h
  have h_plain : ∀ block ∈ blocks, ∀ fields ∈ block, PlainRow X env.schema fields :=
    fun block hb fields hf => h_rows fields
      (h_first.subset (List.mem_flatten_of_mem hb hf))
  suffices h_items : (∀ c ∈ Event.inputs 1 es, (plainKind X env ext).Rows c) ∧
      (plainKind X env ext).tables.itemsIn es = blocks.flatten by
    rw [h_items.2]
    exact ⟨h_items.1, h_first, h_all⟩
  -- what is left is an induction over the blocks
  change _ ∧ (Event.inputs 1 es).flatMap (rowsOfText X) = _
  clear h_first h_all
  generalize Event.inputs 1 es = bs at h_blocks ⊢
  induction h_blocks with
  | nil => exact ⟨List.forall_mem_nil _, rfl⟩
  | @cons block b blocks bs h_block _ ih =>
    obtain ⟨h_good, h_plain⟩ := List.forall_mem_cons.mp h_plain
    obtain ⟨h_ok, h_items⟩ := ih h_plain
    refine ⟨List.forall_mem_cons.mpr ⟨⟨⟨block, h_good, h_block.data⟩, h_block.size⟩, h_ok⟩, ?_⟩
    rw [List.flatMap_cons, h_items, List.flatten_cons, rowsOfText, h_block.data,
      fieldRows_flatMap h_good]

/-- **The output buffers hold the rows in pieces.** -/
theorem TakesRows.exists_cut {σ : Type} {m₀ m : Memory Buffer σ}
    (h_format : env.iformat = 1 ∨ env.iformat = 2) (h_flushes : X.flushes env.iformat = true)
    (h_skip : ¬ (X.skips ∧ env.skipDeserializer)) (h_width : ∀ a ∈ env.schema, a.width ≤ a.size)
    (h_pos : 1 ≤ env.tuplesPerBuffer) (h_rows : ∀ fields ∈ rows, PlainRow X env.schema fields)
    (h : Solo 4 Deser.held (deserializeText X env ext) Deser.TakesMarker .start m₀ es l m)
    (h_takes : TakesRows X env rows es l) :
    ∃ batches, (plainKind X env ext).tables.Cut env.tuplesPerBuffer rows es batches ∧
      ∀ o, l = .done o → rows.length ≤ batches.length * env.tuplesPerBuffer := by
  obtain ⟨h_text, h_first, h_all⟩ := h_takes.exists_items ext h_rows
  have h_inv := deserializeText_regroups h_format h_flushes h_skip h_width h_pos h h_takes.free
    h_text
  -- wherever the thread stands, the tables it has sent are cut from the rows
  have h_splits : ∀ InHand left, (plainKind X env ext).tables.Splits es InHand left →
      ∃ batches, (plainKind X env ext).tables.Cut env.tuplesPerBuffer rows es batches :=
    fun InHand left h => h.cut (fun _ h_full => h_full) h_pos h_first
  have h_none : Event.outputs 2 es = [] →
      ∃ batches, (plainKind X env ext).tables.Cut env.tuplesPerBuffer rows es batches :=
    fun h_out => ⟨[], by
      rw [show Event.outputs (plainKind X env ext).tables.sink es = [] from h_out]
      exact .nil, nofun, nofun⟩
  cases l with
  -- at the end they are all of them
  | done o =>
    obtain ⟨batches, h_chunks⟩ := h_inv
    have h_cut := h_chunks.cut (fun _ h_full => h_full) h_pos fun _ h_rest => h_rest
    rw [h_all o rfl] at h_cut
    exact ⟨batches, h_cut.1, fun _ _ => h_cut.2⟩
  | start => exact (h_none h_inv.2).imp fun _ h_cut => ⟨h_cut, nofun⟩
  | popIn o => exact (h_none h_inv.2.2).imp fun _ h_cut => ⟨h_cut, nofun⟩
  | row d => exact (h_splits _ _ h_inv.2.2).imp fun _ h_cut => ⟨h_cut, nofun⟩
  | flushPush d => exact (h_splits _ _ h_inv.2.2).imp fun _ h_cut => ⟨h_cut, nofun⟩
  | flushPop d => exact (h_splits _ _ h_inv.2.2).imp fun _ h_cut => ⟨h_cut, nofun⟩
  | freeIn d => exact (h_splits _ _ h_inv.2).imp fun _ h_cut => ⟨h_cut, nofun⟩
  | nextIn d => exact (h_splits _ _ h_inv).imp fun _ h_cut => ⟨h_cut, nofun⟩
  | rest d => exact (h_splits _ _ h_inv).imp fun _ h_cut => ⟨h_cut, nofun⟩
  | restPush d => exact (h_splits _ _ h_inv).imp fun _ h_cut => ⟨h_cut, nofun⟩
  | skipPush b => exact h_inv.elim
  | thrown i o => exact h_inv.elim

variable (X env ext rows) in
/-- **The values depend only on the rows**: two runs over the same rows, with other contents of the
buffers and of the uninitialised variables, push the same tables, and as many of them. -/
def Determined : Prop :=
  ∀ (i : ℤ) (x : UInt64) (σ : Type) (m₀ m m₀' m' : Memory Buffer σ) (es es' : List (Event Buffer))
    (l l' : Deser),
    Solo 4 Deser.held (deserializeText X env ext) Deser.TakesMarker .start m₀ es l m →
    Solo 4 Deser.held (deserializeText X env (ext.withStale i x)) Deser.TakesMarker .start
      m₀' es' l' m' →
    TakesRows X env rows es l → TakesRows X env rows es' l' →
      (∀ (j : ℕ) (b b' : Buffer), (Event.outputs 2 es)[j]? = some b →
        (Event.outputs 2 es')[j]? = some b' → SameTable X env b b') ∧
      ∀ o o', l = .done o → l' = .done o' →
        (Event.outputs 2 es).length = (Event.outputs 2 es').length

/-- Two tables with the same rows. -/
theorem HoldsTable.same {ρ : Type} {row row' : ρ → Row} {piece : List ρ} {b b' : Buffer}
    (h : HoldsTable X env row piece b) (h' : HoldsTable X env row' piece b')
    (h_title : Titled env b) (h_title' : Titled env b')
    (h_rows : ∀ fields ∈ piece, row fields = row' fields) : SameTable X env b b' := by
  refine ⟨?_, ?_⟩
  · rw [h_title, h_title', h.tuples, h'.tuples]
  · rw [h.tuples, h.cells, h'.cells]
    exact List.map_congr_left h_rows

/-- Rows of numbers determine what is transferred. -/
theorem determined_of_parses (h_format : env.iformat = 1 ∨ env.iformat = 2)
    (h_flushes : X.flushes env.iformat = true) (h_skip : ¬ (X.skips ∧ env.skipDeserializer))
    (h_width : ∀ a ∈ env.schema, a.width ≤ a.size) (h_pos : 1 ≤ env.tuplesPerBuffer)
    (h_rows : ∀ fields ∈ rows, PlainRow X env.schema fields)
    (h_parses : ∀ fields ∈ rows, List.Forall₂ (Parses ext) env.schema fields) :
    Determined X env ext rows := by
  intro i x σ m₀ m m₀' m' es es' l l' h h' h_takes h_takes'
  obtain ⟨batches, h_cut, h_all⟩ := h_takes.exists_cut h_format h_flushes h_skip h_width h_pos
    h_rows h
  obtain ⟨batches', h_cut', h_all'⟩ := h_takes'.exists_cut h_format h_flushes h_skip h_width h_pos
    h_rows h'
  obtain ⟨h_titled, -⟩ := deserializeText_titled h_format h_skip h
  obtain ⟨h_titled', -⟩ := deserializeText_titled h_format h_skip h'
  refine ⟨fun j b b' hb hb' => ?_, fun o o' hl hl' => ?_⟩
  · -- the same rows give the same cells, whatever the variables held before
    refine (h_cut.holds_get hb).same (h_cut'.holds_get hb') (h_titled b (List.mem_of_getElem? hb))
      (h_titled' b' (List.mem_of_getElem? hb')) fun fields hf => ?_
    exact (plainCells_withStale i x
      (h_parses fields (List.mem_of_mem_drop (List.mem_of_mem_take hf)))).symm
  · -- both runs have sent as many tables as the rows make
    have h_length := h_cut.holds.length_eq
    have h_length' := h_cut'.holds.length_eq
    have h_le := h_cut.length_le (h_all' o' hl')
    have h_le' := h_cut'.length_le (h_all o hl)
    change batches.length = (Event.outputs 2 es).length at h_length
    change batches'.length = (Event.outputs 2 es').length at h_length'
    omega

/-! ### A run over given rows -/

/-- The thread is in the loop over the rows of input buffer `b`. -/
def Deser.InLoop (b : ℤ) : Deser → Prop
  | .row d => d.inBid = b
  | .flushPush d => d.inBid = b
  | .flushPop d => d.inBid = b
  | .freeIn d => d.inBid = b
  | .nextIn _ => True
  | _ => False

theorem Deser.InLoop.not_takesMarker {b : ℤ} (hb : b ≠ marker) {l : Deser} (h : l.InLoop b) :
    ¬ l.TakesMarker := by
  cases l with
  | row d =>
    change d.inBid ≠ marker
    rw [show d.inBid = b from h]
    exact hb
  | _ => exact id

/-- A round stays in the loop. -/
theorem DeserVars.step_inLoop {σ : Type} (h_format : env.iformat = 1 ∨ env.iformat = 2)
    (d : DeserVars) (m : Memory Buffer σ) :
    (d.step X env ext m).2.InLoop d.inBid ∨ ∃ i o, (d.step X env ext m).2 = .thrown i o := by
  have h_not_arrow : ¬ (X.arrow = true ∧ env.iformat = 3) := by omega
  simp only [step, if_neg h_not_arrow]
  split
  · split
    · exact .inr ⟨_, _, rfl⟩
    · split
      · exact .inl rfl
      · exact .inl rfl
  · exact .inl rfl

/-- A buffer with zeros. -/
def zeroBuffer (env : RuntimeEnv) : Buffer := ⟨{}, List.replicate env.payloadSize 0⟩

theorem full_zeroBuffer : Full env (zeroBuffer env) := List.length_replicate

/-- The loop over the rows of buffer 1 comes to its end. -/
theorem exists_solo_nextIn {σ : Type} {m₀ m : Memory Buffer σ} {c : Buffer}
    (h_format : env.iformat = 1 ∨ env.iformat = 2) (h_flushes : X.flushes env.iformat = true)
    (h_skip : ¬ (X.skips ∧ env.skipDeserializer)) (h_width : ∀ a ∈ env.schema, a.width ≤ a.size)
    (h_pos : 1 ≤ env.tuplesPerBuffer) (h_rows : (plainKind X env ext).Rows c)
    (h : Solo 4 Deser.held (deserializeText X env ext) Deser.TakesMarker .start m₀ es l m)
    (h_loop : l.InLoop 1) (h_free : Takes 0 (Full env) es) (h_in : Event.inputs 1 es = [c]) :
    ∃ es' d m', Solo 4 Deser.held (deserializeText X env ext) Deser.TakesMarker .start m₀ es'
      (.nextIn d) m' ∧ Takes 0 (Full env) es' ∧ Event.inputs 1 es' = [c] := by
  induction h_rank : l.rank m.pool using Nat.strong_induction_on generalizing l es m with
  | _ r ih =>
    have h_inv : ∀ {m : Memory Buffer σ},
        Solo 4 Deser.held (deserializeText X env ext) Deser.TakesMarker .start m₀ es l m →
        l.Regroups (plainKind X env ext) es m.pool := fun h =>
      deserializeText_regroups h_format h_flushes h_skip h_width h_pos h h_free
        (fun b hb => by rw [h_in, List.mem_singleton] at hb; rw [hb]; exact h_rows)
    have h_lowers := (h_inv h).lowers h_format h_flushes h_skip
    cases l with
    | nextIn d => exact ⟨es, d, m, h, h_free, h_in⟩
    | row d =>
      have h_step := (d.step_regroups h_format h_flushes (h_inv h)).1
      have h_next : (d.step X env ext m).2.InLoop 1 := by
        rcases d.step_inLoop h_format m with h_next | ⟨i, o, h_thrown⟩
        · rw [show d.inBid = 1 from h_loop] at h_next
          exact h_next
        · rw [h_thrown] at h_step
          exact h_step.elim
      exact ih _ (h_rank ▸ h_lowers) (h.work rfl (h_next.not_takesMarker (by decide))) h_next
        h_free h_in rfl
    | flushPush d =>
      exact ih _ (h_rank ▸ h_lowers) (h.push rfl id) h_loop h_free.pushed
        (by rw [Event.inputs_pushed]; exact h_in) rfl
    | freeIn d =>
      exact ih _ (h_rank ▸ h_lowers) (h.push rfl id) trivial h_free.pushed
        (by rw [Event.inputs_pushed]; exact h_in) rfl
    | flushPop d =>
      -- the environment offers buffer 2, emptied
      have h_one : d.inBid = 1 := h_loop
      have h_ne : ∀ b ∈ (Deser.flushPop d).held, b ≠ 2 := fun b hb => by
        rw [Deser.held, Multiset.mem_singleton] at hb
        omega
      have h' := h.others fun b hb => m.write_pool_of_ne (h_ne b hb) (zeroBuffer env)
      have h_unread : (Deser.flushPop d).rank (m.write 2 (zeroBuffer env)).pool = r := by
        rw [← h_rank, Deser.rank, Deser.rank, DeserVars.unread_congr (m.write_pool_of_ne _ _)]
        exact h_ne _ (Multiset.mem_singleton_self _)
      rcases (h_inv h').lowers h_format h_flushes h_skip with h_wait | h_less
      · exact absurd h_wait (by decide)
      · have h_pop := h'.pop (v := 2) rfl (fun _ => by decide)
          (fun _ _ h_held => h_ne 2 h_held rfl)
          (Deser.InLoop.not_takesMarker (b := 1) (by decide) h_one)
        rw [Memory.write_pool_self] at h_pop
        exact ih _ (h_unread ▸ h_less 2) h_pop h_one (h_free.pop full_zeroBuffer)
          (by rw [Event.inputs_popped_of_ne (by decide)]; exact h_in) rfl
    | start => exact h_loop.elim
    | popIn o => exact h_loop.elim
    | rest d => exact h_loop.elim
    | restPush d => exact h_loop.elim
    | done o => exact h_loop.elim
    | skipPush b => exact h_loop.elim
    | thrown i o => exact h_loop.elim

variable (rows) in
/-- **Any rows can be read to the end.** -/
theorem exists_solo_done (ext : External) (h_format : env.iformat = 1 ∨ env.iformat = 2)
    (h_flushes : X.flushes env.iformat = true) (h_skip : ¬ (X.skips ∧ env.skipDeserializer))
    (h_width : ∀ a ∈ env.schema, a.width ≤ a.size) (h_pos : 1 ≤ env.tuplesPerBuffer)
    (h_rows : ∀ fields ∈ rows, PlainRow X env.schema fields) :
    ∃ (m₀ m : Memory Buffer Unit) (es : List (Event Buffer)) (o : Option ℤ),
      Solo 4 Deser.held (deserializeText X env ext) Deser.TakesMarker .start m₀ es (.done o) m ∧
        TakesRows X env rows es (.done o) := by
  let text := rows.flatMap (rowText X)
  let c : Buffer := ⟨{ totalSize := text.length }, text⟩
  let m₀ : Memory Buffer Unit := ⟨fun b => if b = 1 then c else zeroBuffer env, ()⟩
  have h_data : c.data = text := List.take_length
  have h_lines : HoldsLines X rows c := ⟨h_data, by rw [h_data]⟩
  have h_text : (plainKind X env ext).Rows c := ⟨⟨rows, h_rows, h_data⟩, h_lines.size⟩
  -- the two buffers it begins with
  have h_start : deserializeText X env ext .start = (.pop 0 .popIn : Op Deser Buffer Unit) :=
    if_neg h_skip
  have h_none : Solo 4 Deser.held (deserializeText X env ext) Deser.TakesMarker .start m₀ [] .start
      m₀ := .start
  have h_first := h_none.pop (v := 0) h_start (fun _ => by decide)
    (fun _ _ => Multiset.notMem_zero _) id
  have h_second := h_first.pop (v := 1) rfl (fun h => absurd h (by decide))
    (fun _ _ h_held => absurd (Multiset.mem_singleton.mp h_held) (by decide))
    (Deser.InLoop.not_takesMarker (b := 1) (by decide) rfl)
  -- the loop over the rows, and the end marker
  obtain ⟨es, d, m, h_loop, h_free, h_in⟩ := exists_solo_nextIn h_format h_flushes h_skip h_width
    h_pos h_text h_second rfl ((Takes.pop nofun full_zeroBuffer).pop_of_ne (by decide)) rfl
  have h_rest := h_loop.pop (v := marker) rfl (fun h => absurd h (by decide))
    (fun _ h => absurd rfl h) (by rw [if_pos rfl]; exact id)
  rw [if_pos rfl] at h_rest
  have h_done : ∀ {es : List (Event Buffer)} {o : Option ℤ},
      Takes 0 (Full env) es → Event.inputs 1 es = [c] → TakesRows X env rows es (.done o) :=
    fun h_free h_in => ⟨h_free, [rows], by rw [h_in]; exact .cons h_lines .nil,
      by simp, by simp⟩
  have h_free' : Takes 0 (Full env) (es ++ [.popped 1 marker (m.pool marker)]) :=
    h_free.pop_of_ne (by decide)
  have h_in' : Event.inputs 1 (es ++ [.popped 1 marker (m.pool marker)]) = [c] := by
    rw [Event.inputs_popped_marker]
    exact h_in
  by_cases h_remain : d.bufferTupleId > 0 ∧ d.bufferTupleId ≠ env.tuplesPerBuffer ∧
      X.flushes env.iformat = true
  · have h_push := (h_rest.work (if_pos h_remain) id).push rfl id
    exact ⟨m₀, _, _, _, h_push, h_done h_free'.pushed (by rw [Event.inputs_pushed]; exact h_in')⟩
  · have h_not_arrow : ¬ (d.bufferTupleId > 0 ∧ d.bufferTupleId ≠ env.tuplesPerBuffer ∧
        X.arrow = true ∧ env.iformat = 3) := fun h => by omega
    have h_end := h_rest.work ((if_neg h_remain).trans (if_neg h_not_arrow)) id
    exact ⟨m₀, _, _, _, h_end, h_done h_free' h_in'⟩

/-! ### Fields that are no numbers -/

theorem int32Bytes_ne_succ (z : ℤ) : int32Bytes (z + 1) ≠ int32Bytes z := by
  intro h
  have h_num := congrArg ofLeBytes h
  rw [int32Bytes, int32Bytes, ofLeBytes_leBytes, ofLeBytes_leBytes] at h_num
  omega

theorem doubleBytes_ne_succ (x : UInt64) : doubleBytes (x + 1) ≠ doubleBytes x := by
  intro h
  have h_num := congrArg ofLeBytes h
  rw [doubleBytes, doubleBytes, ofLeBytes_leBytes, ofLeBytes_leBytes, UInt64.toNat_add] at h_num
  have h_lt := x.toNat_lt
  simp only [UInt64.reduceToNat] at h_num
  omega

/-- If the cells of a row do not depend on the variables, its fields are numbers. -/
theorem parses_of_plainCells_eq {schema : List SchemaAttribute} {fields : List (List UInt8)}
    (h_fields : List.Forall₂ (PlainField X) schema fields)
    (h : plainCells X (ext.withStale (ext.staleInt + 1) (ext.staleDouble + 1)) schema fields
      = plainCells X ext schema fields) : List.Forall₂ (Parses ext) schema fields := by
  induction h_fields with
  | nil => exact .nil
  | @cons a field schema fields _ _ ih =>
    rw [plainCells, plainCells] at h
    obtain ⟨h_cell, h_rest⟩ := List.cons.inj h
    refine .cons ?_ (ih h_rest)
    -- only numbers have a stale value to show
    obtain ⟨tpe, size⟩ := a
    cases tpe with
    | int =>
      by_contra h_none
      have h_none : fromChars field = none := Option.not_isSome_iff_eq_none.mp h_none
      simp only [cellBefore, cell, h_none, Option.getD_none, External.withStale] at h_cell
      exact int32Bytes_ne_succ _ h_cell
    | double =>
      by_contra h_none
      have h_none : ext.doubleFromChars field = none := Option.not_isSome_iff_eq_none.mp h_none
      simp only [cellBefore, cell, h_none, Option.getD_none, External.withStale] at h_cell
      exact doubleBytes_ne_succ _ h_cell
    | char => trivial
    | string => trivial

/-- What is transferred determines the fields of the numbers. -/
theorem parses_of_determined (h_format : env.iformat = 1 ∨ env.iformat = 2)
    (h_flushes : X.flushes env.iformat = true) (h_skip : ¬ (X.skips ∧ env.skipDeserializer))
    (h_width : ∀ a ∈ env.schema, a.width ≤ a.size) (h_pos : 1 ≤ env.tuplesPerBuffer)
    (h_rows : ∀ fields ∈ rows, PlainRow X env.schema fields) (h : Determined X env ext rows) :
    ∀ fields ∈ rows, List.Forall₂ (Parses ext) env.schema fields := by
  let ext' := ext.withStale (ext.staleInt + 1) (ext.staleDouble + 1)
  obtain ⟨m₀, m, es, o, h_run, h_takes⟩ := exists_solo_done rows ext h_format h_flushes h_skip
    h_width h_pos h_rows
  obtain ⟨m₀', m', es', o', h_run', h_takes'⟩ := exists_solo_done rows ext' h_format h_flushes
    h_skip h_width h_pos h_rows
  obtain ⟨h_same, h_length⟩ := h _ _ _ _ _ _ _ _ _ _ _ h_run h_run' h_takes h_takes'
  obtain ⟨batches, h_cut, h_all⟩ := h_takes.exists_cut h_format h_flushes h_skip h_width h_pos
    h_rows h_run
  obtain ⟨batches', h_cut', -⟩ := h_takes'.exists_cut h_format h_flushes h_skip h_width h_pos
    h_rows h_run'
  intro fields hf
  obtain ⟨q, hq⟩ := List.getElem?_of_mem hf
  have h_lt := (List.getElem?_eq_some_iff.mp hq).1
  -- row `q` is in piece `q / k`
  have h_piece : fields ∈ (rows.drop (q / env.tuplesPerBuffer * env.tuplesPerBuffer)).take
      env.tuplesPerBuffer := by
    refine List.mem_of_getElem? (i := q % env.tuplesPerBuffer) ?_
    rw [List.getElem?_take_of_lt (Nat.mod_lt q h_pos), List.getElem?_drop, Nat.div_add_mod', hq]
  have h_index : q / env.tuplesPerBuffer < (Event.outputs 2 es).length := by
    have h_count : batches.length = (Event.outputs 2 es).length := h_cut.holds.length_eq
    rw [← h_count]
    exact Nat.div_lt_of_lt_mul (h_lt.trans_le ((h_all o rfl).trans_eq (Nat.mul_comm _ _)))
  have hb := List.getElem?_eq_getElem h_index
  have hb' := List.getElem?_eq_getElem (h_length o o' rfl rfl ▸ h_index)
  have h_holds := h_cut.holds_get hb
  have h_holds' := h_cut'.holds_get hb'
  have h_cells := (h_same _ _ _ hb hb').cells
  rw [h_holds.tuples, h_holds.cells, h_holds'.cells] at h_cells
  exact parses_of_plainCells_eq (h_rows fields hf).fields
    (List.map_inj_left.mp h_cells fields h_piece).symm

end Runs

/-! ### The values -/

/-- **What is transferred depends only on the rows exactly if every field of a number is one.** For
all rows of plain fields, over all runs of `deserializeCSV` and `deserializePG`. -/
theorem values_determined_iff {X : TextSource} (hX : X = csvText ∨ X = pgText) {env : RuntimeEnv}
    (ext : External) (h_format : env.iformat = 1 ∨ env.iformat = 2)
    (h_skip : ¬ (X.skips ∧ env.skipDeserializer)) (h_width : ∀ a ∈ env.schema, a.width ≤ a.size)
    (h_pos : 1 ≤ env.tuplesPerBuffer) {rows : List (List (List UInt8))}
    (h_rows : ∀ fields ∈ rows, PlainRow X env.schema fields) :
    Determined X env ext rows ↔ ∀ fields ∈ rows, List.Forall₂ (Parses ext) env.schema fields := by
  have h_flushes : X.flushes env.iformat = true := by
    rcases hX with rfl | rfl
    · simpa [csvText] using h_format
    · rfl
  exact ⟨parses_of_determined h_format h_flushes h_skip h_width h_pos h_rows,
    determined_of_parses h_format h_flushes h_skip h_width h_pos h_rows⟩

/-- A table with one column of integers. -/
def integerEnv : RuntimeEnv := { smallEnv with schema := [⟨.int, 4⟩] }

/-- A row of one field without a separator. -/
theorem plainRow_integer {field : List UInt8}
    (h : csvText.delimiter ∉ field ∧ newline ∉ field ∧ 0 ∉ field) :
    ∀ fields ∈ [[field]], PlainRow csvText integerEnv.schema fields := by
  obtain ⟨h_delimiter, h_newline, h_nul⟩ := h
  intro fields hf
  rw [List.mem_singleton.mp hf]
  exact ⟨List.cons_ne_nil _ _, .cons ⟨h_delimiter, h_newline, h_nul, le_rfl, nofun⟩ .nil⟩

/-- The row `7` is a number. -/
theorem values_determined_seven : Determined csvText integerEnv emptyTable [[[55]]] := by
  refine (values_determined_iff (.inl rfl) emptyTable (.inl rfl) (by decide) (by decide) (by decide)
    (plainRow_integer (by decide))).mpr fun fields hf => ?_
  rw [List.mem_singleton.mp hf]
  exact .cons rfl .nil

/-- The cell of the row `x` is what the variable held before. -/
theorem values_not_determined :
    ¬ ∀ (X : TextSource) (env : RuntimeEnv) (ext : External) (rows : List (List (List UInt8))),
      X = csvText ∨ X = pgText → env.iformat = 1 ∨ env.iformat = 2 →
      ¬ (X.skips ∧ env.skipDeserializer) → (∀ a ∈ env.schema, a.width ≤ a.size) →
      1 ≤ env.tuplesPerBuffer → (∀ fields ∈ rows, PlainRow X env.schema fields) →
      Determined X env ext rows := by
  intro h
  have h_rows : ∀ fields ∈ [[[(120 : UInt8)]]], PlainRow csvText integerEnv.schema fields :=
    plainRow_integer (by decide)
  have h_all := parses_of_determined (.inl rfl) rfl (by decide) (by decide) (by decide) h_rows
    (h csvText integerEnv emptyTable [[[120]]] (.inl rfl) (.inl rfl) (by decide) (by decide)
      (by decide) h_rows)
  obtain ⟨h_parses, -⟩ := List.forall₂_cons.mp (h_all _ (List.mem_singleton_self _))
  have h_none : ¬ (fromChars [120]).isSome = true := by decide
  exact h_none h_parses

end Xdbc.Server
