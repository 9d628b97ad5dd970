import Xdbc.Client.System

/-!
# Who holds which buffer of the client

The ids a program point names, and the obligations of the pipeline library for the client's
programs. A serialization thread that has written nothing to its output buffer forgets it
(`leaks`): the id is lost to the pool. In all other runs the ids are kept (`custody`).
-/

namespace Xdbc.Client

open Bytes Pipeline

/-! ### The ids a program point names -/

/-- The buffers the live local variables of `receive` name. -/
def Receive.held : Receive → Multiset ℤ
  | .start => 0
  | .popFree _ => 0
  | .readSocket _ b => {b}
  | .push _ b => {b}
  | .done b => {b}

/-- The buffers the live local variables of `decompress` name. -/
def Decomp.held : Decomp → Multiset ℤ
  | .popIn _ => 0
  | .inspect _ b => {b}
  | .forward _ b => {b}
  | .popOut _ b => {b}
  | .decompress _ b o => {b, o}
  | .errorIn _ b o => {b, o}
  | .errorOut _ o => {o}
  | .pushOut _ b o => {b, o}
  | .freeIn _ b => {b}
  | .done => 0

/-- The buffers the live local variables of `serialize` name. The reference `outBuffer` is none of
them: behind a flush it names a buffer the thread has given away. -/
def Ser.held : Ser → Multiset ℤ
  | .popIn => 0
  | .skipPush b => {b}
  | .inspect b => {b}
  | .popOut b _ _ => {b}
  | .row d => {d.bufferId, d.serializedBufferId}
  | .flushPush d => {d.bufferId, d.serializedBufferId}
  | .flushPop d => {d.bufferId}
  | .assign d => {d.bufferId, d.serializedBufferId}
  | .emit d => {d.bufferId, d.serializedBufferId}
  | .restPush d => {d.bufferId, d.serializedBufferId}
  | .pqPopOut b _ => {b}
  | .pqOpen b _ o => {b, o}
  | .pqRow d => {d.bufferId, d.writeBuff}
  | .pqFlushPush d => {d.bufferId, d.writeBuff}
  | .pqFlushPop d => {d.bufferId}
  | .pqRestPush d => {d.bufferId, d.writeBuff}
  | .forget b o => {b, o}
  | .freeIn b => {b}
  | .done => 0
  | .thrown b o => {b} + (o.toList : Multiset ℤ)

/-- The buffers the live local variables of `write` name. -/
def Write.held : Write → Multiset ℤ
  | .write b => {b}
  | .free b => {b}
  | _ => 0

/-- The buffers a program point names. -/
def held : (k : Fin 4) → Local k → Multiset ℤ
  | 0 => Receive.held
  | 1 => Decomp.held
  | 2 => Ser.held
  | 3 => Write.held

/-! ### Program points that are not reached -/

/-- With `skip_serializer` a thread only hands buffers on. -/
def Ser.Forwards : Ser → Prop
  | .popIn => True
  | .skipPush _ => True
  | .done => True
  | _ => False

/-- The output buffer is about to be forgotten. -/
def Ser.Forgets : Ser → Prop
  | .forget _ _ => True
  | _ => False

instance Ser.decForgets (l : Ser) : Decidable l.Forgets := by
  unfold Forgets; split <;> infer_instance

section Programs

variable {σ : Type} (env : RuntimeEnv) (ext : External)

theorem serialize_leads (l : Ser) (h : env.skipSerializer → l.Forwards) :
    (serialize (σ := σ) env ext l).Leads fun l' => env.skipSerializer → l'.Forwards := by
  by_cases h_skip : env.skipSerializer
  · have h_forwards := h h_skip
    cases l with
    | popIn =>
      simp only [serialize, h_skip]
      intro v _
      dsimp only
      split <;> trivial
    | skipPush b => exact fun _ => trivial
    | done => trivial
    | _ => exact h_forwards.elim
  · cases h_op : serialize (σ := σ) env ext l <;> simp [Op.Leads, h_skip]

/-! ### Every program is honest -/

theorem receive_honest (thr : ℕ) (bad : Receive → Prop) (l : Receive)
    (h : NoMarker Receive.held l) :
    Honest (σ := σ) 4 Receive.held (NoMarker Receive.held) bad l (receive ext thr l) := by
  cases l with
  | start =>
    simp only [receive]
    split
    · simp +contextual [Honest, NoMarker, Receive.held]
    · trivial
  | readSocket ps b =>
    cases ps with
    | nil => exact fun _ _ => ⟨h, rfl⟩
    | cons p ps =>
      intro m
      dsimp only
      split <;> exact fun _ => ⟨h, rfl⟩
  | _ => simp_all [receive, Honest, NoMarker, Receive.held]

theorem decompress_honest (bad : Decomp → Prop) (l : Decomp) (h : NoMarker Decomp.held l) :
    Honest (σ := σ) 4 Decomp.held (NoMarker Decomp.held) bad l (decompress env ext l) := by
  cases l with
  | popIn e =>
    refine ⟨fun v _ hv _ => ?_, fun _ _ _ => ⟨h, rfl⟩, by simp⟩
    dsimp only
    rw [if_neg hv]
    simp [NoMarker, Decomp.held, hv]
  | inspect e b =>
    intro m
    dsimp only
    split <;> exact fun _ => ⟨h, rfl⟩
  | popOut e b =>
    refine ⟨fun v _ hv _ => ⟨?_, Multiset.pair_comm _ _⟩, by simp, by simp⟩
    simp_all [NoMarker, Decomp.held]
  | decompress e b o =>
    intro m
    dsimp only
    split <;> split <;> exact fun _ => ⟨h, rfl⟩
  | pushOut e b o =>
    refine ⟨by omega, h o (by simp [Decomp.held]), fun _ => ⟨?_, Multiset.pair_comm _ _⟩⟩
    simp_all [NoMarker, Decomp.held]
  | _ => simp_all [decompress, Honest, NoMarker, Decomp.held]

theorem write_honest (thr : ℕ) (bad : Write → Prop) (l : Write) (h : NoMarker Write.held l) :
    Honest 4 Write.held (NoMarker Write.held) bad l (write ext thr l) := by
  cases l with
  | start =>
    intro m
    dsimp only
    split <;> exact fun _ => ⟨h, rfl⟩
  | popIn =>
    refine ⟨fun v _ hv _ => ?_, fun _ _ _ => ⟨h, rfl⟩, by simp⟩
    dsimp only
    rw [if_neg hv]
    simp [NoMarker, Write.held, hv]
  | _ => simp_all [write, Honest, NoMarker, Write.held]

/-- The dispatch on the format keeps the input buffer in hand. -/
theorem held_inspectHeader (bufferId : ℤ) (b : Buffer) :
    (inspectHeader env ext bufferId b).held = {bufferId} := by
  simp only [inspectHeader]
  repeat' split
  all_goals rfl

theorem not_forgets_inspectHeader (bufferId : ℤ) (b : Buffer) :
    ¬ (inspectHeader env ext bufferId b).Forgets := by
  simp only [inspectHeader]
  repeat' split
  all_goals exact id

/-- No buffer in hand is the end marker, and none is about to be forgotten. -/
def Ser.Kept (l : Ser) : Prop := NoMarker Ser.held l ∧ ¬ l.Forgets

theorem serialize_honest (bad : Ser → Prop)
    (h_bad : ∀ l, env.skipSerializer = false → Ser.Forgets l → bad l) (l : Ser) (h : l.Kept)
    (h_forwards : env.skipSerializer → l.Forwards) :
    Honest (σ := σ) 4 Ser.held Ser.Kept bad l (serialize env ext l) := by
  obtain ⟨h_none, h_keeps⟩ := h
  have h_skip : ¬ l.Forwards → env.skipSerializer = false := fun h_not =>
    Bool.eq_false_iff.mpr fun h => h_not (h_forwards h)
  cases l with
  -- whatever is popped is a buffer or the marker that ends the thread
  | popIn =>
    refine ⟨fun v _ hv _ => ?_, fun _ _ _ => ⟨⟨by simp [NoMarker, Ser.held], id⟩, rfl⟩, by simp⟩
    dsimp only
    rw [if_neg hv]
    split <;> exact ⟨⟨by simp [NoMarker, Ser.held, hv], id⟩, rfl⟩
  | inspect b =>
    refine fun m _ => ⟨⟨?_, not_forgets_inspectHeader env ext b _⟩, held_inspectHeader env ext b _⟩
    rw [NoMarker, held_inspectHeader]
    exact h_none
  -- the two buffers in hand change places in the multiset
  | popOut b n cells =>
    refine ⟨fun v _ hv _ => ⟨⟨?_, id⟩, Multiset.pair_comm _ _⟩, by simp, by simp⟩
    simp_all [NoMarker, Ser.held]
  | row d =>
    simp only [serialize]
    split
    · split
      · exact fun _ _ => ⟨⟨h_none, id⟩, rfl⟩
      · exact fun _ _ => ⟨⟨h_none, id⟩, rfl⟩
    · split
      · exact fun _ _ => ⟨⟨h_none, id⟩, rfl⟩
      · -- with no row in it the output buffer is forgotten: `bad`
        have h_forget := h_bad (.forget d.bufferId d.serializedBufferId) (h_skip id) trivial
        exact fun _ h_not => absurd h_forget h_not
  | flushPop d =>
    refine ⟨fun v _ hv _ => ⟨⟨?_, id⟩, Multiset.pair_comm _ _⟩, by simp, by simp⟩
    simp_all [NoMarker, Ser.held]
  | flushPush d =>
    refine ⟨by omega, h_none _ (by simp [Ser.held]), fun _ => ⟨⟨?_, id⟩, Multiset.pair_comm _ _⟩⟩
    simp_all [NoMarker, Ser.held]
  | restPush d =>
    refine ⟨by omega, h_none _ (by simp [Ser.held]), fun _ => ⟨⟨?_, id⟩, Multiset.pair_comm _ _⟩⟩
    simp_all [NoMarker, Ser.held]
  | pqPopOut b n =>
    refine ⟨fun v _ hv _ => ⟨⟨?_, id⟩, Multiset.pair_comm _ _⟩, by simp, by simp⟩
    simp_all [NoMarker, Ser.held]
  -- the file of the input is opened, or the thread throws with both buffers in hand
  | pqOpen b n o =>
    intro m
    dsimp only
    split <;> exact fun _ => ⟨⟨h_none, id⟩, rfl⟩
  | pqRow d =>
    simp only [serialize]
    split
    · intro m
      simp only [PqSerVars.emitRow]
      split <;> exact fun _ => ⟨⟨h_none, id⟩, rfl⟩
    · split
      · exact fun _ _ => ⟨⟨h_none, id⟩, rfl⟩
      · have h_forget := h_bad (.forget d.bufferId d.writeBuff) (h_skip id) trivial
        exact fun _ h_not => absurd h_forget h_not
  | pqFlushPush d =>
    refine ⟨by omega, h_none _ (by simp [Ser.held]), fun _ => ⟨⟨?_, id⟩, Multiset.pair_comm _ _⟩⟩
    simp_all [NoMarker, Ser.held]
  | pqFlushPop d =>
    refine ⟨fun v _ hv _ => ⟨⟨?_, id⟩, Multiset.pair_comm _ _⟩, by simp, by simp⟩
    simp_all [NoMarker, Ser.held]
  | pqRestPush d =>
    refine ⟨by omega, h_none _ (by simp [Ser.held]), fun _ => ⟨⟨?_, id⟩, Multiset.pair_comm _ _⟩⟩
    simp_all [NoMarker, Ser.held]
  | forget b o => exact absurd trivial h_keeps
  | assign d => exact fun _ _ => ⟨⟨h_none, id⟩, rfl⟩
  | emit d => exact fun _ _ => ⟨⟨h_none, id⟩, rfl⟩
  | thrown b o => exact fun _ _ => ⟨⟨h_none, id⟩, rfl⟩
  | done => trivial
  | skipPush b =>
    refine ⟨by omega, h_none _ (by simp [Ser.held]), fun _ => ⟨⟨?_, id⟩, rfl⟩⟩
    simp [NoMarker, Ser.held]
  | freeIn b =>
    refine ⟨by omega, h_none _ (by simp [Ser.held]), fun _ => ⟨⟨?_, id⟩, rfl⟩⟩
    simp [NoMarker, Ser.held]

/-! ### Careful programs -/

theorem receive_careful (thr : ℕ) (l : Receive) :
    Careful (σ := σ) Receive.held l (receive ext thr l) := by
  cases l with
  | start => simp only [receive]; split <;> trivial
  | readSocket ps b =>
    cases ps <;> simp +contextual [receive, Careful, Receive.held, Memory.write_pool]
  | _ => simp [receive, Careful]

theorem decompress_careful (l : Decomp) :
    Careful (σ := σ) Decomp.held l (decompress env ext l) := by
  cases l with
  | inspect e b => simp +contextual [decompress, Careful, Decomp.held]
  | decompress e b o =>
    refine ⟨by simp [Decomp.held], fun m x hx => ?_, fun m m' h_world h_pool => ?_⟩
    · have hx' : x ≠ o := by rintro rfl; simp at hx
      dsimp only
      split <;> split <;> exact m.write_pool_of_ne hx' _
    · have h_in : m.pool b = m'.pool b := h_pool _ (by simp)
      have h_out : m.pool o = m'.pool o := h_pool _ (by simp)
      simp only [h_in, h_out]
      split <;> split <;> simp_all [Memory.write_pool]
  | _ => simp [decompress, Careful]

theorem write_careful (thr : ℕ) (l : Write) : Careful Write.held l (write ext thr l) := by
  cases l <;> simp +contextual [write, Careful, Write.held]

end Programs

/-! ### The client's custody -/

variable (env : RuntimeEnv) (ext : External)

/-- A serialization thread forgets its output buffer. -/
def leaks : (t : Tid 4 (parallelism env)) → Local t.1 → Prop
  | ⟨2, _⟩, l => env.skipSerializer = false ∧ Ser.Forgets l
  | ⟨0, _⟩, _ => False
  | ⟨1, _⟩, _ => False
  | ⟨3, _⟩, _ => False

instance (t : Tid 4 (parallelism env)) (l : Local t.1) : Decidable (leaks env t l) :=
  match t, l with
  | ⟨2, _⟩, l => @instDecidableAnd _ _ _ (Ser.decForgets l)
  | ⟨0, _⟩, _ => instDecidableFalse
  | ⟨1, _⟩, _ => instDecidableFalse
  | ⟨3, _⟩, _ => instDecidableFalse

/-- What holds of the program points of all threads. -/
def Sound : (t : Tid 4 (parallelism env)) → Local t.1 → Prop
  | ⟨0, _⟩, l => NoMarker Receive.held l
  | ⟨1, _⟩, l => NoMarker Decomp.held l
  | ⟨2, _⟩, l => Ser.Kept l ∧ (env.skipSerializer → Ser.Forwards l)
  | ⟨3, _⟩, l => NoMarker Write.held l

/-- The client's programs are honest as long as no serialization thread forgets a buffer. -/
def custody (bad : (t : Tid 4 (parallelism env)) → Local t.1 → Prop)
    (h_bad : ∀ t l, leaks env t l → bad t l) : Custody (machine env ext) bad where
  held := held
  wf := Sound env
  honest := by
    rintro ⟨k, i⟩ l h_wf
    match k, i, l, h_wf with
    | 0, i, l, h_wf => exact receive_honest ext i (bad ⟨0, i⟩) l h_wf
    | 1, i, l, h_wf => exact decompress_honest env ext (bad ⟨1, i⟩) l h_wf
    | 2, i, l, h_wf =>
      exact (serialize_honest env ext (bad ⟨2, i⟩) (fun l' h_skip h => h_bad ⟨2, i⟩ l' ⟨h_skip, h⟩) l
        h_wf.1 h_wf.2).and (serialize_leads env ext l h_wf.2)
    | 3, i, l, h_wf => exact write_honest ext i (bad ⟨3, i⟩) l h_wf

/-- The pool as a multiset of ids. -/
def pool : Multiset ℤ := (poolIds env : Multiset ℤ)

theorem pool_nodup : (pool env).Nodup := nodup_firstIds _

variable {env ext} in
/-- Every thread starts with empty hands, and the free list holds the whole pool. -/
theorem kept_initial {bad : (t : Tid 4 (parallelism env)) → Local t.1 → Prop}
    {h_bad : ∀ t l, leaks env t l → bad t l} :
    (custody env ext bad h_bad).Kept (pool env) (initial env ext) := by
  have h_free : marker ∉ poolIds env := marker_notMem_firstIds _
  have h_held : ∀ t : Tid 4 (parallelism env), held t.1 (startPoint ext t.1) = 0 := by
    rintro ⟨k, i⟩
    match k with
    | 0 => rfl
    | 1 => rfl
    | 2 => rfl
    | 3 => rfl
  have h_sound : ∀ t : Tid 4 (parallelism env), Sound env t (startPoint ext t.1) := by
    intro t
    have h_none : NoMarker (held t.1) (startPoint ext t.1) := by simp [NoMarker, h_held]
    obtain ⟨k, i⟩ := t
    match k, i, h_none with
    | 0, _, h_none => exact h_none
    | 1, _, h_none => exact h_none
    | 2, _, h_none => exact ⟨⟨h_none, id⟩, fun _ => trivial⟩
    | 3, _, h_none => exact h_none
  have h_kept := (custody env ext bad h_bad).kept_initial (s := initial env ext) h_sound h_held
    h_free
  have h_total : ∑ q ∈ Finset.range 4, ids (initialQueue env q) = pool env := by
    simp [Finset.sum_range_succ, initialQueue, ids_of_notMem h_free, pool]
  rwa [← h_total]

end Xdbc.Client
