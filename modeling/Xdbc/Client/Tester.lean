import Xdbc.Client.Markers
import Xdbc.Client.Progress
import Xdbc.Pipeline.Prefix

/-!
# The test client

`Tester` takes the decompressed buffers itself: in the place of the serialization and write threads
it starts `write_parallelism` threads that call `XClient::hasNext`, `XClient::getBuffer` and
`XClient::markBufferAsRead` in a loop. This is a pipeline of three stages, the first two of which
are those of the client.

`hasNext` compares `_emptyDecompThreadCtr`, the number of end markers that have been handed out,
with `write_parallelism`. In the test client it never says no: a thread that is handed a marker
leaves its loop, so the counter is the number of threads that have left (`InOrder.counted`), and
the thread that asks has not (`InOrder.hasNext`). With this the general results apply: every buffer
is in one place (`inOrder`), and the test client does not lock up (`not_deadlock_tester`).
-/

namespace Xdbc.Client

open Bytes Pipeline

/-! ### The threads of the tester -/

/-- `buffWithId`: what `getBuffer` returns. In place of the pointer it has the payload. -/
structure BuffWithId where
  id : ℤ
  iformat : ℕ
  totalTuples : ℕ
  totalSize : ℕ
  buff : List UInt8
  deriving DecidableEq

/-- What the threads share. -/
structure Shared where
  /-- `_emptyDecompThreadCtr`. -/
  emptyDecompThreadCtr : ℕ
  /-- `_markedFreeCounter`. -/
  markedFreeCounter : ℕ
  /-- The buffers that calls of `getBuffer` have returned, by the number of the thread. -/
  returned : ℕ → List BuffWithId

/-- A call of `getBuffer` returns `x` to thread `thr`. -/
def Shared.hand (w : Shared) (thr : ℕ) (x : BuffWithId) : Shared :=
  { w with returned := Function.update w.returned thr (w.returned thr ++ [x]) }

/-- A call of `getBuffer` returns for an end marker. -/
def Shared.count (w : Shared) : Shared :=
  { w with emptyDecompThreadCtr := w.emptyDecompThreadCtr + 1 }

/-- The program points of `Tester::analyticsThread` and `Tester::storageThread`. -/
inductive Test where
  | hasNext
  | getBuffer
  /-- The id is popped. -/
  | popped (buffId : ℤ)
  | markBufferAsRead (buffId : ℤ)
  /-- The buffer is returned to the free list. -/
  | marked
  /-- `break`: the buffer is not valid. -/
  | broke
  /-- `hasNext` has returned `false`. -/
  | noNext
  deriving DecidableEq

/-- What `getBuffer` returns for a buffer. -/
def curBuf (env : RuntimeEnv) (buffId : ℤ) (b : Buffer) : BuffWithId :=
  ⟨buffId, env.iformat, b.header.totalTuples, b.header.totalSize, b.payload⟩

/-- `Tester::analyticsThread` and `Tester::storageThread`: while `hasNext`, get a buffer, read it
and mark it as read, or leave the loop if it is not valid. -/
def test (env : RuntimeEnv) (thr : ℕ) : Test → Op Test Buffer Shared
  | .hasNext => .work [] fun m =>
    (m, if m.world.emptyDecompThreadCtr = env.writeParallelism then .noNext else .getBuffer)
  | .getBuffer => .pop 2 .popped
  | .popped b => .work (if b ≥ 0 then [b] else []) fun m =>
    if b ≥ 0 then
      ({ m with world := m.world.hand thr (curBuf env b (m.pool b)) }, .markBufferAsRead b)
    else ({ m with world := if b = marker then m.world.count else m.world }, .broke)
  | .markBufferAsRead b => .push 0 b .marked
  | .marked => .work [] fun m =>
    ({ m with world := { m.world with markedFreeCounter := m.world.markedFreeCounter + 1 } },
      .hasNext)
  | .broke => .quit
  | .noNext => .quit

/-! ### The test client -/

/-- The test client has three stages, which are numbered by the literals of `Fin 3`. -/
instance neZeroTestStages : NeZero 3 := ⟨three_ne_zero⟩

/-- The program points of the threads of each stage. -/
def TestLocal : Fin 3 → Type
  | 0 => Receive
  | 1 => Decomp
  | 2 => Test

variable (env : RuntimeEnv) (ext : External)

/-- The number of threads of each stage. `handleCMDParams` sets `ser_parallelism`, the number of end
markers, to `write_parallelism`, the number of threads (`Options.legacy`). -/
def testParallelism : ℕ → ℕ
  | 0 => env.rcvParallelism
  | 1 => env.decompParallelism
  | 2 => env.serParallelism
  | _ => 0

/-- The options of the test client. -/
structure Options : Prop where
  rcv : 1 ≤ env.rcvParallelism
  decomp : 1 ≤ env.decompParallelism
  write : 1 ≤ env.writeParallelism
  legacy : env.serParallelism = env.writeParallelism

/-- The threads of the test client. -/
def testMachine : Machine 3 TestLocal Buffer Shared where
  par := testParallelism env
  cap := capacity env
  prog
    | ⟨0, i⟩ => receive ext i
    | ⟨1, _⟩ => decompress env ext
    | ⟨2, i⟩ => test env i

/-- Where the threads of each stage start. -/
def testStart : (k : Fin 3) → TestLocal k
  | 0 => Receive.start
  | 1 => Decomp.popIn ext.staleError
  | 2 => Test.hasNext

/-- The state in which the threads start. -/
def testInitial : State (testMachine env ext) where
  queue := initialQueue env
  finished _ := 0
  mem := ⟨fun _ => emptyBuffer env, ⟨0, 0, fun _ => []⟩⟩
  thread t := .running (testStart ext t.1)
  log := []

/-! ### What the programs keep -/

/-- The buffers the live local variables name. -/
def Test.held : Test → Multiset ℤ
  | .popped b => if b = marker then 0 else {b}
  | .markBufferAsRead b => {b}
  | _ => 0

/-- The buffers a program point names. -/
def testHeld : (k : Fin 3) → TestLocal k → Multiset ℤ
  | 0 => Receive.held
  | 1 => Decomp.held
  | 2 => Test.held

/-- The thread has taken an end marker. -/
def Test.ended : Test → Bool
  | .popped b => decide (b = marker)
  | .broke => true
  | _ => false

/-- The program point is behind the end marker. -/
def testEnded : (k : Fin 3) → TestLocal k → Bool
  | 0 => fun _ => false
  | 1 => Decomp.ended
  | 2 => Test.ended

/-- The program points that are not reached: what is popped is a buffer or the end marker, and
`hasNext` does not say no. -/
def Test.Astray : Test → Prop
  | .popped b => b < marker
  | .noNext => True
  | _ => False

/-- A thread of the tester is astray. -/
def astray : (t : Tid 3 (testParallelism env)) → TestLocal t.1 → Prop
  | ⟨0, _⟩, _ => False
  | ⟨1, _⟩, _ => False
  | ⟨2, _⟩, l => Test.Astray l

/-- No buffer in hand is the end marker, and the thread is not astray. -/
def Test.Sound (l : Test) : Prop := NoMarker Test.held l ∧ ¬ l.Astray

/-- What holds of the program points of all threads. -/
def TestSound : (t : Tid 3 (testParallelism env)) → TestLocal t.1 → Prop
  | ⟨0, _⟩, l => NoMarker Receive.held l
  | ⟨1, _⟩, l => NoMarker Decomp.held l
  | ⟨2, _⟩, l => Test.Sound l

section Programs

variable {σ : Type} (thr : ℕ)

theorem receive_within (l : Receive) : (receive (σ := σ) ext thr l).Within 3 := by
  cases l with
  | start =>
    simp only [receive]
    split
    · simp [Op.Within]
    · trivial
  | readSocket ps b => cases ps <;> trivial
  | _ => simp [receive, Op.Within]

theorem decompress_within (l : Decomp) : (decompress (σ := σ) env ext l).Within 3 := by
  cases l <;> simp [decompress, Op.Within]

/-- An id that is not astray and not negative is a buffer, a negative one is the end marker. -/
theorem Test.Sound.popped_cases {b : ℤ} (h : (Test.popped b).Sound) :
    b ≥ 0 ∧ b ≠ marker ∨ ¬ b ≥ 0 ∧ b = marker := by
  have h_ge : ¬ b < -1 := h.2
  rcases le_or_gt 0 b with h_pos | h_neg
  · exact .inl ⟨h_pos, fun h_eq => absurd (h_eq ▸ h_pos) (by decide)⟩
  · refine .inr ⟨by omega, ?_⟩
    change b = -1
    omega

theorem test_honest (l : Test) (h : l.Sound) :
    Honest 3 Test.held Test.Sound Test.Astray l (test env thr l) := by
  cases l with
  | hasNext =>
    intro m h_not
    dsimp only at h_not ⊢
    -- `hasNext` says no only after a marker, where the call is astray
    split at h_not
    · exact absurd trivial h_not
    · next h_some =>
      rw [if_neg h_some]
      exact ⟨⟨by simp [NoMarker, Test.held], id⟩, rfl⟩
  | getBuffer =>
    refine ⟨fun v _ hv h_not => ⟨⟨?_, h_not⟩, ?_⟩, fun _ _ h_not => ⟨⟨?_, h_not⟩, rfl⟩,
      fun v h_ge => absurd h_ge (by decide)⟩
    · simp [NoMarker, Test.held, hv]
    · simp [Test.held, hv]
    · simp [NoMarker, Test.held]
  | popped b =>
    intro m _
    dsimp only
    -- a buffer is in hand, or the marker, which `getBuffer` has counted
    obtain ⟨h_pos, hb⟩ | ⟨h_neg, hb⟩ := h.popped_cases
    · rw [if_pos h_pos]
      exact ⟨⟨by simp [NoMarker, Test.held, hb], id⟩, by simp [Test.held, hb]⟩
    · rw [if_neg h_neg, if_pos hb]
      exact ⟨⟨by simp [NoMarker, Test.held], id⟩, by simp [Test.held, hb]⟩
  | markBufferAsRead b =>
    have hb : b ≠ marker := h.1 b (by simp [Test.held])
    exact ⟨by decide, hb, fun _ => ⟨⟨by simp [NoMarker, Test.held], id⟩, rfl⟩⟩
  | marked => exact fun m _ => ⟨⟨by simp [NoMarker, Test.held], id⟩, rfl⟩
  | broke => trivial
  | noNext => trivial

theorem test_orderly (l : Test) (h : l.Sound) :
    Orderly 3 2 Test.ended Test.Astray l (test env thr l) := by
  cases l with
  | hasNext =>
    intro m h_not
    dsimp only at h_not ⊢
    split at h_not
    · exact absurd trivial h_not
    · next h_some =>
      rw [if_neg h_some]
      rfl
  | getBuffer =>
    refine ⟨fun _ => .inr ⟨rfl, rfl⟩, fun v _ => ?_⟩
    by_cases hv : v = marker <;> simp [Test.ended, hv]
  | popped b =>
    intro m _
    dsimp only
    obtain ⟨h_pos, hb⟩ | ⟨h_neg, hb⟩ := h.popped_cases
    · rw [if_pos h_pos]
      simp [Test.ended, hb]
    · rw [if_neg h_neg, if_pos hb]
      simp [Test.ended, hb]
  | markBufferAsRead b => exact ⟨.inl rfl, fun _ => rfl⟩
  | marked => exact fun m _ => rfl
  | broke => rfl
  | noNext => rfl

theorem test_careful (l : Test) : Careful Test.held l (test env thr l) := by
  cases l with
  | hasNext =>
    refine ⟨by simp, fun _ _ _ => rfl, fun m m' h_world _ => ⟨?_, h_world, by simp⟩⟩
    dsimp only
    rw [h_world]
  | popped b =>
    by_cases h_pos : b ≥ 0
    · -- a buffer, not the marker: the tester may look into it
      have hb : b ≠ marker := fun h => absurd (h ▸ h_pos) (by decide)
      simp only [test, if_pos h_pos]
      refine ⟨by simp [Test.held, hb], fun _ _ _ => rfl, fun m m' h_world h_pool =>
        ⟨rfl, ?_, h_pool⟩⟩
      dsimp only
      rw [h_world, h_pool b (by simp)]
    · simp only [test, if_neg h_pos]
      refine ⟨by simp, fun m _ _ => ?_, fun m m' h_world h_pool => ?_⟩
      · split <;> rfl
      · split
        · exact ⟨rfl, by dsimp only; rw [h_world], by simp⟩
        · exact ⟨rfl, h_world, by simp⟩
  | marked =>
    refine ⟨by simp, fun _ _ _ => rfl, fun m m' h_world _ => ⟨rfl, ?_, by simp⟩⟩
    dsimp only
    rw [h_world]
  | _ => trivial

theorem test_bounded (l : Test) : Bounded 3 l.held.card 1 0 False (test env thr l) := by
  cases l <;> simp [test, Bounded, Test.held]

end Programs

/-! ### The obligations of the pipeline library -/

/-- The programs of the test client are honest as long as no thread is astray. -/
def testCustody : Custody (testMachine env ext) (astray env) where
  held := testHeld
  wf := TestSound env
  honest := by
    rintro ⟨k, i⟩ l h_wf
    match k, i, l, h_wf with
    | 0, i, l, h_wf =>
      exact (receive_honest ext i (astray env ⟨0, i⟩) l h_wf).within (receive_within ext i l)
        (Nat.le_succ 3)
    | 1, i, l, h_wf =>
      exact (decompress_honest env ext (astray env ⟨1, i⟩) l h_wf).within
        (decompress_within env ext l) (Nat.le_succ 3)
    | 2, i, l, h_wf => exact test_honest env i l h_wf

theorem decompress_ne_quit {σ : Type} (l : Decomp) : decompress (σ := σ) env ext l ≠ .quit := by
  cases l <;> exact fun h => by cases h

variable {env ext}

/-- The test client's programs keep the order of the end markers. -/
def testSignals (h_connected : Connected env ext) : Signals (testCustody env ext) where
  ended := testEnded
  orderly := by
    rintro ⟨k, i⟩ l h_wf
    match k, i, l, h_wf with
    | 0, i, l, _ =>
      exact (receive_orderly ext i (h_connected i i.2) (astray env ⟨0, i⟩) l).within
        (receive_within ext i l) (Nat.le_succ 3) (by decide)
        (receive_ne_quit (h_connected i i.2))
    | 1, i, l, _ =>
      exact (decompress_orderly env ext (astray env ⟨1, i⟩) l).within
        (decompress_within env ext l) (Nat.le_succ 3) (by decide) (decompress_ne_quit env ext l)
    | 2, i, l, h_wf => exact test_orderly env i l h_wf

/-- No thread returns early. -/
theorem testSignals_clean (h_connected : Connected env ext) :
    (testSignals h_connected).Clean := by
  rintro ⟨k, i⟩ l h_wf h_quit h_pos
  have h_orderly := (testSignals h_connected).orderly ⟨k, i⟩ l h_wf
  rw [h_quit] at h_orderly
  obtain rfl : k = 2 := Fin.ext (by simpa using show (k : ℕ) + 1 = 3 from h_orderly)
  obtain ⟨-, h_sound⟩ := h_wf
  change test env i l = .quit at h_quit
  cases l with
  | broke => rfl
  | noNext => exact absurd trivial h_sound
  | _ => cases h_quit

theorem Options.pos (h : Options env) (k : ℕ) (hk : k < 3) : 0 < testParallelism env k := by
  match k, hk with
  | 0, _ => exact h.rcv
  | 1, _ => exact h.decomp
  | 2, _ => exact h.write.trans_eq h.legacy.symm

/-- Every thread starts with empty hands, and the free list holds the whole pool. -/
theorem kept_testInitial : (testCustody env ext).Kept (pool env) (testInitial env ext) := by
  have h_free : marker ∉ poolIds env := marker_notMem_firstIds _
  have h_none : ∀ t : Tid 3 (testParallelism env), testHeld t.1 (testStart ext t.1) = 0 := by
    rintro ⟨k, i⟩
    match k, i with
    | 0, _ => rfl
    | 1, _ => rfl
    | 2, _ => rfl
  have h_sound : ∀ t : Tid 3 (testParallelism env), TestSound env t (testStart ext t.1) := by
    rintro ⟨k, i⟩
    match k, i with
    | 0, _ => exact fun b hb => absurd hb (Multiset.notMem_zero b)
    | 1, _ => exact fun b hb => absurd hb (Multiset.notMem_zero b)
    | 2, _ => exact ⟨fun b hb => absurd hb (Multiset.notMem_zero b), id⟩
  have h_kept := (testCustody env ext).kept_initial (s := testInitial env ext) h_sound h_none h_free
  have h_total : ∑ q ∈ Finset.range 3, ids (initialQueue env q) = pool env := by
    simp [Finset.sum_range_succ, initialQueue, ids_of_notMem h_free, pool]
  rwa [← h_total]

/-- When the threads start, every hand-off is in order. -/
theorem handed_testInitial (h_options : Options env) (h_connected : Connected env ext) :
    (testSignals h_connected).Handed (testInitial env ext) := by
  refine (testSignals h_connected).handed_initial (fun k hk => h_options.pos k (by omega))
    (fun t => ⟨_, rfl, ?_⟩) (fun k hk => ?_) fun _ => rfl
  · obtain ⟨k, i⟩ := t
    match k with
    | 0 => rfl
    | 1 => rfl
    | 2 => rfl
  · change marker ∉ initialQueue env (k + 1)
    exact List.not_mem_nil

/-! ### `hasNext` -/

section HasNext

variable {s s' : State (testMachine env ext)} {t : Tid 3 (testParallelism env)}

/-- The thread has left its loop. -/
def Test.left : Test → Bool
  | .broke => true
  | _ => false

/-- A property of the threads of the tester as one of all threads. -/
def ofTest (p : Test → Bool) : (k : Fin 3) → TestLocal k → Bool
  | 2 => p
  | 0 => fun _ => false
  | 1 => fun _ => false

/-- The number of threads of the tester that have left their loops. -/
def left (s : State (testMachine env ext)) : ℕ :=
  stageSum 2 (fun j th => th.counts (ofTest Test.left j)) s.thread

/-- What holds in every state of the test client. -/
structure InOrder (h_connected : Connected env ext) (s : State (testMachine env ext)) : Prop where
  kept : (testCustody env ext).Kept (pool env) s
  handed : (testSignals h_connected).Handed s
  /-- The end markers that have been handed out are the threads that have left. -/
  counted : s.mem.world.emptyDecompThreadCtr = left s

variable {h_connected : Connected env ext}

/-- `hasNext` says yes to every thread that asks. -/
theorem InOrder.hasNext (h : InOrder h_connected s)
    (h_legacy : env.serParallelism = env.writeParallelism)
    {i : Fin env.serParallelism} (h_asks : (s.thread ⟨2, i⟩).loc = Test.hasNext) :
    s.mem.world.emptyDecompThreadCtr < env.writeParallelism := by
  rw [h.counted, ← h_legacy]
  -- the thread that asks has not left
  refine stageSum_lt (t := ⟨2, i⟩) rfl ?_ fun j th => th.counts_le_one _
  change (if Test.left (s.thread ⟨2, i⟩).loc = true then 1 else 0) = 0
  rw [h_asks]
  rfl

/-- The threads before the tester do not touch what its threads share. -/
def Upstream {L₀ : Type} : Op L₀ Buffer Shared → Prop
  | .work _ f => ∀ m, (f m).1.world = m.world
  | _ => True

theorem receive_upstream (thr : ℕ) (l : Receive) : Upstream (receive ext thr l) := by
  cases l with
  | start => simp only [receive]; split <;> trivial
  | readSocket ps b => cases ps <;> exact fun _ => rfl
  | _ => trivial

theorem decompress_upstream (l : Decomp) : Upstream (decompress env ext l) := by
  cases l with
  | inspect e b => exact fun _ => rfl
  | decompress e b o =>
    intro m
    dsimp only
    split <;> split <;> rfl
  | _ => trivial

theorem Upstream.world_eq (hstep : Step (testMachine env ext) s t s')
    (h : ∀ l, Upstream ((testMachine env ext).prog t l)) : s'.mem.world = s.mem.world := by
  cases hstep with
  | @work l bs f hrun hop =>
    have h_work := h l
    rw [hop] at h_work
    exact h_work s.mem
  | _ => rfl

/-- A thread that goes astray has popped an id that is none, or `hasNext` has said no. Neither
happens. -/
theorem InOrder.not_astray (h : InOrder h_connected s)
    (h_legacy : env.serParallelism = env.writeParallelism)
    (hstep : Step (testMachine env ext) s t s') : ¬ astray env t (s'.thread t).loc := by
  obtain ⟨k, i⟩ := t
  match k, i with
  | 0, _ => exact id
  | 1, _ => exact id
  | 2, i =>
    intro h_astray
    obtain ⟨-, h_sound⟩ := h.kept.wf ⟨2, i⟩
    obtain ⟨l, hrun, h_enters⟩ := hstep.enters h_sound h_astray
    have h_loc : (s.thread ⟨2, i⟩).loc = l := congrArg Thread.loc hrun
    cases l with
    | hasNext =>
      have h_lt := h.hasNext h_legacy h_loc
      rcases h_enters with ⟨q, f, v, rest, hop, -⟩ | ⟨q, v, l', hop, -⟩ | ⟨bs, f, hop, h_after⟩
      · cases hop
      · cases hop
      · cases hop
        dsimp only at h_after
        rw [if_neg h_lt.ne] at h_after
        exact h_after
    | getBuffer =>
      rcases h_enters with ⟨q, f, v, rest, hop, hq, -, h_after⟩ | ⟨q, v, l', hop, -⟩ |
        ⟨bs, f, hop, -⟩
      · cases hop
        -- the ids in the queue are those of the pool
        have h_lt : v < -1 := h_after
        have h_mem : v ∈ ids (s.queue 2) :=
          mem_ids.mpr ⟨by rw [hq]; exact List.mem_cons_self, h_lt.ne⟩
        have h_pool := Multiset.mem_of_le (h.kept.ids_le (by decide : 2 < 3)) h_mem
        have h_pos := (mem_firstIds.mp (Multiset.mem_coe.mp h_pool)).1
        omega
      · cases hop
      · cases hop
    | _ =>
      rcases h_enters with ⟨q, f, v, rest, hop, -, -, h_after⟩ | ⟨q, v, l', hop, h_after⟩ |
        ⟨bs, f, hop, h_after⟩ <;> cases hop
      all_goals first | exact h_after | (dsimp only at h_after; split at h_after <;> exact h_after)

/-- `1` for a thread that has left. -/
private def one (l : Test) : ℕ := if l.left then 1 else 0

/-- A thread of the tester is counted in the step in which it leaves. -/
theorem InOrder.counts (h : InOrder h_connected s) {i : Fin env.serParallelism}
    (hstep : Step (testMachine env ext) s ⟨2, i⟩ s') :
    s'.mem.world.emptyDecompThreadCtr + one (s.thread ⟨2, i⟩).loc
      = s.mem.world.emptyDecompThreadCtr + one (s'.thread ⟨2, i⟩).loc := by
  have h_sound : Test.Sound (s.thread ⟨2, i⟩).loc := h.kept.wf ⟨2, i⟩
  have h_stopped := h.handed.stopped ⟨2, i⟩
  -- a thread of the tester does not report
  have h_ne : ∀ l, test env i l ≠ .leave := fun l => by cases l <;> exact fun h => by cases h
  have h_new : ∀ (th : Thread Test),
      (Function.update s.thread ⟨2, i⟩ th ⟨2, i⟩).loc = th.loc := fun th =>
    congrArg Thread.loc (Function.update_self _ _ _)
  have h_keep : ∀ {l l' : Test}, (s.thread ⟨2, i⟩).loc = l → (s'.thread ⟨2, i⟩).loc = l' →
      one l = one l' → s'.mem.world.emptyDecompThreadCtr = s.mem.world.emptyDecompThreadCtr →
      s'.mem.world.emptyDecompThreadCtr + one (s.thread ⟨2, i⟩).loc
        = s.mem.world.emptyDecompThreadCtr + one (s'.thread ⟨2, i⟩).loc := by
    rintro l l' rfl rfl h_one h_ctr
    rw [h_one, h_ctr]
  rcases h_th : s.thread ⟨2, i⟩ with l | l | ⟨l, m⟩ | l | l
  · have h_loc : (s.thread ⟨2, i⟩).loc = l := congrArg Thread.loc h_th
    rw [← h_th]
    cases l with
    | hasNext =>
      obtain rfl := hstep.of_work h_th rfl
      refine h_keep h_loc (h_new _) ?_ rfl
      dsimp only [Thread.loc]
      split <;> rfl
    | getBuffer =>
      obtain ⟨v, rest, -, rfl⟩ := hstep.of_pop h_th rfl
      exact h_keep h_loc (h_new _) rfl rfl
    | popped b =>
      obtain rfl := hstep.of_work h_th rfl
      rw [h_loc] at h_sound
      obtain ⟨h_pos, hb⟩ | ⟨h_neg, hb⟩ := h_sound.popped_cases
      · refine h_keep h_loc (h_new _) ?_ ?_ <;> simp only [Thread.loc, if_pos h_pos] <;> rfl
      · rw [h_loc]
        simp only [if_neg h_neg, if_pos hb]
        exact congrArg (_ + ·) (congrArg one (h_new (.running .broke)).symm)
    | markBufferAsRead b =>
      obtain rfl := hstep.of_push h_th rfl
      exact h_keep h_loc (h_new _) rfl rfl
    | marked =>
      obtain rfl := hstep.of_work h_th rfl
      exact h_keep h_loc (h_new _) rfl rfl
    | broke =>
      obtain rfl := hstep.of_quit h_th rfl
      exact h_keep h_loc (h_new _) rfl rfl
    | noNext =>
      obtain rfl := hstep.of_quit h_th rfl
      exact h_keep h_loc (h_new _) rfl rfl
  · rw [h_th] at h_stopped
    exact absurd h_stopped (h_ne l)
  · rw [h_th] at h_stopped
    exact absurd h_stopped (h_ne l)
  · rw [h_th] at h_stopped
    exact absurd h_stopped (h_ne l)
  · have h_exec := exec_eq_some_iff.mpr hstep
    simp [exec, h_th] at h_exec

/-- **Step lemma.** -/
theorem InOrder.step (h : InOrder h_connected s)
    (h_legacy : env.serParallelism = env.writeParallelism)
    (hstep : Step (testMachine env ext) s t s') : InOrder h_connected s' where
  kept := h.kept.step _ hstep (h.not_astray h_legacy hstep)
  handed := h.handed.step _ h.kept hstep (h.not_astray h_legacy hstep)
  counted := by
    have h_counted := h.counted
    -- a tester thread counts the marker it has been handed, the others do not touch the counter
    by_cases ht : (t.1 : ℕ) = 2
    · obtain ⟨k, i⟩ := t
      obtain rfl : k = 2 := Fin.ext ht
      have h_one := h.counts hstep
      have h_left := hstep.stageSum_eq (fun j th => th.counts (ofTest Test.left j)) ht
      change left s' + one (s.thread ⟨2, i⟩).loc = left s + one (s'.thread ⟨2, i⟩).loc at h_left
      omega
    · have h_left : left s' = left s := hstep.stageSum_of_ne _ ht
      have h_world := Upstream.world_eq hstep fun l => by
        obtain ⟨k, i⟩ := t
        match k, i, l, ht with
        | 0, i, l, _ => exact receive_upstream i l
        | 1, _, l, _ => exact decompress_upstream l
        | 2, _, _, ht => exact absurd rfl ht
      rw [h_world, h_left, h_counted]

/-- **Run lemma.** Every state of the test client is in order. -/
theorem inOrder (h_options : Options env) (h_connected : Connected env ext)
    (h : Reachable (testMachine env ext) never (testInitial env ext) s) :
    InOrder h_connected s := by
  have h_left : left (testInitial env ext) = 0 := by
    unfold left stageSum
    refine Finset.sum_eq_zero fun t _ => ?_
    obtain ⟨k, i⟩ := t
    match k, i with
    | 0, _ => rfl
    | 1, _ => rfl
    | 2, _ => rfl
  exact h.invariant (I := InOrder h_connected) ⟨kept_testInitial,
    handed_testInitial h_options h_connected, h_left.symm⟩ fun _ _ _ hI hstep _ =>
    hI.step h_options.legacy hstep

/-- No run needs to be told to avoid what does not happen. -/
theorem reachable_astray (h_options : Options env) (h_connected : Connected env ext)
    (h : Reachable (testMachine env ext) never (testInitial env ext) s) :
    Reachable (testMachine env ext) (astray env) (testInitial env ext) s := by
  induction h with
  | refl => exact .refl
  | tail h_run h_next ih =>
    obtain ⟨t, hstep, -⟩ := h_next
    have h_order := inOrder h_options h_connected h_run
    exact ih.tail ⟨t, hstep, h_order.not_astray h_options.legacy hstep⟩

/-- **`hasNext` says yes** to every thread that asks, in every state of every run: the counter is
the number of threads that have been handed an end marker, and they do not ask again. So no thread
leaves its loop on account of `hasNext`. -/
theorem hasNext_of_reachable (h_options : Options env) (h_connected : Connected env ext)
    (h_run : Reachable (testMachine env ext) never (testInitial env ext) s) :
    s.mem.world.emptyDecompThreadCtr = left s ∧
      ∀ i : Fin env.serParallelism,
        ((s.thread ⟨2, i⟩).loc = Test.hasNext →
          s.mem.world.emptyDecompThreadCtr < env.writeParallelism) ∧
        (s.thread ⟨2, i⟩).loc ≠ Test.noNext := by
  have h_order := inOrder h_options h_connected h_run
  refine ⟨h_order.counted, fun i => ⟨h_order.hasNext h_options.legacy, fun h_none => ?_⟩⟩
  obtain ⟨-, h_sound⟩ := h_order.kept.wf ⟨2, i⟩
  rw [h_none] at h_sound
  exact h_sound trivial

end HasNext

/-! ### The test client does not lock up -/

/-- The most buffers a thread holds while it waits for room in a queue. -/
def testFull : ℕ → ℕ
  | 1 => 2
  | _ => 1

/-- The most buffers a thread holds while it waits for an item, and when it has finished. -/
def testIdle : ℕ → ℕ
  | 0 => 1
  | 1 => 1
  | _ => 0

/-- The stages that take from the free list. -/
def testTakesFree : ℕ → Prop
  | 0 => True
  | 1 => True
  | _ => False

/-- How many buffers the test client's threads hold while they wait. -/
def testHands (h_connected : Connected env ext) : Hands (testCustody env ext) where
  full := testFull
  idle := testIdle
  takesFree := testTakesFree
  idle_le k := by
    match k with
    | 0 => exact le_rfl
    | 1 => exact Nat.le_succ 1
    | _ + 2 => exact Nat.zero_le _
  bounded := by
    rintro ⟨k, i⟩ l -
    match k, i, l with
    | 0, i, l => exact (receive_bounded ext i (h_connected i i.2) l).within (Nat.le_succ 3)
    | 1, i, l => exact (decompress_bounded env ext l).within (Nat.le_succ 3)
    | 2, i, l => exact test_bounded env i l

/-- The end markers nobody takes fit into the queues. -/
structure MarkersFit (env : RuntimeEnv) : Prop where
  decompMarkers : (env.rcvParallelism - 1) * env.decompParallelism ≤ capacity env 1
  testMarkers : (env.decompParallelism - 1) * env.serParallelism ≤ capacity env 2

/-- The pool has enough buffers for the test client. -/
theorem testAmple (h_options : Options env) (h_pool : PoolChecked env)
    (h_connected : Connected env ext) (h_markers : MarkersFit env) :
    Ample (testHands h_connected) (pool env).card := by
  obtain ⟨h_one, h_two, -⟩ := capacity_eq h_pool
  have h_workers : env.totalWorkers = env.rcvParallelism + env.decompParallelism
    + env.serParallelism + env.writeParallelism := rfl
  have h_rcv := h_options.rcv
  have h_decomp := h_options.decomp
  have h_write := h_options.write
  have h_legacy := h_options.legacy
  rw [PoolChecked, RuntimeEnv.availableBuffersForQueues] at h_pool
  have h_card : (pool env).card = env.buffersInBufferpool := by simp [pool, poolIds, firstIds]
  refine ⟨fun k hk => h_options.pos k hk, rfl, fun k h_pos hk => ?_, fun k hk => ?_,
    fun j hj h_takes => ?_⟩
  · change 0 < capacity env k
    obtain rfl | rfl : k = 1 ∨ k = 2 := by omega
    all_goals omega
  · obtain rfl | rfl : k = 0 ∨ k = 1 := by omega
    · exact h_markers.decompMarkers
    · exact h_markers.testMarkers
  · -- full stages before the one that waits, idle ones behind it: together less than the pool
    rw [h_card]
    change ∑ i ∈ Finset.range j, capacity env (i + 1) + ∑ i ∈ Finset.range 3,
      testParallelism env i * (if i < j then testFull i else testIdle i) < env.buffersInBufferpool
    obtain rfl | rfl | rfl : j = 0 ∨ j = 1 ∨ j = 2 := by omega
    · simp only [Finset.sum_range_succ, Finset.sum_range_zero, testParallelism, testIdle]
      simp
      omega
    · simp only [Finset.sum_range_succ, Finset.sum_range_zero, testParallelism, testIdle, testFull]
      simp
      omega
    · exact h_takes.elim

/-- The test client does not lock up in any run, with the capacities the constructor sets and room
for the end markers. -/
theorem not_deadlock_tester (h_options : Options env) (h_pool : PoolChecked env)
    (h_connected : Connected env ext) (h_markers : MarkersFit env)
    {s : State (testMachine env ext)}
    (h_run : Reachable (testMachine env ext) never (testInitial env ext) s) :
    ¬ Deadlock (testMachine env ext) s := by
  have h_fits : Pipeline.Fits (testInitial env ext) := by
    intro q h_cap
    match q with
    | 0 => exact absurd rfl h_cap
    | _ + 1 => exact Nat.zero_le _
  obtain ⟨h_kept, h_handed, -⟩ := inOrder h_options h_connected h_run
  refine not_deadlock (testSignals_clean h_connected) h_kept h_handed (h_fits.of_reachable h_run)
    (fun t l q f hrun hop hq => ?_) (testAmple h_options h_pool h_connected h_markers)
  -- nobody pops from a queue behind the last one
  have h_within : ((testMachine env ext).prog t l).Within 3 := by
    obtain ⟨k, i⟩ := t
    match k, i, l with
    | 0, i, l => exact receive_within ext i l
    | 1, _, l => exact decompress_within env ext l
    | 2, i, l =>
      change (test env i l).Within 3
      cases l <;> simp [test, Op.Within]
  rw [hop] at h_within
  exact absurd h_within (not_lt.mpr hq)

/-! ### A small test client -/

/-- Two threads in the tester, and one of everything else. -/
def testEnv : RuntimeEnv :=
  { smallEnv with buffersInBufferpool := 12, serParallelism := 2, writeParallelism := 2 }

theorem options_testEnv : Options testEnv := ⟨by decide, by decide, by decide, rfl⟩

/-- Thread `i` of stage `k`. -/
abbrev testWorker {env : RuntimeEnv} (k : Fin 3) (i : ℕ)
    (h : i < testParallelism env k := by decide) : Tid 3 (testParallelism env) := ⟨k, i, h⟩

/-- Two buffers arrive, one for each thread of the tester, and the end markers follow. -/
def testRun : List (Tid 3 (testParallelism testEnv)) :=
  let r : Tid 3 (testParallelism testEnv) := testWorker 0 0
  let d : Tid 3 (testParallelism testEnv) := testWorker 1 0
  let t := testWorker 2 0
  let t' := testWorker 2 1
  .replicate 3 r ++ .replicate 6 d ++ .replicate 2 t ++ .replicate 3 r ++ .replicate 6 d ++
    .replicate 5 t' ++ .replicate 3 t ++ .replicate 6 r ++ .replicate 4 d ++ .replicate 2 t ++
    .replicate 2 d ++ .replicate 2 t ++ .replicate 4 t'

/-- At the end of the run each thread has been handed a buffer, and all have exited. -/
theorem exists_testRun :
    ∃ s, Reachable (testMachine testEnv (zstdStream 2)) never
        (testInitial testEnv (zstdStream 2)) s ∧
      ((s.mem.world.returned 0).map BuffWithId.id = [1] ∧
        (s.mem.world.returned 1).map BuffWithId.id = [3]) ∧
      ∀ t, (s.thread t).Exited :=
  @exists_reachable_of_execAll _ _ _ _ (testMachine testEnv (zstdStream 2)) never
    (fun _ _ => instDecidableFalse) _ testRun
    (fun s => ((s.mem.world.returned 0).map BuffWithId.id = [1] ∧
        (s.mem.world.returned 1).map BuffWithId.id = [3]) ∧
      ∀ t, (s.thread t).Exited) _ (by decide +kernel)

/-- At the end of that run both end markers have been handed out. -/
theorem hasNext_testEnv :
    ∃ s, Reachable (testMachine testEnv (zstdStream 2)) never
        (testInitial testEnv (zstdStream 2)) s ∧
      s.mem.world.emptyDecompThreadCtr = left s ∧ (∀ t, (s.thread t).Exited) := by
  obtain ⟨s, h_run, -, h_exited⟩ := exists_testRun
  exact ⟨s, h_run, (hasNext_of_reachable options_testEnv (fun _ _ => rfl) h_run).1, h_exited⟩

end Xdbc.Client
