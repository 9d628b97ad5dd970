import Xdbc.Client.Balance
import Xdbc.Client.Handout
import Xdbc.Pipeline.Termination

/-!
# The clients complete

What a program does for one item is bounded, so every step can be paid for: a packet pays for the
steps of the receive thread, for the buffer it pushes and with this for what is done with it later.
For the serializer that depends on the number of rows. The headers are bounded because the server
sends finitely many packets, the rows of a Parquet file because a buffer has room for finitely many
files.

So no run is longer than some bound, and a run that cannot go on has not locked up: it has ended
(`tester_completes`, `client_completes`).
-/

namespace Xdbc.Client

open Bytes Pipeline

/-! ### Receiving and decompressing -/

section Prices

variable {σ : Type}

/-- The memories in which the first two stages can work on packets that are `good`. -/
structure Closed (env : RuntimeEnv) (fit : Memory Buffer σ → Prop) (good : Packet → Prop) :
    Prop where
  receive : ∀ m b p, fit m → good p →
    fit (m.write b ⟨p.header, put (m.pool b).payload 0 (p.body.take p.header.totalSize)⟩)
  reject : ∀ m o payload, fit m → payload.length = (m.pool o).payload.length →
    fit (m.write o { m.pool o with payload := payload })
  decompress : ∀ m b o payload, fit m → payload.length = (m.pool o).payload.length →
    fit (m.write o ⟨newHeader (m.pool b).header, payload⟩)

variable (env : RuntimeEnv) (ext : External)

/-- The price of a decompression thread, where `w` is that of a decompressed buffer. -/
def Decomp.price (w : ℕ) : Decomp → ℕ
  | .popIn _ => 1
  | .inspect _ _ => w + 6
  | .popOut _ _ => w + 5
  | .decompress _ _ _ => w + 4
  | .pushOut _ _ _ => w + 3
  | .forward _ _ => w + 2
  | .errorIn _ _ _ => 3
  | .errorOut _ _ => 2
  | .freeIn _ _ => 2
  | .done => 0

/-- The price of a receive thread. -/
def Receive.price (w thr : ℕ) : Receive → ℕ
  | .start => (w + 9) * (ext.received thr).length + 2
  | .popFree ps => (w + 9) * ps.length + 2
  | .readSocket ps _ => (w + 9) * ps.length + 1
  | .push ps _ => (w + 9) * (ps.length + 1)
  | .done _ => 0

/-- The packets a receive thread still gets are good. -/
def Receive.Good (good : Packet → Prop) : Receive → Prop
  | .popFree ps => ∀ p ∈ ps, good p
  | .readSocket ps _ => ∀ p ∈ ps, good p
  | .push ps _ => ∀ p ∈ ps, good p
  | _ => True

variable {env ext} {fit : Memory Buffer σ → Prop} {good : Packet → Prop} {queues w : ℕ}
  {weight : ℕ → ℤ → ℕ}

theorem receive_descends (h_closed : Closed env fit good) (h_queues : 2 ≤ queues)
    (h_free : ∀ v, weight 0 v = 0) (h_weight : ∀ v, weight 1 v = w + 6) {thr : ℕ}
    (h_good : ∀ p ∈ ext.received thr, good p) (bad : Receive → Prop) (l : Receive)
    (h : l.Good good) :
    Descends queues weight fit (Receive.Good good) bad (Receive.price ext w thr) l
      (receive ext thr l) := by
  cases l with
  | start =>
    simp only [receive]
    split
    · exact ⟨by omega, fun v _ => ⟨h_good, by simp only [Receive.price, h_free]; omega⟩⟩
    · trivial
  | popFree ps => exact ⟨by omega, fun v _ => ⟨h, by simp only [Receive.price, h_free]; omega⟩⟩
  | readSocket ps b =>
    cases ps with
    | nil => exact fun m h_fit _ => ⟨h_fit, trivial, Nat.succ_pos _⟩
    | cons p ps =>
      intro m h_fit _
      obtain ⟨h_first, h_rest⟩ := List.forall_mem_cons.mp h
      refine ⟨h_closed.receive m b p h_fit h_first, ?_⟩
      dsimp only
      -- a packet cut off ends the loop, one that is whole is pushed
      split
      · exact ⟨trivial, Nat.succ_pos _⟩
      · exact ⟨h_rest, Nat.lt_succ_self _⟩
  | push ps b =>
    refine ⟨by omega, fun _ => ⟨h, ?_⟩⟩
    simp only [Receive.price, h_weight, Nat.mul_succ]
    omega
  | done b => trivial

theorem decompress_descends (h_closed : Closed env fit good) (h_queues : 3 ≤ queues)
    (h_free : ∀ v, weight 0 v = 0) (h_weight : ∀ v, weight 1 v = w + 6)
    (h_next : ∀ v, weight 2 v = w) (bad : Decomp → Prop) (l : Decomp) :
    Descends queues weight fit (fun _ => True) bad (Decomp.price w) l (decompress env ext l) := by
  cases l with
  | popIn e =>
    refine ⟨by omega, fun v _ => ⟨trivial, ?_⟩⟩
    rw [h_weight]
    dsimp only
    split <;> simp only [Decomp.price] <;> omega
  | inspect e b =>
    refine fun m h_fit _ => ⟨h_fit, trivial, ?_⟩
    dsimp only
    split <;> simp only [Decomp.price] <;> omega
  | decompress e b o =>
    intro m h_fit _
    -- whatever the decoder returns, the output buffer keeps its size
    have h_result : ∀ r : ℤ × List UInt8, r.2.length = (m.pool o).payload.length →
        ∀ x : Memory Buffer σ × Decomp,
          x = (if r.1 = 1 then (m.write o { m.pool o with payload := r.2 }, .errorIn r.1 b o)
            else (m.write o ⟨newHeader (m.pool b).header, r.2⟩, .pushOut r.1 b o)) →
          fit x.1 ∧ True ∧ x.2.price w < w + 4 := by
      rintro r h_length x rfl
      split
      · exact ⟨h_closed.reject m o _ h_fit h_length, trivial, by simp only [Decomp.price]; omega⟩
      · exact ⟨h_closed.decompress m b o _ h_fit h_length, trivial, Nat.lt_succ_self _⟩
    refine h_result _ ?_ _ rfl
    split
    · rfl
    · exact length_decompressWith
  | popOut e b =>
    exact ⟨by omega, fun v _ => ⟨trivial, by simp only [Decomp.price, h_free]; omega⟩⟩
  | forward e b =>
    exact ⟨by omega, fun _ => ⟨trivial, by simp only [Decomp.price, h_next]; omega⟩⟩
  | pushOut e b o =>
    exact ⟨by omega, fun _ => ⟨trivial, by simp only [Decomp.price, h_next]; omega⟩⟩
  | errorIn e b o =>
    exact ⟨by omega, fun _ => ⟨trivial, by simp only [Decomp.price, h_free]; omega⟩⟩
  | errorOut e o =>
    exact ⟨by omega, fun _ => ⟨trivial, by simp only [Decomp.price, h_free]; omega⟩⟩
  | freeIn e b =>
    exact ⟨by omega, fun _ => ⟨trivial, by simp only [Decomp.price, h_free]; omega⟩⟩
  | done => trivial

end Prices

/-! ### The test client -/

/-- The price of a thread of the tester. -/
def Test.price : Test → ℕ
  | .popped _ => 5
  | .markBufferAsRead _ => 4
  | .marked => 3
  | .hasNext => 2
  | .getBuffer => 1
  | .broke => 0
  | .noNext => 0

/-- The price of an item in a queue of the test client. -/
def testWeight : ℕ → ℤ → ℕ
  | 1, _ => 11
  | 2, _ => 5
  | _, _ => 0

theorem test_descends (env : RuntimeEnv) (thr : ℕ) (bad : Test → Prop) (l : Test) :
    Descends 3 testWeight (fun _ => True) (fun _ => True) bad Test.price l (test env thr l) := by
  cases l with
  | hasNext =>
    refine fun m _ _ => ⟨trivial, trivial, ?_⟩
    dsimp only
    split <;> decide
  | getBuffer => exact ⟨by decide, fun v _ => ⟨trivial, Nat.lt_succ_self 5⟩⟩
  | popped b =>
    refine fun m _ _ => ⟨trivial, trivial, ?_⟩
    dsimp only
    split
    · exact Nat.lt_succ_self 4
    · exact Nat.succ_pos 4
  | markBufferAsRead b => exact ⟨by decide, fun _ => ⟨trivial, Nat.lt_succ_self 3⟩⟩
  | marked => exact fun m _ _ => ⟨trivial, trivial, Nat.lt_succ_self 2⟩
  | broke => trivial
  | noNext => trivial

section Tester

variable (env : RuntimeEnv) (ext : External)

/-- The price of a thread of the test client. -/
def testPrice : (t : Tid 3 (testParallelism env)) → TestLocal t.1 → ℕ
  | ⟨0, i⟩ => Receive.price ext 5 i
  | ⟨1, _⟩ => Decomp.price 5
  | ⟨2, _⟩ => Test.price

/-- What holds of a thread of the test client. -/
def TestGood : (t : Tid 3 (testParallelism env)) → TestLocal t.1 → Prop
  | ⟨0, _⟩ => Receive.Good fun _ => True
  | ⟨1, _⟩ => fun _ => True
  | ⟨2, _⟩ => fun _ => True

/-- The prices of the test client. -/
def testPotential : Potential (testMachine env ext) never where
  queues := 3
  weight := testWeight
  carry := testPrice env ext
  ok := TestGood env
  fit _ := True
  descends := by
    have h_closed : Closed (σ := Shared) env (fun _ => True) fun _ => True :=
      ⟨fun _ _ _ _ _ => trivial, fun _ _ _ _ _ => trivial, fun _ _ _ _ _ _ => trivial⟩
    rintro ⟨k, i⟩ l h_ok
    match k, i, l, h_ok with
    | 0, i, l, h_ok =>
      exact receive_descends h_closed (Nat.le_succ 2) (fun _ => rfl) (fun _ => rfl)
        (fun _ _ => trivial) _ l h_ok
    | 1, i, l, _ =>
      exact decompress_descends h_closed le_rfl (fun _ => rfl) (fun _ => rfl) (fun _ => rfl) _ l
    | 2, i, l, _ => exact test_descends env i _ l

/-- The most steps the test client takes. -/
def testBound : ℕ := (testPotential env ext).total (testInitial env ext)

variable {env ext}

theorem holds_testInitial : (testPotential env ext).Holds (testInitial env ext) where
  ok t := by
    obtain ⟨k, i⟩ := t
    match k, i with
    | 0, _ => trivial
    | 1, _ => trivial
    | 2, _ => trivial
  fit := trivial

/-- **The test client completes.** No run is longer than `testBound`, and a run that cannot go on
has ended: all threads have exited, and what the server sends has been handed out. -/
theorem tester_completes (h_options : Options env) (h_pool : PoolChecked env)
    (h_connected : Connected env ext) (h_markers : MarkersFit env) (h_receives : Receives env ext)
    {k : ℕ} {s : State (testMachine env ext)}
    (h_run : Run (testMachine env ext) never (testInitial env ext) k s) :
    k ≤ testBound env ext ∧
      (Halted s → (∀ t, (s.thread t).Exited) ∧ handedOut env s.mem.world = sent env ext) := by
  refine ⟨(Nat.le_add_right _ _).trans (holds_testInitial.run h_run).2, fun h_halted => ?_⟩
  have h_dead := not_deadlock_tester h_options h_pool h_connected h_markers h_run.reachable
  have h_exited := exited_of_halted h_halted h_dead
  exact ⟨h_exited, handedOut_eq h_options h_connected h_receives h_run.reachable
    fun i => h_exited ⟨2, i⟩⟩

end Tester

/-- The small test client comes to an end. -/
theorem tester_completes_testEnv :
    ∃ k s, Run (testMachine testEnv (zstdStream 2)) never (testInitial testEnv (zstdStream 2)) k s ∧
      k ≤ testBound testEnv (zstdStream 2) ∧ Halted s ∧
      handedOut testEnv s.mem.world = sent testEnv (zstdStream 2) := by
  obtain ⟨s, h_reach, -, h_exited⟩ := exists_testRun
  obtain ⟨k, h_run⟩ := h_reach.run
  obtain ⟨h_bound, h_end⟩ := tester_completes options_testEnv (by rw [PoolChecked]; decide)
    (fun _ _ => rfl) ⟨by decide, by decide⟩ (receives_testEnv 2) h_run
  have h_halted := halted_of_exited h_exited
  exact ⟨k, s, h_run, h_bound, h_halted, (h_end h_halted).2⟩

/-! ### The client -/

/-- A number that no header and no Parquet file exceeds. -/
structure Limits (env : RuntimeEnv) (ext : External) (N : ℕ) : Prop where
  tuples : ∀ i < env.rcvParallelism, ∀ p ∈ ext.received i, p.header.totalTuples ≤ N
  rows : ∀ bs, bs.length ≤ env.payloadSize → ∀ rows, ext.parquetRows bs = some rows →
    rows.length ≤ N

/-- There is one: finitely many packets arrive, and a buffer has room for finitely many files. -/
theorem exists_limits (env : RuntimeEnv) (ext : External) : ∃ N, Limits env ext N := by
  obtain ⟨R, hR⟩ := exists_bound (fun bs => ((ext.parquetRows bs).getD []).length) env.payloadSize
  let tuples : ℕ → ℕ := fun i => ((ext.received i).map fun p => p.header.totalTuples).sum
  refine ⟨∑ i ∈ Finset.range env.rcvParallelism, tuples i + R, fun i hi p hp => ?_,
    fun bs h_length rows h_rows => ?_⟩
  · have h_mem : p.header.totalTuples ≤ tuples i :=
      List.single_le_sum (fun _ _ => Nat.zero_le _) _ (List.mem_map_of_mem hp)
    have h_sum : tuples i ≤ ∑ i ∈ Finset.range env.rcvParallelism, tuples i :=
      Finset.single_le_sum (f := tuples) (fun _ _ => Nat.zero_le _) (Finset.mem_range.mpr hi)
    omega
  · have h_le := hR bs h_length
    rw [h_rows, Option.getD_some] at h_le
    omega

section Client

variable (env : RuntimeEnv) (ext : External) (N : ℕ)

/-- The headers are within the limit, and the payloads have the size the schema asks for. -/
def Within {σ : Type} (m : Memory Buffer σ) : Prop :=
  ∀ b, (m.pool b).header.totalTuples ≤ N ∧ Full env (m.pool b)

variable {env N} in
theorem within_write {σ : Type} {m : Memory Buffer σ} (h : Within env N m) (o : ℤ) {x : Buffer}
    (h_tuples : x.header.totalTuples ≤ N) (h_full : Full env x) : Within env N (m.write o x) := by
  intro b
  rw [Memory.write_pool]
  split
  · exact ⟨h_tuples, h_full⟩
  · exact h b

theorem closed_within {σ : Type} :
    Closed env (Within (σ := σ) env N) fun p => p.header.totalTuples ≤ N where
  receive _ b _ h h_good := within_write h b h_good ((length_put _ _ _).trans (h b).2)
  reject _ o _ h h_length := within_write h o (h o).1 (h_length.trans (h o).2)
  decompress _ b o _ h h_length := within_write h o (h b).1 (h_length.trans (h o).2)

/-- The price of a serialization thread. A row may need a new buffer. -/
def Ser.price : Ser → ℕ
  | .popIn => 1
  | .skipPush _ => 5
  | .inspect _ => 8 * N + 10
  | .popOut _ n _ => 8 * n + 8
  | .row d => 8 * (d.totalTuples - d.i) + 7
  | .flushPush d => 8 * (d.totalTuples - d.i) + 6
  | .flushPop d => 8 * (d.totalTuples - d.i) + 2
  | .assign d => 8 * (d.totalTuples - d.i) + 1
  | .emit d => 8 * (d.totalTuples - d.i)
  | .restPush _ => 6
  | .pqPopOut _ _ => 6 * N + 9
  | .pqOpen _ _ _ => 6 * N + 8
  | .pqRow d => 6 * d.rows.length + 7
  | .pqFlushPush d => 6 * d.rows.length + 12
  | .pqFlushPop d => 6 * d.rows.length + 8
  | .pqRestPush _ => 6
  | .forget _ _ => 2
  | .freeIn _ => 2
  | .done => 0
  | .thrown _ _ => 0

/-- The price of a write thread. -/
def Write.price : Write → ℕ
  | .write _ => 3
  | .start => 2
  | .free _ => 2
  | .popIn => 1
  | .done => 0
  | .thrown => 0

/-- The price of an item in a queue of the client. -/
def clientWeight : ℕ → ℤ → ℕ
  | 1, _ => 8 * N + 16
  | 2, _ => 8 * N + 10
  | 3, _ => 3
  | _, _ => 0

/-- There is a row behind the one for which a new buffer is needed, and the rows that are counted
are among those of the file. -/
def Ser.Good : Ser → Prop
  | .flushPush d => d.i < d.totalTuples
  | .flushPop d => d.i < d.totalTuples
  | .assign d => d.i < d.totalTuples
  | .emit d => d.i < d.totalTuples
  | .pqRow d => d.numRows + d.rows.length ≤ N
  | .pqFlushPush d => d.numRows + d.rows.length ≤ N
  | .pqFlushPop d => d.numRows + d.rows.length ≤ N
  | _ => True

/-- An exception has ended the thread. -/
def Write.Thrown : Write → Prop
  | .thrown => True
  | _ => False

variable {env ext N}

theorem SerVars.within_emitRow {σ : Type} (d : SerVars) {m : Memory Buffer σ}
    (h : Within env N m) : Within env N (d.emitRow env ext m).1 :=
  within_write h _ (h _).1 ((length_put _ _ _).trans (h _).2)

/-- What is left to do for a buffer that is inspected. -/
theorem inspectHeader_price {b : ℤ} {x : Buffer} (h_tuples : x.header.totalTuples ≤ N)
    (h_not : ¬ (inspectHeader env ext b x).Thrown) :
    (inspectHeader env ext b x).Good N ∧ (inspectHeader env ext b x).price N < 8 * N + 10 := by
  have h_popOut : ∀ cells, (Ser.popOut b x.header.totalTuples cells).Good N ∧
      (Ser.popOut b x.header.totalTuples cells).price N < 8 * N + 10 :=
    fun _ => ⟨trivial, by simp only [Ser.price]; omega⟩
  revert h_not
  unfold inspectHeader
  dsimp only
  split
  · split
    · split
      · exact fun h_not => absurd trivial h_not
      · exact fun _ => h_popOut _
    · exact fun _ => h_popOut _
  · split
    · exact fun _ => ⟨trivial, by simp only [Ser.price]; omega⟩
    · exact fun _ => ⟨trivial, by simp only [Ser.price]; omega⟩

/-- The row that is written is paid for, and the next one is among those that are left. -/
theorem PqSerVars.emitRow_price {σ : Type} (d : PqSerVars) (row : List (List UInt8))
    {m : Memory Buffer σ} (h_fit : Within env N m) (h_rows : d.numRows + d.rows.length + 1 ≤ N) :
    Within env N (d.emitRow env ext row m).1 ∧ (d.emitRow env ext row m).2.Good N ∧
      (d.emitRow env ext row m).2.price N < 6 * (d.rows.length + 1) + 7 := by
  have h_row : Within env N (m.write d.writeBuff { m.pool d.writeBuff with
      payload := put (m.pool d.writeBuff).payload d.totalSerializedBytes
        (serializeParquetRow ext env.schema row) }) :=
    within_write h_fit _ (h_fit _).1 ((length_put _ _ _).trans (h_fit _).2)
  have h_count : d.numRows + 1 + d.rows.length ≤ N := by omega
  unfold emitRow
  dsimp only
  split
  · refine ⟨?_, h_count, by simp only [Ser.price]; omega⟩
    exact within_write h_row _ (show d.numRows + 1 ≤ N by omega) (h_row _).2
  · exact ⟨h_row, h_count, by simp only [Ser.price]; omega⟩

theorem serialize_descends {σ : Type} (h_limits : Limits env ext N) (bad : Ser → Prop)
    (h_bad : ∀ l, Ser.Thrown l → bad l) (l : Ser) (h : l.Good N) :
    Descends (σ := σ) 4 (clientWeight N) (Within env N) (Ser.Good N) bad (Ser.price N) l
      (serialize env ext l) := by
  cases l with
  -- a marker ends the thread, a buffer is worth more than what it costs to serialize it
  | popIn =>
    refine ⟨by decide, fun v _ => ?_⟩
    dsimp only
    split
    · exact ⟨trivial, Nat.succ_pos _⟩
    · split
      · exact ⟨trivial, by simp only [Ser.price, clientWeight]; omega⟩
      · exact ⟨trivial, by simp only [Ser.price, clientWeight]; omega⟩
  | skipPush b =>
    exact ⟨by decide, fun _ => ⟨trivial, by simp only [Ser.price, clientWeight]; omega⟩⟩
  | inspect b =>
    intro m h_fit h_not
    exact ⟨h_fit, inspectHeader_price (h_fit b).1 fun h_thrown => h_not (h_bad _ h_thrown)⟩
  | popOut b n cells =>
    exact ⟨by decide, fun v _ => ⟨trivial, by simp only [Ser.price, clientWeight]; omega⟩⟩
  | row d =>
    simp only [serialize]
    split
    · next h_lt =>
      -- the row does not fit: the full buffer is pushed before it is written
      split
      · intro m h_fit _
        refine ⟨within_write h_fit _ (Nat.zero_le N) (h_fit _).2, h_lt, ?_⟩
        simp only [Ser.price]
        omega
      · intro m h_fit _
        refine ⟨d.within_emitRow h_fit, trivial, ?_⟩
        simp only [Ser.price, SerVars.emitRow]
        omega
    · split
      · -- the rest is pushed if there is any, the input given back at once otherwise
        intro m h_fit _
        refine ⟨within_write h_fit _ (Nat.zero_le N) (h_fit _).2, trivial, ?_⟩
        simp only [Ser.price]
        omega
      · exact fun m h_fit _ => ⟨h_fit, trivial, by simp only [Ser.price]; omega⟩
  | flushPush d =>
    exact ⟨by decide, fun _ => ⟨h, by simp only [Ser.price, clientWeight]; omega⟩⟩
  | flushPop d =>
    exact ⟨by decide, fun v _ => ⟨h, by simp only [Ser.price, clientWeight]; omega⟩⟩
  | assign d =>
    intro m h_fit _
    refine ⟨within_write h_fit _ (h_fit _).1 (h_fit _).2, h, ?_⟩
    simp only [Ser.price]
    omega
  | emit d =>
    -- the row that made the flush necessary
    have h_lt : d.i < d.totalTuples := h
    intro m h_fit _
    refine ⟨d.within_emitRow h_fit, trivial, ?_⟩
    simp only [Ser.price, SerVars.emitRow]
    omega
  | restPush d =>
    exact ⟨by decide, fun _ => ⟨trivial, by simp only [Ser.price, clientWeight]; omega⟩⟩
  | pqPopOut b n =>
    exact ⟨by decide, fun v _ => ⟨trivial, by simp only [Ser.price, clientWeight]; omega⟩⟩
  -- the reader of the file either throws or gives at most `N` rows
  | pqOpen b n o =>
    intro m h_fit h_not
    have h_length : ((m.pool b).payload.take n).length ≤ env.payloadSize := by
      rw [← (h_fit b).2]
      exact List.length_take_le' _ _
    have h_rows := h_limits.rows _ h_length
    revert h_not
    dsimp only
    split
    · exact fun h_not => absurd (h_bad (.thrown b (some o)) trivial) h_not
    · next rows h_some =>
      have h_le := h_rows rows h_some
      intro _
      refine ⟨h_fit, ?_, by simp only [Ser.price]; omega⟩
      change 0 + rows.length ≤ N
      omega
  | pqRow d =>
    have h_count : d.numRows + d.rows.length ≤ N := h
    simp only [serialize]
    -- the next row of the file is written, or flushes the buffer first
    split
    · next row rows h_rows =>
      rw [h_rows, List.length_cons] at h_count
      intro m h_fit _
      simp only [Ser.price, h_rows, List.length_cons]
      exact PqSerVars.emitRow_price { d with rows := rows } row h_fit h_count
    · next h_nil =>
      -- no row is left
      split
      · intro m h_fit _
        refine ⟨within_write h_fit _ (show d.numRows ≤ N by omega) (h_fit _).2, trivial, ?_⟩
        simp only [Ser.price]
        omega
      · exact fun m h_fit _ => ⟨h_fit, trivial, by simp only [Ser.price]; omega⟩
  | pqFlushPush d =>
    exact ⟨by decide, fun _ => ⟨h, by simp only [Ser.price, clientWeight]; omega⟩⟩
  -- the rows of the buffer start anew, those of the file do not
  | pqFlushPop d =>
    have h_count : d.numRows + d.rows.length ≤ N := h
    refine ⟨by decide, fun v _ => ⟨?_, by simp only [Ser.price, clientWeight]; omega⟩⟩
    change 0 + d.rows.length ≤ N
    omega
  | pqRestPush d =>
    exact ⟨by decide, fun _ => ⟨trivial, by simp only [Ser.price, clientWeight]; omega⟩⟩
  | forget b o =>
    exact ⟨by decide, fun _ => ⟨trivial, by simp only [Ser.price, clientWeight]; omega⟩⟩
  | freeIn b =>
    exact ⟨by decide, fun _ => ⟨trivial, by simp only [Ser.price, clientWeight]; omega⟩⟩
  | done => trivial
  | thrown b o => exact fun m _ h_not => absurd (h_bad (.thrown b o) trivial) h_not

theorem write_descends {fit : Memory Buffer Files → Prop}
    (h_world : ∀ m w, fit m → fit { m with world := w }) (thr : ℕ) (bad : Write → Prop)
    (h_bad : ∀ l, Write.Thrown l → bad l) (l : Write) :
    Descends 4 (clientWeight N) fit (fun _ => True) bad Write.price l (write ext thr l) := by
  cases l with
  | start =>
    intro m h_fit h_not
    revert h_not
    dsimp only
    -- a file that does not open ends the thread with an exception
    split
    · exact fun _ => ⟨h_fit, trivial, Nat.lt_succ_self 1⟩
    · exact fun h_not => absurd (h_bad .thrown trivial) h_not
  | popIn =>
    refine ⟨by decide, fun v _ => ⟨trivial, ?_⟩⟩
    dsimp only
    split
    · exact Nat.succ_pos _
    · exact Nat.lt_succ_self 3
  | write b => exact fun m h_fit _ => ⟨h_world m _ h_fit, trivial, Nat.lt_succ_self 2⟩
  | free b => exact ⟨by decide, fun _ => ⟨trivial, Nat.lt_succ_self 1⟩⟩
  | done => trivial
  | thrown => exact fun m _ h_not => absurd (h_bad .thrown trivial) h_not

variable (env ext N)

/-- The price of a thread of the client. -/
def clientPrice : (t : Tid 4 (parallelism env)) → Local t.1 → ℕ
  | ⟨0, i⟩ => Receive.price ext (8 * N + 10) i
  | ⟨1, _⟩ => Decomp.price (8 * N + 10)
  | ⟨2, _⟩ => Ser.price N
  | ⟨3, _⟩ => Write.price

/-- What holds of a thread of the client. -/
def ClientGood : (t : Tid 4 (parallelism env)) → Local t.1 → Prop
  | ⟨0, _⟩ => Receive.Good fun p => p.header.totalTuples ≤ N
  | ⟨1, _⟩ => fun _ => True
  | ⟨2, _⟩ => Ser.Good N
  | ⟨3, _⟩ => fun _ => True

/-- A thread that has forgotten a buffer, or that an exception has ended. -/
def fails : (t : Tid 4 (parallelism env)) → Local t.1 → Prop
  | ⟨2, i⟩ => fun l => leaks env ⟨2, i⟩ l ∨ Ser.Thrown l
  | ⟨3, _⟩ => Write.Thrown
  | _ => fun _ => False

variable {env ext N}

theorem fails_of_leaks (t : Tid 4 (parallelism env)) (l : Local t.1) (h : leaks env t l) :
    fails env t l := by
  obtain ⟨k, i⟩ := t
  match k, i, l, h with
  | 0, _, _, h => exact h.elim
  | 1, _, _, h => exact h.elim
  | 2, _, _, h => exact .inl h
  | 3, _, _, h => exact h.elim

/-- The prices of the client. -/
def clientPotential (h_limits : Limits env ext N) : Potential (machine env ext) (fails env) where
  queues := 4
  weight := clientWeight N
  carry := clientPrice env ext N
  ok := ClientGood env N
  fit := Within env N
  descends := by
    rintro ⟨k, i⟩ l h_ok
    match k, i, l, h_ok with
    | 0, i, l, h_ok =>
      exact receive_descends (closed_within env N) (by decide) (fun _ => rfl) (fun _ => rfl)
        (h_limits.tuples i i.2) _ l h_ok
    | 1, i, l, _ =>
      exact decompress_descends (closed_within env N) (by decide) (fun _ => rfl) (fun _ => rfl)
        (fun _ => rfl) _ l
    | 2, i, l, h_ok => exact serialize_descends h_limits _ (fun _ h => .inr h) l h_ok
    | 3, i, l, _ => exact write_descends (fun _ _ h => h) i _ (fun _ h => h) l

theorem holds_initial (h_limits : Limits env ext N) :
    (clientPotential h_limits).Holds (initial env ext) where
  ok t := by
    obtain ⟨k, i⟩ := t
    match k, i with
    | 0, _ => trivial
    | 1, _ => trivial
    | 2, _ => trivial
    | 3, _ => trivial
  fit b := ⟨Nat.zero_le N, List.length_replicate⟩

/-- The client does not lock up in runs in which no thread fails. -/
theorem not_deadlock_client (h_staff : Staffed env) (h_pool : PoolChecked env)
    (h_connected : Connected env ext) (h_room : Roomy env) {s : State (machine env ext)}
    (h_run : Reachable (machine env ext) (fails env) (initial env ext) s) :
    ¬ Deadlock (machine env ext) s := by
  obtain ⟨h_kept, h_handed⟩ := (signals h_connected _ fails_of_leaks).handed h_run kept_initial
    (handed_initial h_staff h_connected)
  have h_fits : Pipeline.Fits (initial env ext) := by
    intro q h_cap
    match q with
    | 0 => exact absurd rfl h_cap
    | _ + 1 => exact Nat.zero_le _
  refine not_deadlock (signals_clean h_connected) h_kept h_handed (h_fits.of_reachable h_run)
    (fun t l q f hrun hop hq => ?_) (ample h_staff h_pool h_connected h_room)
  have h_shared := takesShared env ext t l
  rw [hop] at h_shared
  exact absurd h_shared (not_lt.mpr hq)

/-- **The client completes.** There is a bound on the number of steps of every run in which no
thread forgets a buffer or is ended by an exception, and such a run that cannot go on has ended: all
threads have exited. -/
theorem client_completes (h_staff : Staffed env) (h_pool : PoolChecked env)
    (h_connected : Connected env ext) (h_room : Roomy env) :
    ∃ most, ∀ k s, Run (machine env ext) (fails env) (initial env ext) k s →
      k ≤ most ∧ (Halted s → ∀ t, (s.thread t).Exited) := by
  obtain ⟨N, h_limits⟩ := exists_limits env ext
  refine ⟨(clientPotential h_limits).total (initial env ext), fun k s h_run => ⟨?_, ?_⟩⟩
  · exact (Nat.le_add_right _ _).trans ((holds_initial h_limits).run h_run).2
  · intro h_halted
    exact exited_of_halted h_halted
      (not_deadlock_client h_staff h_pool h_connected h_room h_run.reachable)

end Client

instance Ser.decThrown (l : Ser) : Decidable l.Thrown := by
  unfold Ser.Thrown
  split <;> infer_instance

instance Write.decThrown (l : Write) : Decidable l.Thrown := by
  unfold Write.Thrown
  split <;> infer_instance

instance decFails (env : RuntimeEnv) (t : Tid 4 (parallelism env)) (l : Local t.1) :
    Decidable (fails env t l) :=
  match t, l with
  | ⟨0, _⟩, _ => instDecidableFalse
  | ⟨1, _⟩, _ => instDecidableFalse
  | ⟨2, i⟩, l => @instDecidableOr _ _ (instDecidableLeaks env ⟨2, i⟩ l) (Ser.decThrown l)
  | ⟨3, _⟩, l => Write.decThrown l

/-- A run of the small client in which no thread fails comes to an end. -/
theorem client_completes_smallEnv :
    ∃ most, (∀ k s, Run (machine smallEnv (zstdStream 1)) (fails smallEnv)
        (initial smallEnv (zstdStream 1)) k s → k ≤ most) ∧
      ∃ k s, Run (machine smallEnv (zstdStream 1)) (fails smallEnv)
        (initial smallEnv (zstdStream 1)) k s ∧ Halted s := by
  obtain ⟨most, h_most⟩ := @client_completes smallEnv (zstdStream 1)
    ⟨by decide, by decide, by decide, by decide⟩ (by rw [PoolChecked]; decide) (fun _ _ => rfl)
    ⟨by decide, by decide, by decide, by decide⟩
  obtain ⟨s, h_reach, h_exited⟩ := @exists_reachable smallEnv (zstdStream 1) (fails smallEnv)
    (decFails smallEnv) (initial smallEnv (zstdStream 1)) smallRun
    (fun s => ∀ t, (s.thread t).Exited) _ (by decide +kernel)
  obtain ⟨k, h_run⟩ := h_reach.run
  exact ⟨most, fun k s h => (h_most k s h).1, k, s, h_run, halted_of_exited h_exited⟩

end Xdbc.Client
