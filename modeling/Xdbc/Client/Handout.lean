import Xdbc.Client.Delivery
import Xdbc.Client.Tester

/-!
# What the test client hands out

The calls of `getBuffer` return what the server has sent, to whichever of the threads. The books of
the test client are about the tuples of a buffer: their format, their number and the bytes of the
payload the header announces (`Chunk`). A receive thread carries what its socket still delivers, so
the books are never debited, and their total is what the server sends from the beginning on.
-/

namespace Xdbc.Client

open Bytes Pipeline

/-- The tuples of a buffer. -/
structure Chunk where
  iformat : ℕ
  totalTuples : ℕ
  data : List UInt8
  deriving DecidableEq

/-- The tuples in a buffer as they are received. -/
def receivedChunk (env : RuntimeEnv) (ext : External) (b : Buffer) : Chunk :=
  ⟨env.iformat, b.header.totalTuples, contents ext b⟩

/-- The tuples in a decompressed buffer. -/
def decompressedChunk (env : RuntimeEnv) (b : Buffer) : Chunk :=
  ⟨env.iformat, b.header.totalTuples, b.data⟩

/-- The tuples in a buffer that `getBuffer` returns. -/
def BuffWithId.chunk (x : BuffWithId) : Chunk :=
  ⟨x.iformat, x.totalTuples, x.buff.take x.totalSize⟩

/-- The packets that arrive whole: behind the first one that does not, the connection has failed. -/
def wholePackets (ps : List Packet) : List Packet :=
  ps.takeWhile fun p => decide (p.header.totalSize ≤ p.body.length)

/-- The tuples of the packets that arrive whole. -/
def sentChunks (env : RuntimeEnv) (ext : External) (ps : List Packet) : Multiset Chunk :=
  ((wholePackets ps).map fun p => receivedChunk env ext ⟨p.header, p.body⟩ : List Chunk)

/-- The tuples the server sends. -/
def sent (env : RuntimeEnv) (ext : External) : Multiset Chunk :=
  ∑ i ∈ Finset.range env.rcvParallelism, sentChunks env ext (ext.received i)

section Chunks

variable {env : RuntimeEnv} {ext : External} {p : Packet} {ps : List Packet}

theorem sentChunks_of_short (h : p.body.length < p.header.totalSize) :
    sentChunks env ext (p :: ps) = 0 := by
  rw [sentChunks, wholePackets, List.takeWhile_cons_of_neg (by simpa using h)]
  rfl

theorem sentChunks_of_whole (h : p.header.totalSize ≤ p.body.length) :
    sentChunks env ext (p :: ps)
      = receivedChunk env ext ⟨p.header, p.body⟩ ::ₘ sentChunks env ext ps := by
  rw [sentChunks, wholePackets, List.takeWhile_cons_of_pos (by simpa using h)]
  rfl

/-- The server sends no other format. -/
theorem iformat_of_mem_sent {c : Chunk} (h : c ∈ sent env ext) : c.iformat = env.iformat := by
  obtain ⟨i, -, h_mem⟩ := Multiset.mem_sum.mp h
  obtain ⟨p, -, rfl⟩ := List.mem_map.mp (Multiset.mem_coe.mp h_mem)
  rfl

/-- The chunk of a buffer depends on its header and the bytes it announces. -/
theorem receivedChunk_congr {b b' : Buffer} (h_header : b'.header = b.header)
    (h_data : b'.data = b.data) : receivedChunk env ext b' = receivedChunk env ext b := by
  simp only [receivedChunk, contents, h_header, h_data]

/-- A buffer that is not compressed has the same tuples behind the decompression. -/
theorem decompressedChunk_of_forward {b : Buffer} (h : b.header.compressionType = 0) :
    decompressedChunk env b = receivedChunk env ext b := by
  rw [receivedChunk, contents, if_pos h]
  rfl

end Chunks

/-! ### The books -/

section Books

variable (env : RuntimeEnv) (ext : External)

/-- What a receive thread has still to push. -/
def Receive.chunks (thr : ℕ) (p : ℤ → Buffer) : Receive → Multiset Chunk
  | .start => sentChunks env ext (ext.received thr)
  | .popFree ps => sentChunks env ext ps
  | .readSocket ps _ => sentChunks env ext ps
  | .push ps b => receivedChunk env ext (p b) ::ₘ sentChunks env ext ps
  | .done _ => 0

/-- The tuples a decompression thread carries. -/
def Decomp.chunks (p : ℤ → Buffer) : Decomp → Multiset Chunk
  | .inspect _ b => {receivedChunk env ext (p b)}
  | .forward _ b => {receivedChunk env ext (p b)}
  | .popOut _ b => {receivedChunk env ext (p b)}
  | .decompress _ b _ => {receivedChunk env ext (p b)}
  | .pushOut _ _ o => {decompressedChunk env (p o)}
  | _ => 0

/-- The tuples in a call of `getBuffer` that has not returned. -/
def Test.chunks (p : ℤ → Buffer) : Test → Multiset Chunk
  | .popped b => if b = marker then 0 else {decompressedChunk env (p b)}
  | _ => 0

/-- The tuples a thread carries. -/
def chunks : (t : Tid 3 (testParallelism env)) → TestLocal t.1 → (ℤ → Buffer) → Multiset Chunk
  | ⟨0, i⟩, l, p => Receive.chunks env ext i p l
  | ⟨1, _⟩, l, p => Decomp.chunks env ext p l
  | ⟨2, _⟩, l, p => Test.chunks env p l

/-- The tuples of an item in a queue. -/
def queuedChunks (q : ℕ) (v : ℤ) (b : Buffer) : Multiset Chunk :=
  if v = marker then 0
  else match q with
    | 1 => {receivedChunk env ext b}
    | 2 => {decompressedChunk env b}
    | _ => 0

/-- The tuples that calls of `getBuffer` have returned. -/
def handedOut (w : Shared) : Multiset Chunk :=
  ∑ i ∈ Finset.range env.serParallelism,
    ((w.returned i).map BuffWithId.chunk : List Chunk)

/-- What holds of a thread and its buffers. -/
def TestOk : (t : Tid 3 (testParallelism env)) → TestLocal t.1 → (ℤ → Buffer) → Prop
  | ⟨0, _⟩, l, p => Receive.Ok env ext p l
  | ⟨1, _⟩, l, p => Decomp.Ok env ext p l
  | ⟨2, _⟩, _, _ => True

/-- The tuples of the test client, in all places. -/
def chunkBooks : Books (testMachine env ext) (Multiset Chunk) where
  queues := 3
  weight := queuedChunks env ext
  valid q _ b := q = 1 → Decodes env ext b
  carry := chunks env ext
  ok := TestOk env ext
  out := handedOut env
  debit _ := 0
  credit _ := 0
  fine _ := True
  fit := Full env

variable {env ext}

/-- A receive thread pushes what its socket delivers. -/
theorem receive_moves (h_connected : Connected env ext) (h_receives : Receives env ext)
    (i : Fin env.rcvParallelism) (l : Receive) (h_none : NoMarker Receive.held l) :
    (chunkBooks env ext).Posts (astray env) ⟨0, i⟩ l (receive ext i l) := by
  cases l with
  | start =>
    simp only [receive, h_connected i i.2, if_true]
    refine ⟨by simp [chunkBooks], fun v p _ _ _ _ _ => ⟨h_receives i i.2, ?_⟩⟩
    simp [chunkBooks, chunks, Receive.chunks, queuedChunks]
  | popFree ps =>
    refine ⟨by simp [chunkBooks], fun v p _ h_ok _ _ _ => ⟨h_ok, ?_⟩⟩
    simp [chunkBooks, chunks, Receive.chunks, queuedChunks]
  | readSocket ps b =>
    -- the stream has been read, or its next packet is received
    cases ps with
    | nil => exact fun m h_full _ _ => ⟨h_full, trivial, rfl⟩
    | cons x ps =>
      intro m h_full h_ok _
      obtain ⟨h_first, h_rest⟩ := List.forall_mem_cons.mp h_ok
      refine ⟨full_write h_full _ ((length_put _ _ _).trans (h_full b)), ?_⟩
      dsimp only
      split
      · next h_short =>
        -- the connection has failed, and the rest is not received
        refine ⟨trivial, ?_⟩
        change 0 + handedOut env m.world = sentChunks env ext (x :: ps) + handedOut env m.world
        rw [sentChunks_of_short h_short]
      · next h_long =>
        have h_whole := not_lt.mp h_long
        obtain ⟨h_fits, h_decodes⟩ := h_first h_whole
        have h_room : x.header.totalSize ≤ (m.pool b).payload.length := by
          rw [h_full b]
          exact h_fits
        have h_data := data_received h_whole h_room
        refine ⟨⟨h_rest, ?_⟩, ?_⟩
        · rw [Memory.write_pool_self]
          exact h_decodes.of_data rfl h_data
        · change receivedChunk env ext ((m.write b _).pool b) ::ₘ sentChunks env ext ps + _
            = sentChunks env ext (x :: ps) + _
          have h_chunk : receivedChunk env ext ⟨x.header, put (m.pool b).payload 0
              (x.body.take x.header.totalSize)⟩ = receivedChunk env ext ⟨x.header, x.body⟩ :=
            receivedChunk_congr rfl h_data
          rw [Memory.write_pool_self, sentChunks_of_whole h_whole, h_chunk]
          rfl
  | push ps b =>
    have hb : b ≠ marker := h_none b (by simp [Receive.held])
    refine ⟨by simp [chunkBooks], fun p _ h_ok _ _ => ⟨fun _ => h_ok.2, h_ok.1, ?_⟩⟩
    change receivedChunk env ext (p b) ::ₘ sentChunks env ext ps + 0
      = sentChunks env ext ps + queuedChunks env ext 1 b (p b) + 0
    rw [queuedChunks, if_neg hb, ← Multiset.singleton_add]
    abel
  | done b => trivial

/-- Decompression keeps the tuples. -/
theorem decompress_moves (i : Fin env.decompParallelism) (l : Decomp)
    (h_none : NoMarker Decomp.held l) :
    (chunkBooks env ext).Posts (astray env) ⟨1, i⟩ l (decompress env ext l) := by
  cases l with
  | popIn e =>
    refine ⟨by simp [chunkBooks], fun v p _ _ _ h_valid _ => ?_⟩
    -- a marker hands nothing on
    by_cases hv : v = marker
    · simp [chunkBooks, TestOk, Decomp.Ok, chunks, Decomp.chunks, queuedChunks, hv]
    · simpa [chunkBooks, TestOk, Decomp.Ok, chunks, Decomp.chunks, queuedChunks, hv]
        using h_valid hv rfl
  | inspect e b =>
    intro m h_full h_ok _
    dsimp only
    split
    · next h_type => exact ⟨h_full, h_type, rfl⟩
    · next h_type => exact ⟨h_full, ⟨h_ok, h_type⟩, rfl⟩
  | forward e b =>
    have hb : b ≠ marker := h_none b (by simp [Decomp.held])
    refine ⟨by simp [chunkBooks], fun p _ h_type _ _ =>
      ⟨fun h => absurd h (by decide), trivial, ?_⟩⟩
    have h_same : decompressedChunk env (p b) = receivedChunk env ext (p b) :=
      decompressedChunk_of_forward h_type
    simp [chunkBooks, chunks, Decomp.chunks, queuedChunks, hb, h_same]
  | popOut e b =>
    refine ⟨by simp [chunkBooks], fun v p _ h_ok _ _ _ => ⟨h_ok, ?_⟩⟩
    simp [chunkBooks, chunks, Decomp.chunks, queuedChunks]
  -- the decoder fills the output buffer with the tuples that were announced
  | decompress e b o =>
    intro m h_full h_ok _
    obtain ⟨h_decodes, h_type⟩ := h_ok
    obtain ⟨payload, h_length, h_eq, h_data⟩ := h_decodes.decompress h_type (h_full o)
    have h_known : (m.pool b).header.compressionType ≠ 6 := fun h => by
      have h_le := h_decodes.known
      omega
    simp only [if_neg h_known, h_eq, zero_ne_one, if_false]
    refine ⟨full_write h_full _ h_length, trivial, ?_⟩
    have h_same : decompressedChunk env ⟨newHeader (m.pool b).header, payload⟩
        = receivedChunk env ext (m.pool b) := by
      rw [decompressedChunk, h_data]
      rfl
    simp [chunkBooks, chunks, Decomp.chunks, h_same]
  -- a decoder that fails is excluded by what is received
  | errorIn e b o => exact ⟨by simp [chunkBooks], fun p _ h_ok _ _ => h_ok.elim⟩
  | errorOut e o => exact ⟨by simp [chunkBooks], fun p _ h_ok _ _ => h_ok.elim⟩
  | pushOut e b o =>
    have ho : o ≠ marker := h_none o (by simp [Decomp.held])
    refine ⟨by simp [chunkBooks], fun p _ _ _ _ =>
      ⟨fun h => absurd h (by decide), trivial, ?_⟩⟩
    simp [chunkBooks, chunks, Decomp.chunks, queuedChunks, ho]
  | freeIn e b =>
    refine ⟨by simp [chunkBooks], fun p _ _ _ _ =>
      ⟨fun h => absurd h (by decide), trivial, ?_⟩⟩
    simp [chunkBooks, chunks, Decomp.chunks, queuedChunks]
  | done => trivial

/-- A call of `getBuffer` hands out one buffer. -/
theorem handedOut_hand {i : ℕ} (hi : i < env.serParallelism) (w : Shared) (x : BuffWithId) :
    handedOut env (w.hand i x) = handedOut env w + {x.chunk} := by
  have h := sum_update_add (fun _ (xs : List BuffWithId) =>
    ((xs.map BuffWithId.chunk : List Chunk) : Multiset Chunk)) w.returned (Finset.mem_range.mpr hi)
    (w.returned i ++ [x])
  rw [List.map_append, List.map_singleton, ← Multiset.coe_add, ← add_assoc, add_right_comm] at h
  exact add_right_cancel h

/-- What a call has returned is handed out. -/
theorem mem_handedOut {i : ℕ} (hi : i < env.serParallelism) {w : Shared} {x : BuffWithId}
    (hx : x ∈ w.returned i) : x.chunk ∈ handedOut env w := by
  rw [handedOut, Multiset.mem_sum]
  exact ⟨i, Finset.mem_range.mpr hi, Multiset.mem_coe.mpr (List.mem_map_of_mem hx)⟩

/-- A function of what is handed out, thread by thread. -/
theorem map_handedOut {A : Type} (f : Chunk → A) (w : Shared) :
    (handedOut env w).map f = ∑ i ∈ Finset.range env.serParallelism,
      (((w.returned i).map fun x => f x.chunk : List A) : Multiset A) := by
  have h_hom := map_sum (Multiset.mapAddMonoidHom f)
    (fun i => (((w.returned i).map BuffWithId.chunk : List Chunk) : Multiset Chunk))
    (Finset.range env.serParallelism)
  refine h_hom.trans (Finset.sum_congr rfl fun i _ => ?_)
  change (((w.returned i).map BuffWithId.chunk).map f : Multiset A) = _
  rw [List.map_map]
  rfl

theorem test_moves (i : Fin env.serParallelism) (l : Test) (h_sound : l.Sound) :
    (chunkBooks env ext).Posts (astray env) ⟨2, i⟩ l (test env i l) := by
  cases l with
  | hasNext =>
    refine fun m h_full _ _ => ⟨h_full, trivial, ?_⟩
    dsimp only
    split <;> rfl
  | getBuffer =>
    refine ⟨by simp [chunkBooks], fun v p _ _ _ _ _ => ⟨trivial, ?_⟩⟩
    by_cases hv : v = marker <;> simp [chunkBooks, chunks, Test.chunks, queuedChunks, hv]
  | popped b =>
    intro m h_full _ _
    dsimp only
    -- either the call returns the buffer, or it was a marker
    obtain ⟨h_pos, hb⟩ | ⟨h_neg, hb⟩ := h_sound.popped_cases
    · rw [if_pos h_pos]
      refine ⟨h_full, trivial, ?_⟩
      change 0 + handedOut env (m.world.hand i _)
        = (if b = marker then 0 else {decompressedChunk env (m.pool b)}) + handedOut env m.world
      rw [handedOut_hand i.2, if_neg hb, zero_add, add_comm]
      rfl
    · rw [if_neg h_neg, if_pos hb]
      refine ⟨h_full, trivial, ?_⟩
      change 0 + handedOut env m.world
        = (if b = marker then 0 else {decompressedChunk env (m.pool b)}) + handedOut env m.world
      rw [if_pos hb]
  | markBufferAsRead b =>
    refine ⟨by simp [chunkBooks], fun p _ _ _ _ => ⟨fun h => absurd h (by decide), trivial, ?_⟩⟩
    simp [chunkBooks, chunks, Test.chunks, queuedChunks]
  | marked => exact fun m h_full _ _ => ⟨h_full, trivial, rfl⟩
  | broke => trivial
  | noNext => trivial

end Books

/-! ### The ledger -/

variable {env : RuntimeEnv} {ext : External}

/-- Every thread touches only buffers it holds. -/
theorem testProg_careful (t : Tid 3 (testParallelism env)) (l : TestLocal t.1) :
    Careful (testHeld t.1) l ((testMachine env ext).prog t l) := by
  obtain ⟨k, i⟩ := t
  match k, i, l with
  | 0, i, l => exact receive_careful ext i l
  | 1, i, l => exact decompress_careful env ext l
  | 2, i, l => exact test_careful env i l

/-- **Every thread of the test client makes a solo run**, and its pushes stand in the history. -/
theorem exists_solo_of_testReachable (h_options : Options env) (h_connected : Connected env ext)
    {s : State (testMachine env ext)}
    (h_run : Reachable (testMachine env ext) never (testInitial env ext) s)
    (t : Tid 3 (testParallelism env)) :
    ∃ es, Solo 3 (testHeld t.1) ((testMachine env ext).prog t) (astray env t) (testStart ext t.1)
        (testInitial env ext).mem es (s.thread t).loc s.mem ∧
      (es.filterMap Event.push).Sublist s.log.reverse :=
  (testCustody env ext).exists_solo (fun t l _ => testProg_careful t l)
    (reachable_astray h_options h_connected h_run) kept_testInitial (pool_nodup env) t

/-- The tuples as a ledger of the test client. -/
def chunkLedger (h_connected : Connected env ext) (h_receives : Receives env ext) :
    Ledger (testCustody env ext) (Multiset Chunk) where
  toBooks := chunkBooks env ext
  weight_marker q b := show queuedChunks env ext q marker b = 0 from if_pos rfl
  debit_marker _ _ := rfl
  credit_marker _ _ := rfl
  weight_private q v c c' hq := by
    match q, hq with
    | _ + 3, _ => rfl
  valid_private q _ _ _ hq _ h := absurd h (Nat.ne_of_gt (lt_of_lt_of_le (by decide) hq))
  carry_congr := by
    rintro ⟨k, i⟩ l p p' - h
    match k, i, l, h with
    | 0, _, l, h =>
      cases l <;> simp_all [chunkBooks, chunks, Receive.chunks, testCustody, testHeld, Receive.held]
    | 1, _, l, h =>
      cases l <;> simp_all [chunkBooks, chunks, Decomp.chunks, testCustody, testHeld, Decomp.held]
    | 2, _, l, h =>
      cases l with
      | popped b =>
        change Test.chunks env p (.popped b) = Test.chunks env p' (.popped b)
        by_cases hb : b = marker
        · simp [Test.chunks, hb]
        · have h_same : p b = p' b := h b (by simp [testCustody, testHeld, Test.held, hb])
          rw [Test.chunks, Test.chunks, h_same]
      | _ => rfl
  ok_congr := by
    rintro ⟨k, i⟩ l p p' - h h_ok
    match k, i, l, h, h_ok with
    | 0, _, l, h, h_ok =>
      cases l <;> simp_all [chunkBooks, TestOk, Receive.Ok, testCustody, testHeld, Receive.held]
    | 1, _, l, h, h_ok =>
      cases l <;> simp_all [chunkBooks, TestOk, Decomp.Ok, testCustody, testHeld, Decomp.held]
    | 2, _, _, _, _ => trivial
  careful t l _ := testProg_careful t l
  posts := by
    rintro ⟨k, i⟩ l h_wf -
    match k, i, l, h_wf with
    | 0, i, l, h_wf => exact receive_moves h_connected h_receives i l h_wf
    | 1, i, l, h_wf => exact decompress_moves i l h_wf
    | 2, i, l, h_wf => exact test_moves i l h_wf

/-- When the threads start, the receive threads carry what the server sends. -/
theorem balanced_testInitial (h_connected : Connected env ext) (h_receives : Receives env ext) :
    (chunkLedger h_connected h_receives).Balanced (sent env ext) (testInitial env ext) where
  fit _ := List.length_replicate
  ok t := by
    obtain ⟨k, i⟩ := t
    match k, i with
    | 0, _ => trivial
    | 1, _ => trivial
    | 2, _ => trivial
  valid q v hv := by
    rintro - rfl
    cases hv
  total := by
    -- all that is sent is still to be received
    have h_carry : ∑ t, chunks env ext t (testStart ext t.1) (fun _ => emptyBuffer env)
        = sent env ext := by
      rw [Fintype.sum_sigma, Fin.sum_univ_three]
      change ∑ i : Fin env.rcvParallelism, sentChunks env ext (ext.received i)
        + ∑ _ : Fin _, (0 : Multiset Chunk) + ∑ _ : Fin _, (0 : Multiset Chunk) = _
      rw [Fin.sum_univ_eq_sum_range fun i => sentChunks env ext (ext.received i)]
      simp [sent]
    have h_queue : ∀ q : ℕ, (chunkBooks env ext).queueWorth (fun _ => emptyBuffer env) q
        (initialQueue env q) = 0 := by
      intro q
      match q with
      | 0 => exact List.sum_eq_zero (by simp [chunkBooks, queuedChunks])
      | _ + 1 => rfl
    have h_out : handedOut env ⟨0, 0, fun _ => []⟩ = 0 := Finset.sum_eq_zero fun i _ => rfl
    change ∑ q ∈ Finset.range 3, (chunkBooks env ext).queueWorth (fun _ => emptyBuffer env) q
        (initialQueue env q)
      + ∑ t, chunks env ext t (testStart ext t.1) (fun _ => emptyBuffer env)
      + handedOut env ⟨0, 0, fun _ => []⟩ + 0 = sent env ext + 0
    rw [Finset.sum_eq_zero fun q _ => h_queue q, h_carry, h_out, zero_add, add_zero]

/-- A thread that has stopped carries nothing. -/
theorem chunks_stopped (h_connected : Connected env ext) {t : Tid 3 (testParallelism env)}
    {l : TestLocal t.1} (h_stopped : (testMachine env ext).prog t l = .leave ∨
      (testMachine env ext).prog t l = .quit) (p : ℤ → Buffer) : chunks env ext t l p = 0 := by
  obtain ⟨k, i⟩ := t
  match k, i, l, h_stopped with
  | 0, i, l, h_stopped =>
    change receive ext i l = .leave ∨ receive ext i l = .quit at h_stopped
    -- a thread that is connected leaves when its stream has been read
    rcases h_stopped with h_leave | h_quit
    · cases l with
      | done b => rfl
      | start => simp [receive, h_connected i i.2] at h_leave
      | readSocket ps b => cases ps <;> cases h_leave
      | _ => cases h_leave
    · exact absurd h_quit (receive_ne_quit (h_connected i i.2))
  | 1, i, l, h_stopped =>
    change decompress env ext l = .leave ∨ decompress env ext l = .quit at h_stopped
    cases l with
    | done => rfl
    | _ => rcases h_stopped with h | h <;> cases h
  | 2, i, l, h_stopped =>
    change test env i l = .leave ∨ test env i l = .quit at h_stopped
    cases l with
    | popped b => rcases h_stopped with h | h <;> cases h
    | _ => rfl

/-- The packets are queued, carried or handed out. -/
theorem add_handedOut (h_options : Options env) (h_connected : Connected env ext)
    (h_receives : Receives env ext) {s : State (testMachine env ext)}
    (h_run : Reachable (testMachine env ext) never (testInitial env ext) s) :
    ∑ q ∈ Finset.range 3, (chunkBooks env ext).queueWorth s.mem.pool q (s.queue q)
      + ∑ t, chunks env ext t (s.thread t).loc s.mem.pool + handedOut env s.mem.world
      = sent env ext := by
  have h_total := (Ledger.balanced (reachable_astray h_options h_connected h_run) kept_testInitial
    (pool_nodup env) (balanced_testInitial h_connected h_receives) fun _ _ => trivial).total
  -- no push is entered in these books
  have h_books : ∀ log : List (Push Buffer), (chunkBooks env ext).credits log = 0 ∧
      (chunkBooks env ext).debits log = 0 := fun log =>
    ⟨List.sum_eq_zero fun x hx => (List.mem_map.mp hx).elim fun _ h => h.2.symm,
      List.sum_eq_zero fun x hx => (List.mem_map.mp hx).elim fun _ h => h.2.symm⟩
  change ∑ q ∈ Finset.range 3, (chunkBooks env ext).queueWorth s.mem.pool q (s.queue q)
    + ∑ t, chunks env ext t (s.thread t).loc s.mem.pool + handedOut env s.mem.world
    + (chunkBooks env ext).credits s.log = sent env ext + (chunkBooks env ext).debits s.log
    at h_total
  rwa [(h_books _).1, (h_books _).2, add_zero, add_zero] at h_total

/-- When the tester has left, nothing is queued and nobody carries anything. -/
theorem handedOut_eq (h_options : Options env) (h_connected : Connected env ext)
    (h_receives : Receives env ext) {s : State (testMachine env ext)}
    (h_run : Reachable (testMachine env ext) never (testInitial env ext) s)
    (h_exited : ∀ i, (s.thread ⟨2, i⟩).Exited) : handedOut env s.mem.world = sent env ext := by
  have h_total := add_handedOut h_options h_connected h_receives h_run
  obtain ⟨h_kept, h_handed, -⟩ := inOrder h_options h_connected h_run
  obtain ⟨h_empty, h_stopped⟩ := h_handed.drain (testSignals h_connected)
    (testSignals_clean h_connected) h_kept h_options.pos fun t ht => by
    obtain ⟨k, i⟩ := t
    obtain rfl : k = 2 := Fin.ext (by simpa using ht)
    exact h_exited i
  -- free buffers have no tuples, and in the other queues only markers are left
  have h_queue : ∀ q ∈ Finset.range 3, (chunkBooks env ext).queueWorth s.mem.pool q (s.queue q)
      = 0 := by
    intro q hq
    refine List.sum_eq_zero fun x hx => ?_
    obtain ⟨v, hv, rfl⟩ := List.mem_map.mp hx
    rcases Nat.eq_zero_or_pos q with rfl | h_pos
    · exact ite_self _
    · refine if_pos ?_
      by_contra h_ne
      have h_mem := mem_ids.mpr ⟨hv, h_ne⟩
      rw [h_empty q h_pos (Finset.mem_range.mp hq)] at h_mem
      exact absurd h_mem (Multiset.notMem_zero v)
  have h_carry : ∀ t, chunks env ext t (s.thread t).loc s.mem.pool = 0 := fun t =>
    chunks_stopped h_connected (h_stopped t) _
  rwa [Finset.sum_eq_zero h_queue, Finset.sum_eq_zero fun t _ => h_carry t, add_zero,
    zero_add] at h_total

/-- **What the server sends is handed out once**, in every run: calls of `getBuffer` return nothing
else at any time, and when the threads of the tester have exited, they have returned all of it. -/
theorem handed_out (h_options : Options env) (h_connected : Connected env ext)
    (h_receives : Receives env ext) {s : State (testMachine env ext)}
    (h_run : Reachable (testMachine env ext) never (testInitial env ext) s) :
    handedOut env s.mem.world ≤ sent env ext ∧
      ((∀ i, (s.thread ⟨2, i⟩).Exited) → handedOut env s.mem.world = sent env ext) := by
  have h_total := add_handedOut h_options h_connected h_receives h_run
  exact ⟨h_total ▸ Multiset.le_add_left _ _, handedOut_eq h_options h_connected h_receives h_run⟩

/-- The buffers of the small stream can be decompressed. -/
theorem receives_testEnv (n : ℕ) : Receives testEnv (zstdStream n) := by
  intro i _ p hp _
  obtain rfl := List.eq_of_mem_replicate hp
  have h_decode : ∀ dst, decompressWith storingDecoders dst zstdPacket.body 13 testEnv.payloadSize 1
      = (0, put dst 0 [7, 0, 0, 0]) := fun _ => rfl
  refine ⟨by decide, by decide, by decide, fun _ dst => ?_, rfl, by decide⟩
  change (decompressWith storingDecoders dst zstdPacket.body 13 testEnv.payloadSize 1).1 ≠ 1
  rw [h_decode]
  exact zero_ne_one

theorem sent_testEnv :
    sent testEnv (zstdStream 2) = {⟨1, 1, [7, 0, 0, 0]⟩, ⟨1, 1, [7, 0, 0, 0]⟩} := by
  decide +kernel

/-- Both buffers of the stream are handed out. -/
theorem handed_out_testEnv :
    ∃ s, Reachable (testMachine testEnv (zstdStream 2)) never
        (testInitial testEnv (zstdStream 2)) s ∧
      (s.mem.world.returned 0).map BuffWithId.id = [1] ∧
      handedOut testEnv s.mem.world = sent testEnv (zstdStream 2) := by
  obtain ⟨s, h_run, ⟨h_returned, -⟩, h_exited⟩ := exists_testRun
  exact ⟨s, h_run, h_returned, (handed_out options_testEnv (fun _ _ => rfl) (receives_testEnv 2)
    h_run).2 fun i => h_exited ⟨2, i⟩⟩

end Xdbc.Client
