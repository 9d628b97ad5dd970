import Xdbc.Server.Ownership
import Xdbc.Client.Ownership
import Xdbc.Bytes.Frames
import Xdbc.Pipeline.Regroup

/-!
# From a send thread to a receive thread

`XDBCServer::send` writes the memory of its buffers to a socket, a header and as many bytes of the
payload as the header says. `XClient::receive` reads a header and then the body it announces, and
pushes the buffer when the body is complete.

The format is that of `Bytes.FrameFormat`: the memory of a header is read back
(`headerOfBytes_headerBytes`), so what arrives are the frames the server has written
(`packets_eq`). The receive thread pushes the frames that are complete, one by one
(`receive_pairs`).
-/

namespace Xdbc

open Bytes Pipeline

/-! ### Headers in memory -/

/-- The words of a header. Nothing writes `crc` and `attributeComp`. -/
def headerWords (h : Header) : List ℕ :=
  [h.compressionType, h.totalSize, h.totalTuples, h.intermediateFormat, h.uncompressedSize, 0]
    ++ h.attributeSize ++ List.replicate maxAttributes 0

/-- The memory of a header. -/
def headerBytes (h : Header) : List UInt8 := (headerWords h).flatMap (leBytes 8)

/-- A word in memory. -/
def wordAt (bs : List UInt8) (i : ℕ) : ℕ := ofLeBytes (slice bs (8 * i) 8)

/-- The header in memory. -/
def headerOfBytes (bs : List UInt8) : Header where
  compressionType := wordAt bs 0
  totalSize := wordAt bs 1
  totalTuples := wordAt bs 2
  intermediateFormat := wordAt bs 3
  uncompressedSize := wordAt bs 4
  attributeSize := (List.range maxAttributes).map fun j => wordAt bs (6 + j)

/-- The fields of a header are words. -/
structure Header.Words (h : Header) : Prop where
  lt : ∀ w ∈ headerWords h, w < 2 ^ 64
  attributes : h.attributeSize.length = maxAttributes

theorem length_flatMap_leBytes (ws : List ℕ) : (ws.flatMap (leBytes 8)).length = 8 * ws.length := by
  induction ws with
  | nil => rfl
  | cons w ws ih =>
    rw [List.flatMap_cons, List.length_append, length_leBytes, ih, List.length_cons]
    omega

theorem Header.Words.length_headerBytes {h : Header} (hw : h.Words) :
    (headerBytes h).length = sizeofHeader := by
  rw [headerBytes, length_flatMap_leBytes, headerWords, List.length_append, List.length_append,
    hw.attributes, List.length_replicate]
  rfl

/-- A word is read back. -/
theorem wordAt_flatMap {ws : List ℕ} (h_words : ∀ w ∈ ws, w < 2 ^ 64) {i : ℕ} (hi : i < ws.length) :
    wordAt (ws.flatMap (leBytes 8)) i = ws[i] := by
  induction ws generalizing i with
  | nil => cases hi
  | cons w ws ih =>
    obtain ⟨hw, h_words⟩ := List.forall_mem_cons.mp h_words
    cases i with
    | zero =>
      have h_slice : slice ((w :: ws).flatMap (leBytes 8)) (8 * 0) 8 = leBytes 8 w := by
        rw [List.flatMap_cons, slice, Nat.mul_zero, List.drop_zero,
          List.take_append_of_le_length (length_leBytes 8 w).ge]
        exact List.take_of_length_le (length_leBytes 8 w).le
      rw [wordAt, h_slice, ofLeBytes_leBytes]
      exact Nat.mod_eq_of_lt hw
    | succ i =>
      have h_slice : slice ((w :: ws).flatMap (leBytes 8)) (8 * (i + 1)) 8
          = slice (ws.flatMap (leBytes 8)) (8 * i) 8 := by
        rw [List.flatMap_cons, slice, slice, show 8 * (i + 1) = (leBytes 8 w).length + 8 * i by
          rw [length_leBytes]; omega, List.drop_length_add_append]
      rw [wordAt, h_slice, ← wordAt]
      exact ih h_words (by rw [List.length_cons] at hi; omega)

/-- **The memory of a header is read back.** -/
theorem headerOfBytes_headerBytes {h : Header} (hw : h.Words) :
    headerOfBytes (headerBytes h) = h := by
  obtain ⟨h_lt, h_attributes⟩ := hw
  have h_word : ∀ i (hi : i < (headerWords h).length),
      wordAt (headerBytes h) i = (headerWords h)[i] := fun i hi => wordAt_flatMap h_lt hi
  have h_length : (headerWords h).length = 6 + maxAttributes + maxAttributes := by
    rw [headerWords, List.length_append, List.length_append, h_attributes, List.length_replicate]
    rfl
  have h_array : (List.range maxAttributes).map (fun j => wordAt (headerBytes h) (6 + j))
      = h.attributeSize := by
    refine List.ext_getElem (by simp [h_attributes]) fun j hj hj' => ?_
    rw [List.getElem_map, List.getElem_range, h_word _ (by omega)]
    simp only [headerWords, List.append_assoc]
    rw [List.getElem_append_right (by simp), List.getElem_append_left (by simpa using hj')]
    simp
  have h_first : ∀ i (hi : i < 5), i < (headerWords h).length := fun i hi => by omega
  rw [headerOfBytes, h_array, h_word 0 (h_first 0 (by decide)), h_word 1 (h_first 1 (by decide)),
    h_word 2 (h_first 2 (by decide)), h_word 3 (h_first 3 (by decide)),
    h_word 4 (h_first 4 (by decide))]
  rfl

/-! ### What is sent -/

/-- The frames of the wire. -/
def wireFormat : FrameFormat Header where
  headerSize := sizeofHeader
  encode := headerBytes
  decode := headerOfBytes
  bodySize := Header.totalSize

/-- `sendBuffer`: the memory of a buffer as far as the header says. -/
def sendBuffer (b : Buffer) : List UInt8 :=
  (headerBytes b.header ++ b.payload).take (b.header.totalSize + sizeofHeader)

/-- The header and the payload of a buffer. -/
def frameOf (b : Buffer) : Frame Header := ⟨b.header, b.data⟩

/-- A buffer of the server's pool that can be sent. -/
structure Sendable (env : Server.RuntimeEnv) (b : Buffer) : Prop where
  full : Server.Full env b
  words : b.header.Words
  size : b.header.totalSize ≤ env.payloadSize

variable {senv : Server.RuntimeEnv} {env : Client.RuntimeEnv} {ext : Client.External}

theorem Sendable.length_data {b : Buffer} (h : Sendable senv b) :
    b.data.length = b.header.totalSize := by
  rw [Buffer.data, List.length_take, h.full]
  exact Nat.min_eq_left h.size

theorem Sendable.valid {b : Buffer} (h : Sendable senv b) : wireFormat.Valid (frameOf b) where
  length_encode := h.words.length_headerBytes
  decode_encode := headerOfBytes_headerBytes h.words
  length_body := h.length_data

/-- **What is sent is a frame.** -/
theorem Sendable.bytes {b : Buffer} (h : Sendable senv b) :
    sendBuffer b = wireFormat.bytes (frameOf b) := by
  rw [sendBuffer, Nat.add_comm, ← h.words.length_headerBytes, List.take_length_add_append]
  rfl

/-! ### What arrives -/

/-- What a connection delivers, as the reads of `XClient::receive` find it. -/
def packets (segments : List (List UInt8)) : List Client.Packet :=
  (wireFormat.frames segments).map fun f => ⟨f.header, f.body⟩

/-- The frame of a packet. -/
def packetFrame (x : Client.Packet) : Frame Header := ⟨x.header, x.body⟩

/-- The frames that are complete in the bytes delivered. -/
def completeFrames (bs : List Buffer) (segments : List (List UInt8)) : List (Frame Header) :=
  wireFormat.complete (bs.map frameOf) segments.flatten.length

/-- **What arrives are the complete frames**, and at most one that is cut off. -/
theorem packets_eq {bs : List Buffer} (h_valid : ∀ b ∈ bs, Sendable senv b)
    {segments : List (List UInt8)} (h_front : segments.flatten <+: bs.flatMap sendBuffer) :
    ∃ cut, (packets segments).map packetFrame = completeFrames bs segments ++ cut ∧
      (cut = [] ∨ ∃ f, cut = [f] ∧ ¬ wireFormat.Whole f) := by
  have h_bytes : bs.flatMap sendBuffer = (bs.map frameOf).flatMap wireFormat.bytes := by
    rw [List.flatMap_map]
    exact List.flatMap_congr fun b hb => (h_valid b hb).bytes
  rw [h_bytes] at h_front
  have h_frames : ∀ f ∈ bs.map frameOf, wireFormat.Valid f := by
    intro f hf
    obtain ⟨b, hb, rfl⟩ := List.mem_map.mp hf
    exact (h_valid b hb).valid
  have h_map : (packets segments).map packetFrame = wireFormat.frames segments := by
    rw [packets, List.map_map]
    exact List.map_id _
  rw [h_map]
  exact FrameFormat.readFrames_of_prefix (by decide) h_frames h_front (Nat.lt_succ_self _)

/-! ### What is pushed -/

open Client (Receive Receive.held receive)

/-- The frames behind the ones already pushed are `left`. -/
def Follows (fs : List (Frame Header)) (es : List (Event Buffer)) (left : List (Frame Header)) :
    Prop :=
  ∃ before, fs = before ++ left ∧ (∀ f ∈ before, wireFormat.Whole f) ∧
    (Event.outputs 1 es).map frameOf = before

/-- What a receive thread has pushed are the first of the frames that arrive. -/
def ReceivePairs (env : Client.RuntimeEnv) (fs : List (Frame Header)) (es : List (Event Buffer))
    (p : ℤ → Buffer) : Receive → Prop
  | .start => Follows fs es fs
  | .popFree ps => Follows fs es (ps.map packetFrame)
  | .readSocket ps b => Client.Full env (p b) ∧ Follows fs es (ps.map packetFrame)
  | .push ps b => wireFormat.Whole (frameOf (p b)) ∧
      Follows fs es (frameOf (p b) :: ps.map packetFrame)
  | .done _ => ∃ left, Follows fs es left ∧ ∀ f ∈ left.head?, ¬ wireFormat.Whole f

/-- What has been pushed is followed by the rest. -/
theorem Follows.popped {fs left : List (Frame Header)} {es : List (Event Buffer)} {q : ℕ} {v : ℤ}
    {c : Buffer} (h : Follows fs es left) : Follows fs (es ++ [.popped q v c]) left := by
  obtain ⟨before, h_eq, h_whole, h_pushed⟩ := h
  exact ⟨before, h_eq, h_whole, by rw [Event.outputs_popped]; exact h_pushed⟩

theorem Follows.pushed {fs left : List (Frame Header)} {es : List (Event Buffer)} {v : ℤ}
    {c : Buffer} (h_first : wireFormat.Whole (frameOf c))
    (h : Follows fs es (frameOf c :: left)) : Follows fs (es ++ [.pushed ⟨1, v, c⟩]) left := by
  obtain ⟨before, h_eq, h_whole, h_pushed⟩ := h
  refine ⟨before ++ [frameOf c], by rw [h_eq]; simp, fun f hf => ?_, ?_⟩
  · rcases List.mem_append.mp hf with hf | hf
    · exact h_whole f hf
    · rw [List.mem_singleton.mp hf]
      exact h_first
  · rw [Event.outputs_pushed, List.map_append, h_pushed]
    rfl

/-- What has been pushed is the beginning of what is complete. -/
theorem Follows.prefix_complete {es : List (Event Buffer)} {left whole cut : List (Frame Header)}
    (h : Follows (whole ++ cut) es left) (h_cut : ∀ f ∈ cut.head?, ¬ wireFormat.Whole f) :
    (Event.outputs 1 es).map frameOf <+: whole := by
  obtain ⟨before, h_eq, h_whole, h_pushed⟩ := h
  rw [h_pushed]
  rcases List.append_eq_append_iff.mp h_eq with ⟨rest, rfl, h_rest⟩ | ⟨rest, rfl, -⟩
  · cases rest with
    | nil => rw [List.append_nil]
    | cons f rest =>
      rw [h_rest] at h_cut
      exact absurd (h_whole f (by simp)) (h_cut f (by simp))
  · exact List.prefix_append _ _

/-- When the first frame left is cut off, everything complete has been pushed. -/
theorem Follows.complete {es : List (Event Buffer)} {left whole cut : List (Frame Header)}
    (h : Follows (whole ++ cut) es left) (h_left : ∀ f ∈ left.head?, ¬ wireFormat.Whole f)
    (h_all : ∀ f ∈ whole, wireFormat.Whole f) (h_cut : ∀ f ∈ cut.head?, ¬ wireFormat.Whole f) :
    (Event.outputs 1 es).map frameOf = whole := by
  obtain ⟨rest, h_eq⟩ := h.prefix_complete h_cut
  obtain ⟨before, h_before, -, h_pushed⟩ := h
  rw [h_pushed] at h_eq ⊢
  cases rest with
  | nil => rw [← h_eq, List.append_nil]
  | cons f rest =>
    rw [← h_eq, List.append_assoc, List.append_cancel_left_eq] at h_before
    rw [← h_before] at h_left
    exact absurd (h_all f (by rw [← h_eq]; simp)) (h_left f (by simp))

/-- Whole frames fit the buffers of the client. -/
def Fit (env : Client.RuntimeEnv) (fs : List (Frame Header)) : Prop :=
  ∀ f ∈ fs, wireFormat.Whole f →
    f.body.length = f.header.totalSize ∧ f.header.totalSize ≤ env.payloadSize

/-- A whole frame is found in the buffer it is read into. -/
theorem frameOf_read {x : Client.Packet} {payload : List UInt8}
    (h_full : payload.length = env.payloadSize) (h_body : x.body.length = x.header.totalSize)
    (h_size : x.header.totalSize ≤ env.payloadSize) :
    frameOf ⟨x.header, put payload 0 (x.body.take x.header.totalSize)⟩ = packetFrame x := by
  have h_room : x.body.length ≤ payload.length := by rw [h_body, h_full]; exact h_size
  rw [frameOf, packetFrame, Buffer.data, ← h_body, List.take_length, take_put_zero h_room]

/-- What remains of the work of a receive thread. -/
def receiveRank (ext : Client.External) (thr : ℕ) (_ : ℤ → Buffer) : Receive → ℕ
  | .start => 3 * (ext.received thr).length + 2
  | .popFree ps => 3 * ps.length + 2
  | .readSocket ps _ => 3 * ps.length + 1
  | .push ps _ => 3 * ps.length + 3
  | .done _ => 0

/-- **Step lemma.** The receive thread pushes the frames one by one. -/
theorem receive_pairs {thr : ℕ} {σ : Type} {m₀ m : Memory Buffer σ} {es : List (Event Buffer)}
    {l : Receive} (h_connects : ext.connects thr = true)
    (h_fit : Fit env ((ext.received thr).map packetFrame))
    (h : Solo 4 Receive.held (receive ext thr) (fun _ => False) .start m₀ es l m)
    (h_full : Takes 0 (Client.Full env) es) :
    ReceivePairs env ((ext.received thr).map packetFrame) es m.pool l := by
  induction h with
  | start => exact ⟨[], rfl, by simp, rfl⟩
  | others _ h_own ih =>
    have h_inv := ih h_full
    -- between two operations nobody else writes to the buffer in hand
    rename_i l _ _ _
    cases l with
    | readSocket ps b =>
      rw [ReceivePairs, h_own b (by simp [Receive.held])]
      exact h_inv
    | push ps b =>
      rw [ReceivePairs, h_own b (by simp [Receive.held])]
      exact h_inv
    | _ => exact h_inv
  | @pop es l m q k v _ hop h_free h_new h_good ih =>
    have h_inv := ih h_full.of_append
    cases l with
    | start =>
      simp only [receive, if_pos h_connects] at hop
      cases hop
      exact ⟨h_full.popped (h_free rfl), Follows.popped h_inv⟩
    | popFree ps =>
      simp only [receive] at hop
      cases hop
      exact ⟨h_full.popped (h_free rfl), Follows.popped h_inv⟩
    | readSocket ps b => cases ps <;> simp [receive] at hop
    | _ => simp [receive] at hop
  | @push es l m q v l' _ hop h_good ih =>
    have h_inv := ih h_full.of_append
    cases l with
    | push ps b =>
      simp only [receive] at hop
      cases hop
      -- the frame that has been read is pushed
      exact h_inv.2.pushed h_inv.1
    | start => simp [receive, h_connects] at hop
    | readSocket ps b => cases ps <;> simp [receive] at hop
    | _ => simp [receive] at hop
  | @work es l m bs f _ hop h_good ih =>
    have h_inv := ih h_full
    cases l with
    | readSocket ps b =>
      obtain ⟨h_block, h_follows⟩ := h_inv
      cases ps with
      | nil =>
        simp only [receive] at hop
        cases hop
        -- the stream ends behind a whole frame
        exact ⟨[], h_follows, by simp⟩
      | cons x ps =>
        simp only [receive] at hop
        cases hop
        dsimp only
        split
        · next h_cut =>
          -- the stream ends in this frame
          refine ⟨_, h_follows, fun f hf => ?_⟩
          rw [List.map_cons, List.head?_cons, Option.mem_some_iff] at hf
          rw [← hf]
          exact Nat.not_le_of_lt h_cut
        · next h_whole =>
          -- the frame is whole, and its body fits the buffer
          have h_frame : wireFormat.Whole (packetFrame x) := Nat.le_of_not_lt h_whole
          have h_mem : packetFrame x ∈ (ext.received thr).map packetFrame := by
            obtain ⟨before, h_eq, -⟩ := h_follows
            rw [h_eq]
            exact List.mem_append_right _ List.mem_cons_self
          obtain ⟨h_body, h_size⟩ := h_fit _ h_mem h_frame
          rw [ReceivePairs, Memory.write_pool_self, frameOf_read h_block h_body h_size]
          exact ⟨h_frame, h_follows⟩
    | start => simp [receive, h_connects] at hop
    | _ => simp [receive] at hop

/-- The receive thread reads the stream to its end and stops. -/
theorem receive_lowers {thr : ℕ} {σ : Type} (m : Memory Buffer σ) (l : Receive) :
    Lowers (fun _ => False) (receiveRank ext thr) l m (receive ext thr l) := by
  cases l with
  | start =>
    simp only [receive]
    split
    · exact .inr fun v => Nat.lt_succ_self _
    · exact trivial
  | popFree ps => exact .inr fun v => Nat.lt_succ_self _
  | readSocket ps b =>
    cases ps with
    | nil => exact Nat.zero_lt_one
    | cons x ps =>
      simp only [receive, Lowers]
      split <;> simp only [receiveRank, List.length_cons] <;> omega
  | push ps b => exact Nat.lt_succ_self _
  | done b => exact trivial

/-- It stops only where it has left its loop. -/
theorem eq_done_of_stops {thr : ℕ} {σ : Type} (h_connects : ext.connects thr = true) {l : Receive}
    (h : (receive (σ := σ) ext thr l).Stops) : ∃ b, l = .done b := by
  cases l with
  | start =>
    rw [receive, if_pos h_connects] at h
    exact h.elim
  | readSocket ps b => cases ps <;> exact h.elim
  | done b => exact ⟨b, rfl⟩
  | _ => exact h.elim

variable (env ext) in
/-- **A receive thread can always read to the end.** -/
theorem exists_receive_done (thr : ℕ) {σ : Type} (h_connects : ext.connects thr = true)
    (m₀ : Memory Buffer σ) :
    ∃ es b m, Solo 4 Receive.held (receive ext thr) (fun _ => False) .start m₀ es (.done b) m ∧
      Takes 0 (Client.Full env) es := by
  have h_start : Solo 4 Receive.held (receive (σ := σ) ext thr) (fun _ => False) .start m₀ []
      .start m₀ := .start
  obtain ⟨es, l, m, h_run, h_pause, h_pops⟩ := h_start.exists_pause
    (fun l m => receive_lowers m l) (fun _ _ _ _ => rfl) (Client.emptyBuffer env)
  have h_stops : (receive (σ := σ) ext thr l).Stops := by
    cases hop : receive (σ := σ) ext thr l with
    | leave => trivial
    | quit => trivial
    | _ => rw [hop] at h_pause; exact h_pause.elim
  obtain ⟨b, rfl⟩ := eq_done_of_stops h_connects h_stops
  refine ⟨es, b, m, h_run, .of_popped fun v c h_mem => ?_⟩
  rw [(h_pops 0 v c h_mem).2]
  exact List.length_replicate

/-- **What a send thread writes is what the receive thread pushes.** The connection delivers some
of the bytes, in any segments. The buffers pushed are then the first of the buffers that are
complete in these bytes, and when the thread stops, exactly these; if all bytes have been
delivered, they are all the buffers. Every operation of the thread brings it closer to its end. -/
theorem frames_received (h_schema : env.schema = senv.schema)
    (h_bufferSize : env.bufferSize = senv.bufferSize) {bs : List Buffer}
    (h_valid : ∀ b ∈ bs, Sendable senv b) {segments : List (List UInt8)}
    (h_front : segments.flatten <+: bs.flatMap sendBuffer) {thr : ℕ}
    (h_connects : ext.connects thr = true) (h_received : ext.received thr = packets segments)
    {σ : Type} {m₀ m : Memory Buffer σ} {es : List (Event Buffer)} {l : Receive}
    (h : Solo 4 Receive.held (receive ext thr) (fun _ => False) .start m₀ es l m)
    (h_full : Takes 0 (Client.Full env) es) :
    (Event.outputs 1 es).map frameOf <+: completeFrames bs segments ∧
      ((receive (σ := σ) ext thr l).Stops →
        (Event.outputs 1 es).map frameOf = completeFrames bs segments) ∧
      (segments.flatten = bs.flatMap sendBuffer → completeFrames bs segments = bs.map frameOf) ∧
      Lowers (fun _ => False) (receiveRank ext thr) l m (receive ext thr l) := by
  have h_sizes : senv.payloadSize = env.payloadSize := by
    rw [Server.RuntimeEnv.payloadSize, Client.RuntimeEnv.payloadSize, h_schema, h_bufferSize]
  obtain ⟨cut, h_packets, h_end⟩ := packets_eq h_valid h_front
  have h_cut : ∀ f ∈ cut.head?, ¬ wireFormat.Whole f := by
    rintro f hf
    rcases h_end with rfl | ⟨f', rfl, h_not⟩
    · cases hf
    · cases hf
      exact h_not
  have h_mem : ∀ f ∈ completeFrames bs segments, ∃ b, Sendable senv b ∧ f = frameOf b := by
    intro f hf
    obtain ⟨b, hb, rfl⟩ := List.mem_map.mp ((FrameFormat.complete_prefix _ _).mem hf)
    exact ⟨b, h_valid b hb, rfl⟩
  have h_all : ∀ f ∈ completeFrames bs segments, wireFormat.Whole f := by
    intro f hf
    obtain ⟨b, hb, rfl⟩ := h_mem f hf
    exact hb.length_data.ge
  have h_fit : Fit env ((ext.received thr).map packetFrame) := by
    intro f hf h_whole
    rw [h_received, h_packets, List.mem_append] at hf
    rcases hf with hf | hf
    · obtain ⟨b, hb, rfl⟩ := h_mem f hf
      exact ⟨hb.length_data, h_sizes ▸ hb.size⟩
    · rcases h_end with rfl | ⟨f', rfl, h_not⟩
      · cases hf
      · rw [List.mem_singleton.mp hf] at h_whole
        exact absurd h_whole h_not
  have h_pairs := receive_pairs h_connects h_fit h h_full
  rw [h_received, h_packets] at h_pairs
  -- whatever the thread is about to do, the frames pushed are those it has got behind it
  refine ⟨?_, fun h_stops => ?_, fun h_bytes => ?_, receive_lowers m l⟩
  · cases l with
    | start => exact Follows.prefix_complete h_pairs h_cut
    | popFree ps => exact Follows.prefix_complete h_pairs h_cut
    | readSocket ps b => exact h_pairs.2.prefix_complete h_cut
    | push ps b => exact h_pairs.2.prefix_complete h_cut
    | done b =>
      obtain ⟨left, h_follows, -⟩ := h_pairs
      exact h_follows.prefix_complete h_cut
  · -- the thread stops where nothing but a frame that is cut off is left
    obtain ⟨b, rfl⟩ := eq_done_of_stops h_connects h_stops
    obtain ⟨left, h_follows, h_left⟩ := h_pairs
    exact h_follows.complete h_left h_all h_cut
  · have h_flat : bs.flatMap sendBuffer = (bs.map frameOf).flatMap wireFormat.bytes := by
      rw [List.flatMap_map]
      exact List.flatMap_congr fun b hb => (h_valid b hb).bytes
    rw [completeFrames, h_bytes, h_flat]
    exact FrameFormat.complete_all _

/-! ### Two buffers -/

/-- A buffer with one integer. -/
def wireBuffer : Buffer :=
  ⟨{ totalSize := 4, totalTuples := 1, intermediateFormat := 1 }, 7 :: List.replicate 1023 0⟩

/-- A buffer with two. -/
def longerBuffer : Buffer :=
  ⟨{ totalSize := 8, totalTuples := 2, intermediateFormat := 1 }, List.replicate 1024 9⟩

/-- The connection delivers one buffer and three of the eight bytes of the other, in two segments
which divide the first header. -/
def twoSegments : List (List UInt8) :=
  [([wireBuffer, longerBuffer].flatMap sendBuffer).take 100,
    (([wireBuffer, longerBuffer].flatMap sendBuffer).drop 100).take 7363]

/-- A client with this connection. -/
def wireClient : Client.External where
  received _ := packets twoSegments
  decoders := Client.storingDecoders

theorem sendable_wireBuffers :
    ∀ b ∈ [wireBuffer, longerBuffer], Sendable { Server.smallEnv with bufferSize := 1 } b := by
  intro b hb
  rcases List.mem_pair.mp hb with rfl | rfl
  · refine ⟨?_, ⟨by decide +kernel, by decide +kernel⟩, by decide⟩
    rw [Server.Full, wireBuffer, List.length_cons, List.length_replicate]
    decide
  · refine ⟨?_, ⟨by decide +kernel, by decide +kernel⟩, by decide⟩
    rw [Server.Full, longerBuffer, List.length_replicate]
    decide

theorem length_sendBuffers :
    (sendBuffer wireBuffer).length = 3732 ∧ (sendBuffer longerBuffer).length = 3736 := by
  have h_first := sendable_wireBuffers wireBuffer (by simp)
  have h_second := sendable_wireBuffers longerBuffer (by simp)
  rw [h_first.bytes, h_second.bytes, FrameFormat.length_bytes h_first.valid,
    FrameFormat.length_bytes h_second.valid]
  exact ⟨rfl, rfl⟩

/-- One of the two frames is complete. -/
theorem completeFrames_twoSegments :
    completeFrames [wireBuffer, longerBuffer] twoSegments = [frameOf wireBuffer] := by
  obtain ⟨h_first, h_second⟩ := length_sendBuffers
  have h_length : twoSegments.flatten.length = 7463 := by
    simp [twoSegments, h_first, h_second]
  rw [(sendable_wireBuffers wireBuffer (by simp)).bytes] at h_first
  rw [(sendable_wireBuffers longerBuffer (by simp)).bytes] at h_second
  rw [completeFrames, h_length, List.map_cons, FrameFormat.complete, h_first,
    if_pos (by decide), List.map_cons, FrameFormat.complete, h_second, if_neg (by decide)]

/-- Two buffers are sent, the connection ends in the second, and the first is received. -/
theorem frames_received_twoSegments :
    ∃ es b m, Solo 4 Receive.held (receive wireClient 0) (fun _ => False) .start
        (⟨fun _ => Client.emptyBuffer Client.smallEnv, ()⟩ : Memory Buffer Unit) es (.done b) m ∧
      Takes 0 (Client.Full Client.smallEnv) es ∧
      (Event.outputs 1 es).map frameOf = [⟨wireBuffer.header, [7, 0, 0, 0]⟩] := by
  obtain ⟨es, b, m, h_solo, h_full⟩ := exists_receive_done Client.smallEnv wireClient 0 rfl
    (⟨fun _ => Client.emptyBuffer Client.smallEnv, ()⟩ : Memory Buffer Unit)
  -- the second segment ends inside the second buffer
  have h_front : twoSegments.flatten <+: [wireBuffer, longerBuffer].flatMap sendBuffer := by
    have h_parts := List.take_append_drop 100 ([wireBuffer, longerBuffer].flatMap sendBuffer)
    rw [twoSegments, List.flatten_cons, List.flatten_cons, List.flatten_nil, List.append_nil]
    conv_rhs => rw [← h_parts]
    exact (List.prefix_append_right_inj _).mpr (List.take_prefix _ _)
  have h_sizes : Client.smallEnv.schema = { Server.smallEnv with bufferSize := 1 }.schema ∧
      Client.smallEnv.bufferSize = { Server.smallEnv with bufferSize := 1 }.bufferSize := ⟨rfl, rfl⟩
  have h_received : wireClient.received 0 = packets twoSegments := by rw [wireClient]
  have h := frames_received h_sizes.1 h_sizes.2 sendable_wireBuffers h_front rfl h_received h_solo
    h_full
  refine ⟨es, b, m, h_solo, h_full, ?_⟩
  rw [h.2.1 trivial, completeFrames_twoSegments]
  rfl

end Xdbc
