import Xdbc.Client.Shutdown
import Xdbc.Pipeline.Ledger
import Xdbc.Pipeline.Solo

/-!
# Every payload is written once

With `skip_serializer` the payloads of the received buffers are followed through the client by
double entry. A buffer in the first queue is worth what it contains, decompressed if it must be
(`contents`), a buffer in the later ones what its header announces. The books are debited when a
receive thread pushes a buffer, and what is out is what the write threads have written. The heart is
`decompress_posts`: a decompressed buffer announces exactly what the compressed one contains.

When the write threads have exited, all queues are empty and nobody carries anything
(`payloads_written`).
-/

namespace Xdbc.Client

open Bytes Pipeline

variable (env : RuntimeEnv) (ext : External)

/-! ### What a received buffer contains -/

/-- The payload of a received buffer, decompressed if the header says so. -/
def contents (b : Buffer) : List UInt8 :=
  if b.header.compressionType = 0 then b.data
  else (ext.decoders.decode b.header.compressionType b.data).getD []

/-- The size of the contents the header announces. -/
def contentSize (header : Header) : ℕ :=
  if header.compressionType = 0 then header.totalSize else header.uncompressedSize

/-- The buffer is not compressed, or its decompression succeeds. -/
structure Decodes (b : Buffer) : Prop where
  size : b.data.length = b.header.totalSize
  known : b.header.compressionType ≤ 5
  succeeds : b.header.compressionType ≠ 0 → ∀ dst, (decompressWith ext.decoders dst b.data
    b.header.totalSize env.payloadSize b.header.compressionType).1 ≠ 1
  length : (contents ext b).length = contentSize b.header
  room : contentSize b.header ≤ env.payloadSize

/-- Every buffer that arrives whole fits the pool and can be decompressed. -/
def Receives : Prop :=
  ∀ i < env.rcvParallelism, ∀ p ∈ ext.received i, p.header.totalSize ≤ p.body.length →
    p.header.totalSize ≤ env.payloadSize ∧ Decodes env ext ⟨p.header, p.body⟩

variable {env ext}

theorem decompressWith_take (lib : Decoders) (dst src : List UInt8) (inSize outSize method : ℕ) :
    decompressWith lib dst (src.take inSize) inSize outSize method
      = decompressWith lib dst src inSize outSize method := by
  unfold decompressWith
  split <;>
    simp only [decompressZstd, decompressSnappy, decompressLzo, decompressLz4, decompressZlib,
      List.take_take, Nat.min_self]

/-- What a buffer decodes to depends on its header and the bytes it announces. -/
theorem Decodes.of_data {b b' : Buffer} (h : Decodes env ext b) (h_header : b'.header = b.header)
    (h_data : b'.data = b.data) : Decodes env ext b' := by
  obtain ⟨h_size, h_known, h_succeeds, h_length, h_room⟩ := h
  constructor <;> simp only [contents, h_header, h_data] <;> assumption

/-- The buffer a receive thread leaves holds what the socket has delivered. -/
theorem data_received {p : Packet} (h_whole : p.header.totalSize ≤ p.body.length)
    {payload : List UInt8} (h_full : p.header.totalSize ≤ payload.length) :
    (⟨p.header, put payload 0 (p.body.take p.header.totalSize)⟩ : Buffer).data
      = (⟨p.header, p.body⟩ : Buffer).data := by
  have h_length : (p.body.take p.header.totalSize).length = p.header.totalSize :=
    List.length_take_of_le h_whole
  have h_put : (put payload 0 (p.body.take p.header.totalSize)).take
      (p.body.take p.header.totalSize).length = p.body.take p.header.totalSize :=
    take_put_zero (by omega)
  rwa [h_length] at h_put

/-- **A decompressed buffer announces what the compressed one contains.** -/
theorem Decodes.decompress {b : Buffer} (h : Decodes env ext b)
    (h_type : b.header.compressionType ≠ 0) {dst : List UInt8} (h_dst : dst.length = env.payloadSize) :
    ∃ payload, payload.length = env.payloadSize ∧
      decompressWith ext.decoders dst b.payload b.header.totalSize env.payloadSize
        (b.header.compressionType % 2 ^ 32) = (0, payload) ∧
      (⟨newHeader b.header, payload⟩ : Buffer).data = contents ext b := by
  -- the types are small, so the conversion to `int` changes nothing
  have h_mod : b.header.compressionType % 2 ^ 32 = b.header.compressionType :=
    Nat.mod_eq_of_lt (lt_of_le_of_lt h.known (by norm_num))
  have h_one := h.succeeds h_type dst
  rw [Buffer.data, decompressWith_take] at h_one
  obtain ⟨e, h_decode, h_eq⟩ := eq_put_of_decompressWith h_one
  have h_contents : contents ext b = e := by
    rw [contents, if_neg h_type, Buffer.data, h_decode, Option.getD_some]
  have h_length : e.length = b.header.uncompressedSize := by
    rw [← h_contents, h.length, contentSize, if_neg h_type]
  -- the decoded contents have room in the buffer
  have h_room : e.length ≤ dst.length := by
    rw [h_dst, ← h_contents, h.length]
    exact h.room
  refine ⟨put dst 0 e, (length_put _ _ _).trans h_dst, ?_, ?_⟩
  · rw [h_mod, h_eq]
  · rw [h_contents]
    change (put dst 0 e).take b.header.uncompressedSize = e
    rw [← h_length]
    exact take_put_zero h_room

/-! ### The books -/

section Books

variable (env ext)

/-- The payload a decompression thread carries. -/
def Decomp.carry (p : ℤ → Buffer) : Decomp → Multiset (List UInt8)
  | .inspect _ b => {contents ext (p b)}
  | .forward _ b => {contents ext (p b)}
  | .popOut _ b => {contents ext (p b)}
  | .decompress _ b _ => {contents ext (p b)}
  | .pushOut _ _ o => {(p o).data}
  | _ => 0

/-- The payload a serialization thread carries. -/
def Ser.carry (p : ℤ → Buffer) : Ser → Multiset (List UInt8)
  | .skipPush b => {(p b).data}
  | _ => 0

/-- The payload a write thread carries. -/
def Write.carry (p : ℤ → Buffer) : Write → Multiset (List UInt8)
  | .write b => {(p b).data}
  | _ => 0

/-- The payloads a thread carries. -/
def carry : (t : Tid 4 (parallelism env)) → Local t.1 → (ℤ → Buffer) → Multiset (List UInt8)
  | ⟨0, _⟩, _, _ => 0
  | ⟨1, _⟩, l, p => Decomp.carry ext p l
  | ⟨2, _⟩, l, p => Ser.carry p l
  | ⟨3, _⟩, l, p => Write.carry p l

/-- The buffers a receive thread pushes, now and later, can be decompressed. -/
def Receive.Ok (p : ℤ → Buffer) : Receive → Prop
  | .popFree ps => ∀ x ∈ ps, x.header.totalSize ≤ x.body.length →
      x.header.totalSize ≤ env.payloadSize ∧ Decodes env ext ⟨x.header, x.body⟩
  | .readSocket ps _ => ∀ x ∈ ps, x.header.totalSize ≤ x.body.length →
      x.header.totalSize ≤ env.payloadSize ∧ Decodes env ext ⟨x.header, x.body⟩
  | .push ps b => (∀ x ∈ ps, x.header.totalSize ≤ x.body.length →
      x.header.totalSize ≤ env.payloadSize ∧ Decodes env ext ⟨x.header, x.body⟩) ∧
      Decodes env ext (p b)
  | _ => True

/-- What holds of the input buffer of a decompression thread. -/
def Decomp.Ok (p : ℤ → Buffer) : Decomp → Prop
  | .inspect _ b => Decodes env ext (p b)
  | .forward _ b => (p b).header.compressionType = 0
  | .popOut _ b => Decodes env ext (p b) ∧ (p b).header.compressionType ≠ 0
  | .decompress _ b _ => Decodes env ext (p b) ∧ (p b).header.compressionType ≠ 0
  | .errorIn _ _ _ => False
  | .errorOut _ _ => False
  | _ => True

/-- What holds of a thread and its buffers. -/
def Ok : (t : Tid 4 (parallelism env)) → Local t.1 → (ℤ → Buffer) → Prop
  | ⟨0, _⟩, l, p => Receive.Ok env ext p l
  | ⟨1, _⟩, l, p => Decomp.Ok env ext p l
  | ⟨2, _⟩, _, _ => True
  | ⟨3, _⟩, _, _ => True

/-- The payload an item in a queue is worth. -/
def weight (q : ℕ) (v : ℤ) (b : Buffer) : Multiset (List UInt8) :=
  if v = marker then 0
  else match q with
    | 1 => {contents ext b}
    | 2 => {b.data}
    | 3 => {b.data}
    | _ => 0

/-- The payload a push of a receive thread enters. -/
def payloadReceived (e : Push Buffer) : Multiset (List UInt8) :=
  if e.item = marker ∨ e.queue ≠ 1 then 0 else {contents ext e.content}

/-- The payloads the write threads have written. -/
def payloadsWritten (w : Files) : Multiset (List UInt8) :=
  ∑ i ∈ Finset.range env.writeParallelism, ((w i).map Prod.snd : List (List UInt8))

/-- The payloads of the client, in all places. -/
def payloadBooks : Books (machine env ext) (Multiset (List UInt8)) where
  queues := 4
  weight := weight ext
  valid q _ b := q = 1 → Decodes env ext b
  carry := carry env ext
  ok := Ok env ext
  out := payloadsWritten env
  debit := payloadReceived ext
  credit _ := 0
  fine _ := True
  fit := Full env

variable {env ext} {bad : (t : Tid 4 (parallelism env)) → Local t.1 → Prop}

/-- Receiving posts what is pushed. -/
theorem receive_posts (h_receives : Receives env ext) (i : Fin env.rcvParallelism) (l : Receive)
    (h_none : NoMarker Receive.held l) :
    (payloadBooks env ext).Posts bad ⟨0, i⟩ l (receive ext i l) := by
  cases l with
  | start =>
    simp only [receive]
    split
    · refine ⟨by simp [payloadBooks], fun v p _ _ _ _ _ => ⟨h_receives i i.2, ?_⟩⟩
      simp [payloadBooks, carry, weight]
    · trivial
  | popFree ps =>
    refine ⟨by simp [payloadBooks], fun v p _ h_ok _ _ _ => ⟨h_ok, ?_⟩⟩
    simp [payloadBooks, carry, weight]
  | readSocket ps b =>
    cases ps with
    | nil => exact fun m h_full _ _ => ⟨h_full, trivial, rfl⟩
    | cons x ps =>
      intro m h_full h_ok _
      obtain ⟨h_first, h_rest⟩ := List.forall_mem_cons.mp h_ok
      refine ⟨full_write h_full _ ((length_put _ _ _).trans (h_full b)), ?_, rfl⟩
      dsimp only
      -- a packet cut off ends the thread
      split
      · trivial
      · next h_whole =>
        obtain ⟨h_fits, h_decodes⟩ := h_first (not_lt.mp h_whole)
        refine ⟨h_rest, ?_⟩
        rw [Memory.write_pool_self]
        exact h_decodes.of_data rfl (data_received (not_lt.mp h_whole) (by rw [h_full b]; exact h_fits))
  | push ps b =>
    have hb : b ≠ marker := h_none b (by simp [Receive.held])
    refine ⟨by simp [payloadBooks], fun p _ h_ok _ _ => ⟨fun _ => h_ok.2, h_ok.1, ?_⟩⟩
    simp [payloadBooks, carry, weight, payloadReceived, hb]
  | done b => trivial

/-- Decompression turns what a buffer contains into what it announces. -/
theorem decompress_posts (i : Fin env.decompParallelism) (l : Decomp)
    (h_none : NoMarker Decomp.held l) (h_nodup : (Decomp.held l).Nodup) :
    (payloadBooks env ext).Posts bad ⟨1, i⟩ l (decompress env ext l) := by
  cases l with
  | popIn e =>
    refine ⟨by simp [payloadBooks], fun v p _ _ _ h_valid _ => ?_⟩
    -- the marker carries nothing, a buffer its contents
    by_cases hv : v = marker
    · simp [payloadBooks, Ok, Decomp.Ok, carry, Decomp.carry, weight, hv]
    · simpa [payloadBooks, Ok, Decomp.Ok, carry, Decomp.carry, weight, hv] using h_valid hv rfl
  | inspect e b =>
    intro m h_full h_ok _
    dsimp only
    -- type 0 is forwarded as it is
    split
    · next h_type => exact ⟨h_full, h_type, rfl⟩
    · next h_type => exact ⟨h_full, ⟨h_ok, h_type⟩, rfl⟩
  | forward e b =>
    have hb : b ≠ marker := h_none b (by simp [Decomp.held])
    refine ⟨by simp [payloadBooks], fun p _ h_type _ _ => ⟨fun h => absurd h (by decide), trivial, ?_⟩⟩
    have h_contents : contents ext (p b) = (p b).data := if_pos h_type
    simp [payloadBooks, carry, Decomp.carry, weight, payloadReceived, hb, h_contents]
  | popOut e b =>
    refine ⟨by simp [payloadBooks], fun v p _ h_ok _ _ _ => ⟨h_ok, ?_⟩⟩
    simp [payloadBooks, carry, Decomp.carry, weight]
  | decompress e b o =>
    intro m h_full h_ok _
    obtain ⟨h_decodes, h_type⟩ := h_ok
    obtain ⟨payload, h_length, h_eq, h_data⟩ := h_decodes.decompress h_type (h_full o)
    -- what is received can be decompressed, and not as type 6
    have h_known : (m.pool b).header.compressionType ≠ 6 := fun h => by
      have := h_decodes.known
      omega
    simp only [if_neg h_known, h_eq, zero_ne_one, if_false]
    refine ⟨full_write h_full _ h_length, trivial, ?_⟩
    simp [payloadBooks, carry, Decomp.carry, h_data]
  | errorIn e b o => exact ⟨by simp [payloadBooks], fun p _ h_ok _ _ => h_ok.elim⟩
  | errorOut e o => exact ⟨by simp [payloadBooks], fun p _ h_ok _ _ => h_ok.elim⟩
  | pushOut e b o =>
    have ho : o ≠ marker := h_none o (by simp [Decomp.held])
    refine ⟨by simp [payloadBooks], fun p _ _ _ _ => ⟨fun h => absurd h (by decide), trivial, ?_⟩⟩
    simp [payloadBooks, carry, Decomp.carry, weight, payloadReceived, ho]
  | freeIn e b =>
    refine ⟨by simp [payloadBooks], fun p _ _ _ _ => ⟨fun h => absurd h (by decide), trivial, ?_⟩⟩
    simp [payloadBooks, carry, Decomp.carry, weight, payloadReceived]
  | done => trivial

/-- With `skip_serializer` the serializers hand the payloads on. -/
theorem serialize_posts (h_skip : env.skipSerializer = true) (i : Fin env.serParallelism) (l : Ser)
    (h_none : NoMarker Ser.held l) (h_forwards : l.Forwards) :
    (payloadBooks env ext).Posts bad ⟨2, i⟩ l (serialize env ext l) := by
  cases l with
  | popIn =>
    refine ⟨by simp [payloadBooks], fun v p _ _ _ _ _ => ⟨trivial, ?_⟩⟩
    by_cases hv : v = marker
    · simp [payloadBooks, carry, Ser.carry, weight, hv]
    · simp [payloadBooks, carry, Ser.carry, weight, hv, h_skip]
  | skipPush b =>
    have hb : b ≠ marker := h_none b (by simp [Ser.held])
    refine ⟨by simp [payloadBooks], fun p _ _ _ _ => ⟨fun h => absurd h (by decide), trivial, ?_⟩⟩
    simp [payloadBooks, carry, Ser.carry, weight, payloadReceived, hb]
  | done => trivial
  | _ => exact h_forwards.elim

/-- A write thread writes one payload to its file. -/
theorem payloadsWritten_update {i : ℕ} (hi : i < env.writeParallelism) (w : Files)
    (x : ℤ × List UInt8) :
    payloadsWritten env (Function.update w i (w i ++ [x])) = payloadsWritten env w + {x.2} := by
  have h := sum_update_add (fun _ (xs : List (ℤ × List UInt8)) =>
    ((xs.map Prod.snd : List (List UInt8)) : Multiset (List UInt8))) w (Finset.mem_range.mpr hi)
    (w i ++ [x])
  rw [List.map_append, List.map_singleton, ← Multiset.coe_add, ← add_assoc, add_right_comm] at h
  exact add_right_cancel h

theorem write_posts (i : Fin env.writeParallelism) (l : Write) :
    (payloadBooks env ext).Posts bad ⟨3, i⟩ l (write ext i l) := by
  cases l with
  | start =>
    intro m h_full _ _
    dsimp only
    split <;> exact ⟨h_full, trivial, rfl⟩
  | popIn =>
    refine ⟨by simp [payloadBooks], fun v p _ _ _ _ _ => ⟨trivial, ?_⟩⟩
    by_cases hv : v = marker
    · simp [payloadBooks, carry, Write.carry, weight, hv]
    · simp [payloadBooks, carry, Write.carry, weight, hv]
  | write b =>
    refine fun m h_full _ _ => ⟨h_full, trivial, ?_⟩
    change 0 + payloadsWritten env (Function.update m.world i _)
      = {(m.pool b).data} + payloadsWritten env m.world
    rw [payloadsWritten_update i.2, zero_add, add_comm]
  | free b =>
    refine ⟨by simp [payloadBooks], fun p _ _ _ _ => ⟨fun h => absurd h (by decide), trivial, ?_⟩⟩
    simp [payloadBooks, carry, Write.carry, weight, payloadReceived]
  | done => trivial
  | thrown => exact fun m h_full _ _ => ⟨h_full, trivial, rfl⟩

end Books

/-! ### The client's ledger -/

variable {env : RuntimeEnv} {ext : External}

/-- With `skip_serializer` every thread touches only buffers it holds. -/
theorem prog_careful (h_skip : env.skipSerializer = true) (t : Tid 4 (parallelism env))
    (l : Local t.1) (h_sound : Sound env t l) :
    Careful (held t.1) l ((machine env ext).prog t l) := by
  obtain ⟨k, i⟩ := t
  match k, i, l, h_sound with
  | 0, i, l, _ => exact receive_careful ext i l
  | 1, i, l, _ => exact decompress_careful env ext l
  | 2, i, l, h_sound =>
    have h_forwards : l.Forwards := h_sound.2 h_skip
    change Careful Ser.held l (serialize env ext l)
    cases l with
    | popIn => trivial
    | skipPush b => trivial
    | done => trivial
    | _ => exact h_forwards.elim
  | 3, i, l, _ => exact write_careful ext i l

/-- With `skip_serializer` no buffer is forgotten. -/
theorem not_leaks (h_skip : env.skipSerializer = true) (t : Tid 4 (parallelism env))
    (l : Local t.1) : ¬ leaks env t l := by
  obtain ⟨k, i⟩ := t
  match k, i, l with
  | 0, _, _ => exact id
  | 1, _, _ => exact id
  | 2, _, _ => exact fun h => absurd h.1 (by simp [h_skip])
  | 3, _, _ => exact id

/-- **Every thread of a client that skips the serializer makes a solo run.** One that serializes may
write into buffers it has pushed, so the others cannot rely on theirs. -/
theorem exists_solo_of_reachable (h_skip : env.skipSerializer = true) {s : State (machine env ext)}
    (h : Reachable (machine env ext) never (initial env ext) s) (t : Tid 4 (parallelism env)) :
    ∃ es, Solo 4 (held t.1) ((machine env ext).prog t) (fun _ => False) (startPoint ext t.1)
        (initial env ext).mem es (s.thread t).loc s.mem ∧
      (es.filterMap Event.push).Sublist s.log.reverse :=
  (custody env ext (fun _ _ => False) (not_leaks h_skip)).exists_solo
    (fun t l => prog_careful h_skip t l) h kept_initial (pool_nodup env) t

/-- The run of a receive thread. -/
theorem exists_solo_receive (h_skip : env.skipSerializer = true) {s : State (machine env ext)}
    (h : Reachable (machine env ext) never (initial env ext) s) (i : Fin env.rcvParallelism) :
    ∃ es, Solo 4 Receive.held (receive ext i) (fun _ => False) .start (initial env ext).mem es
        (s.thread ⟨0, i⟩).loc s.mem ∧
      (es.filterMap Event.push).Sublist s.log.reverse :=
  exists_solo_of_reachable h_skip h ⟨0, i⟩

/-- The payloads as a ledger of the client. -/
def payloadLedger (h_skip : env.skipSerializer = true) (h_receives : Receives env ext)
    (bad : (t : Tid 4 (parallelism env)) → Local t.1 → Prop)
    (h_bad : ∀ t l, leaks env t l → bad t l) :
    Ledger (custody env ext bad h_bad) (Multiset (List UInt8)) where
  toBooks := payloadBooks env ext
  weight_marker q b := by simp [payloadBooks, weight]
  debit_marker q b := by simp [payloadBooks, payloadReceived]
  credit_marker _ _ := rfl
  weight_private q v c c' hq := by
    match q, hq with
    | _ + 4, _ => rfl
  valid_private q _ _ _ hq _ h := absurd h (by omega)
  carry_congr := by
    rintro ⟨k, i⟩ l p p' - h
    match k, i, l, h with
    | 0, _, _, _ => rfl
    | 1, _, l, h =>
      cases l <;> simp_all [payloadBooks, carry, Decomp.carry, custody, held, Decomp.held]
    | 2, _, l, h => cases l <;> simp_all [payloadBooks, carry, Ser.carry, custody, held, Ser.held]
    | 3, _, l, h =>
      cases l <;> simp_all [payloadBooks, carry, Write.carry, custody, held, Write.held]
  ok_congr := by
    rintro ⟨k, i⟩ l p p' - h h_ok
    match k, i, l, h, h_ok with
    | 0, _, l, h, h_ok =>
      cases l <;> simp_all [payloadBooks, Ok, Receive.Ok, custody, held, Receive.held]
    | 1, _, l, h, h_ok =>
      cases l <;> simp_all [payloadBooks, Ok, Decomp.Ok, custody, held, Decomp.held]
    | 2, _, _, _, _ => trivial
    | 3, _, _, _, _ => trivial
  careful t l h_wf := prog_careful h_skip t l h_wf
  posts := by
    rintro ⟨k, i⟩ l h_wf h_nodup
    match k, i, l, h_wf, h_nodup with
    | 0, i, l, h_wf, _ => exact receive_posts h_receives i l h_wf
    | 1, i, l, h_wf, h_nodup => exact decompress_posts i l h_wf h_nodup
    | 2, i, l, h_wf, _ => exact serialize_posts h_skip i l h_wf.1.1 (h_wf.2 h_skip)
    | 3, i, l, _, _ => exact write_posts i l

/-- When the threads start, the books are empty. -/
theorem balanced_initial (h_skip : env.skipSerializer = true) (h_receives : Receives env ext)
    {bad : (t : Tid 4 (parallelism env)) → Local t.1 → Prop}
    {h_bad : ∀ t l, leaks env t l → bad t l} :
    (payloadLedger h_skip h_receives bad h_bad).Balanced 0 (initial env ext) where
  fit _ := List.length_replicate
  ok t := by
    obtain ⟨k, i⟩ := t
    match k, i with
    | 0, _ => trivial
    | 1, _ => trivial
    | 2, _ => trivial
    | 3, _ => trivial
  valid q v hv := by
    rintro - rfl
    cases hv
  total := by
    -- no thread has anything in hand, and only free buffers are queued
    have h_carry : ∀ t : Tid 4 (parallelism env),
        carry env ext t (startPoint ext t.1) (fun _ => emptyBuffer env) = 0 := by
      rintro ⟨k, i⟩
      match k, i with
      | 0, _ => rfl
      | 1, _ => rfl
      | 2, _ => rfl
      | 3, _ => rfl
    have h_queue : ∀ q : ℕ, (payloadBooks env ext).queueWorth (fun _ => emptyBuffer env) q
        (initialQueue env q) = 0 := by
      intro q
      match q with
      | 0 => exact List.sum_eq_zero (by simp [payloadBooks, weight])
      | _ + 1 => rfl
    have h_out : payloadsWritten env (fun _ => []) = 0 := Finset.sum_eq_zero fun i _ => rfl
    change ∑ q ∈ Finset.range 4, (payloadBooks env ext).queueWorth (fun _ => emptyBuffer env) q
        (initialQueue env q)
      + ∑ t, carry env ext t (startPoint ext t.1) (fun _ => emptyBuffer env)
      + payloadsWritten env (fun _ => []) + 0 = 0 + 0
    rw [Finset.sum_eq_zero fun q _ => h_queue q, Finset.sum_eq_zero fun t _ => h_carry t, h_out]
    rfl

/-- A thread that has stopped carries nothing. -/
theorem carry_stopped {t : Tid 4 (parallelism env)} {l : Local t.1}
    (h_stopped : (machine env ext).prog t l = .leave ∨ (machine env ext).prog t l = .quit)
    (p : ℤ → Buffer) : carry env ext t l p = 0 := by
  obtain ⟨k, i⟩ := t
  match k, i, l, h_stopped with
  | 0, _, _, _ => rfl
  -- a thread that stops has passed on what it had
  | 1, i, l, h_stopped =>
    change decompress env ext l = .leave ∨ decompress env ext l = .quit at h_stopped
    cases l with
    | done => rfl
    | _ => simp [decompress] at h_stopped
  | 2, i, l, h_stopped =>
    change serialize env ext l = .leave ∨ serialize env ext l = .quit at h_stopped
    cases l with
    | skipPush b => simp [serialize] at h_stopped
    | _ => rfl
  | 3, i, l, h_stopped =>
    change write ext i l = .leave ∨ write ext i l = .quit at h_stopped
    cases l with
    | write b => simp [write] at h_stopped
    | _ => rfl

/-- **Every payload is written once.** With `skip_serializer`, once the write threads have exited,
what they have written are the payloads of the buffers the receive threads have pushed, each of them
once and with the size its header announces. -/
theorem payloads_written (h_staff : Staffed env) (h_connected : Connected env ext)
    (h_skip : env.skipSerializer = true) (h_receives : Receives env ext)
    {s : State (machine env ext)}
    (h_run : Reachable (machine env ext) never (initial env ext) s)
    (h_exited : ∀ i, (s.thread ⟨3, i⟩).Exited) :
    payloadsWritten env s.mem.world = (s.log.map (payloadReceived ext)).sum ∧
      ∀ e ∈ s.log, e.queue = 1 → e.item ≠ marker →
        (contents ext e.content).length = contentSize e.content.header := by
  have h_bad : ∀ (t : Tid 4 (parallelism env)) l, leaks env t l → False := not_leaks h_skip
  obtain ⟨h_kept, h_handed⟩ := (signals h_connected _ h_bad).handed h_run kept_initial
    (handed_initial h_staff h_connected)
  obtain ⟨h_empty, h_stopped⟩ := h_handed.drain (signals h_connected _ h_bad)
    (signals_clean h_connected) h_kept h_staff.pos fun t ht => by
    obtain ⟨k, i⟩ := t
    obtain rfl : k = 3 := Fin.ext (by simpa using ht)
    exact h_exited i
  have h_start : (payloadLedger h_skip h_receives _ h_bad).Balanced 0 (initial env ext) :=
    balanced_initial h_skip h_receives
  have h_total := (Ledger.balanced h_run kept_initial (pool_nodup env) h_start
    fun _ _ => trivial).total
  have h_logged := Ledger.logged h_run kept_initial (pool_nodup env) h_start rfl fun _ => trivial
  have h_queue : ∀ q : ℕ, (payloadBooks env ext).queueWorth s.mem.pool q (s.queue q) = 0 := by
    intro q
    refine List.sum_eq_zero fun x hx => ?_
    obtain ⟨v, hv, rfl⟩ := List.mem_map.mp hx
    by_cases hq : 0 < q ∧ q < 4
    · -- only end markers are left
      have h_marker : v = marker := by
        by_contra h_ne
        have h_mem := mem_ids.mpr ⟨hv, h_ne⟩
        rw [h_empty q hq.1 hq.2] at h_mem
        exact absurd h_mem (Multiset.notMem_zero v)
      simp [payloadBooks, weight, h_marker]
    · simp only [payloadBooks, weight]
      split
      · rfl
      · match q, hq with
        | 0, _ => rfl
        | _ + 4, _ => rfl
  have h_carry : ∀ t, carry env ext t (s.thread t).loc s.mem.pool = 0 := fun t =>
    carry_stopped (h_stopped t) _
  have h_credits : (payloadBooks env ext).credits s.log = 0 :=
    List.sum_eq_zero fun x hx => by
      obtain ⟨e, -, rfl⟩ := List.mem_map.mp hx
      rfl
  refine ⟨?_, fun e he h_one h_ne => (h_logged e he h_ne h_one).length⟩
  change ∑ q ∈ Finset.range 4, (payloadBooks env ext).queueWorth s.mem.pool q (s.queue q)
    + ∑ t, carry env ext t (s.thread t).loc s.mem.pool + payloadsWritten env s.mem.world
    + (payloadBooks env ext).credits s.log = 0 + (s.log.map (payloadReceived ext)).sum at h_total
  rwa [Finset.sum_eq_zero fun q _ => h_queue q, Finset.sum_eq_zero fun t _ => h_carry t, h_credits,
    add_zero, zero_add, zero_add, zero_add] at h_total

/-- The small client without serializer. -/
def skipEnv : RuntimeEnv := { smallEnv with skipSerializer := true }

/-- The server sends a compressed buffer and one that is not. -/
def mixedStream : External where
  received _ := [zstdPacket, ⟨{ totalSize := 4, totalTuples := 1, intermediateFormat := 1 },
    [8, 0, 0, 0]⟩]
  decoders := storingDecoders

theorem receives_mixedStream : Receives skipEnv mixedStream := by
  intro i _ p hp _
  have h_zstd : ∀ dst, decompressWith storingDecoders dst zstdPacket.body 13 skipEnv.payloadSize 1
      = (0, put dst 0 [7, 0, 0, 0]) := fun _ => rfl
  simp only [mixedStream, List.mem_cons, List.not_mem_nil, or_false] at hp
  obtain rfl | rfl := hp
  · refine ⟨by decide, by decide, by decide, fun _ dst => ?_, by decide, by decide⟩
    change (decompressWith storingDecoders dst zstdPacket.body 13 skipEnv.payloadSize 1).1 ≠ 1
    rw [h_zstd]
    exact zero_ne_one
  · exact ⟨by decide, by decide, by decide, fun h => absurd rfl h, by decide, by decide⟩

/-- The buffers go through the stages one after the other. -/
def skipRun : List (Tid 4 (parallelism skipEnv)) :=
  let r : Tid 4 (parallelism skipEnv) := worker 0 0
  let d : Tid 4 (parallelism skipEnv) := worker 1 0
  let s : Tid 4 (parallelism skipEnv) := worker 2 0
  let w : Tid 4 (parallelism skipEnv) := worker 3 0
  .replicate 3 r ++ .replicate 6 d ++ .replicate 2 s ++ .replicate 4 w ++ .replicate 3 r ++
    .replicate 3 d ++ .replicate 2 s ++ .replicate 3 w ++ .replicate 6 r ++ .replicate 5 d ++
    .replicate 5 s ++ .replicate 2 w

/-- Both payloads of the stream are written. -/
theorem payloads_written_skipEnv :
    ∃ s, Reachable (machine skipEnv mixedStream) never (initial skipEnv mixedStream) s ∧
      (s.mem.world 0).map Prod.snd = [[7, 0, 0, 0], [8, 0, 0, 0]] ∧
      payloadsWritten skipEnv s.mem.world = (s.log.map (payloadReceived mixedStream)).sum := by
  obtain ⟨s, h_run, h_written, h_exited⟩ := exists_reachable skipEnv mixedStream
    (fun _ _ => False) (initial skipEnv mixedStream) skipRun
    (fun s => (s.mem.world 0).map Prod.snd = [[7, 0, 0, 0], [8, 0, 0, 0]] ∧
      ∀ i : Fin 1, (s.thread ⟨3, i⟩).Exited) (by decide +kernel)
  exact ⟨s, h_run, h_written, (payloads_written ⟨by decide, by decide, by decide, by decide⟩
    (fun _ _ => rfl) rfl receives_mixedStream h_run h_exited).1⟩

end Xdbc.Client
