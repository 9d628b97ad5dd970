import Xdbc.Wire

/-!
# Bad headers

`XClient::receive` compares the type of compression and the size in a header with what it can take,
and reports a header that is bad. It then reads the body all the same, as many bytes as the header
says, and pushes the buffer. So all depends on the peer: nothing bad happens if and only if every
frame of the stream has a good header, or is the last one and is cut off before its body has filled
the payload (`receive_rejects_iff`).
-/

namespace Xdbc.Client

open Bytes Pipeline

variable (env : RuntimeEnv)

/-- The header passes the check. -/
structure InRange (header : Header) : Prop where
  compressionType : header.compressionType ≤ 6
  totalSize : header.totalSize ≤ env.payloadSize

/-- The body that is read next stays inside the payload. -/
def Receive.ReadsInside : Receive → Prop
  | .readSocket (x :: _) _ => (x.body.take x.header.totalSize).length ≤ env.payloadSize
  | _ => True

/-- Whatever the threads and the pool do, the receive thread reads this stream without leaving a
payload, and pushes only buffers whose header passes the check. -/
def Rejects (segments : List (List UInt8)) : Prop :=
  ∀ (ext : External) (thr : ℕ), ext.connects thr = true → ext.received thr = packets segments →
    ∀ (m₀ m : Memory Buffer Files) (es : List (Event Buffer)) (l : Receive),
      Solo 4 Receive.held (receive ext thr) (fun _ => False) .start m₀ es l m →
      l.ReadsInside env ∧ ∀ b ∈ Event.outputs 1 es, InRange env b.header

/-- A packet does no harm: its header passes the check, or it is cut off inside the payload. -/
def Harmless (x : Packet) : Prop :=
  if x.header.totalSize ≤ x.body.length then InRange env x.header
  else x.body.length ≤ env.payloadSize

variable {env}

theorem Harmless.inRange {x : Packet} (h : Harmless env x)
    (h_whole : x.header.totalSize ≤ x.body.length) : InRange env x.header := by
  rwa [Harmless, if_pos h_whole] at h

theorem Harmless.reads {x : Packet} (h : Harmless env x) :
    (x.body.take x.header.totalSize).length ≤ env.payloadSize := by
  rw [List.length_take]
  by_cases h_whole : x.header.totalSize ≤ x.body.length
  · exact (min_le_left _ _).trans (h.inRange h_whole).totalSize
  · rw [Harmless, if_neg h_whole] at h
    exact (min_le_right _ _).trans h

/-! ### A harmless stream -/

section Runs

variable {ext : External} {thr : ℕ}

/-- What remains of the stream is harmless, and so is the buffer in hand. -/
def Receive.Safe (env : RuntimeEnv) (p : ℤ → Buffer) : Receive → Prop
  | .start => True
  | .popFree ps => ∀ x ∈ ps, Harmless env x
  | .readSocket ps _ => ∀ x ∈ ps, Harmless env x
  | .push ps b => InRange env (p b).header ∧ ∀ x ∈ ps, Harmless env x
  | .done _ => True

/-- **What is read and pushed of a harmless stream is in range.** -/
theorem receive_safe (h_received : ∀ x ∈ ext.received thr, Harmless env x)
    {m₀ m : Memory Buffer Files} {es : List (Event Buffer)} {l : Receive}
    (h : Solo 4 Receive.held (receive ext thr) (fun _ => False) .start m₀ es l m) :
    l.Safe env m.pool ∧ ∀ b ∈ Event.outputs 1 es, InRange env b.header := by
  induction h with
  | start => exact ⟨trivial, List.forall_mem_nil _⟩
  | @others es l m m' _ h_own ih =>
    refine ⟨?_, ih.2⟩
    -- only a buffer that is about to be pushed is looked at
    cases l with
    | push ps b =>
      rw [Receive.Safe, h_own b (Multiset.mem_singleton_self b)]
      exact ih.1
    | _ => exact ih.1
  | @pop es l m q k v _ hop _ _ _ ih =>
    rw [Event.outputs_popped]
    refine ⟨?_, ih.2⟩
    cases l with
    | start =>
      simp only [receive] at hop
      split at hop
      · cases hop
        exact h_received
      · cases hop
    | popFree ps =>
      cases hop
      exact ih.1
    | readSocket ps b => cases ps <;> cases hop
    | _ => cases hop
  | @push es l m q v l' _ hop _ ih =>
    cases l with
    -- what is pushed is the buffer just filled
    | push ps b =>
      cases hop
      obtain ⟨⟨h_range, h_rest⟩, h_out⟩ := ih
      rw [Event.outputs_pushed, List.forall_mem_append]
      exact ⟨h_rest, h_out, List.forall_mem_singleton.mpr h_range⟩
    | start =>
      simp only [receive] at hop
      split at hop <;> cases hop
    | readSocket ps b => cases ps <;> cases hop
    | _ => cases hop
  | @work es l m bs f _ hop _ ih =>
    refine ⟨?_, ih.2⟩
    cases l with
    | readSocket ps b =>
      cases ps with
      | nil =>
        cases hop
        trivial
      | cons x ps =>
        cases hop
        obtain ⟨h_first, h_rest⟩ := List.forall_mem_cons.mp ih.1
        dsimp only
        -- a packet cut off ends the thread, a whole one is in the buffer with its header
        split
        · trivial
        · next h_whole =>
          refine ⟨?_, h_rest⟩
          rw [Memory.write_pool_self]
          exact h_first.inRange (Nat.not_lt.mp h_whole)
    | start =>
      simp only [receive] at hop
      split at hop <;> cases hop
    | _ => cases hop

/-! ### A harmful one -/

/-- Every packet is read in some run. -/
theorem exists_solo_readSocket (h_connects : ext.connects thr = true) (m₀ : Memory Buffer Files)
    {before after : List Packet} (h_received : ext.received thr = before ++ after)
    (h_whole : ∀ x ∈ before, x.header.totalSize ≤ x.body.length) :
    ∃ es m, Solo 4 Receive.held (receive ext thr) (fun _ => False) .start m₀ es
      (.readSocket after 0) m := by
  -- induction on the packets that have been read
  induction before using List.reverseRecOn generalizing after with
  | nil =>
    have h_none : Solo 4 Receive.held (receive ext thr) (fun _ => False) .start m₀ [] .start m₀ :=
      .start
    have h_pop := h_none.pop (v := 0) (if_pos h_connects) (fun _ => by decide)
      (fun _ _ => Multiset.notMem_zero _) id
    rw [h_received, List.nil_append] at h_pop
    exact ⟨_, _, h_pop⟩
  | append_singleton before x ih =>
    rw [List.append_assoc, List.singleton_append] at h_received
    obtain ⟨h_before, h_last⟩ := List.forall_mem_append.mp h_whole
    obtain ⟨es, m, h_run⟩ := ih h_received h_before
    have h_read := h_run.work rfl id
    dsimp only at h_read
    rw [if_neg (Nat.not_lt.mpr (h_last x (List.mem_singleton_self x)))] at h_read
    have h_push := (h_read.push rfl id).pop (v := 0) rfl (fun _ => by decide)
      (fun _ _ => Multiset.notMem_zero _) id
    exact ⟨_, _, h_push⟩

/-- The packet that is read next does no harm if the stream is read safely. -/
theorem Rejects.harmless {segments : List (List UInt8)} (h : Rejects env segments) :
    ∀ x ∈ packets segments, Harmless env x := by
  intro x hx
  obtain ⟨before, after, h_split⟩ := List.append_of_mem hx
  -- all packets in front of it are whole
  have h_whole : ∀ y ∈ before, y.header.totalSize ≤ y.body.length := by
    intro y hy
    have h_frames := congrArg (List.map packetFrame) h_split
    rw [packets, List.map_map, show packetFrame ∘ (fun f : Frame Header =>
      (⟨f.header, f.body⟩ : Packet)) = id from rfl, List.map_id, List.map_append,
      List.map_cons] at h_frames
    exact wireFormat.whole_of_readFrames h_frames _ (List.mem_map_of_mem hy)
  let ext : External := { decoders := storingDecoders, received := fun _ => packets segments }
  let m₀ : Memory Buffer Files := ⟨fun _ => ⟨{}, []⟩, fun _ => []⟩
  have h_connects : ext.connects 0 = true := rfl
  obtain ⟨es, m, h_run⟩ := exists_solo_readSocket h_connects m₀ h_split h_whole
  have h_reads := (h ext 0 rfl rfl m₀ m es _ h_run).1
  rw [Harmless]
  split
  · next h_complete =>
    have h_read := h_run.work rfl id
    dsimp only at h_read
    rw [if_neg (Nat.not_lt.mpr h_complete)] at h_read
    have h_out := (h ext 0 rfl rfl m₀ _ _ _ (h_read.push rfl id)).2
    rw [Event.outputs_pushed] at h_out
    have h_last := h_out _ (List.mem_append_right _ (List.mem_singleton_self _))
    rwa [Memory.write_pool_self] at h_last
  · next h_cut =>
    change (x.body.take x.header.totalSize).length ≤ _ at h_reads
    rw [List.length_take] at h_reads
    omega

/-- **The receiver rejects what it must if and only if there is nothing to reject**: every frame of
the stream has a header that passes the check, or is cut off inside the payload. -/
theorem receive_rejects_iff (env : RuntimeEnv) (segments : List (List UInt8)) :
    Rejects env segments ↔ ∀ x ∈ packets segments, Harmless env x := by
  refine ⟨Rejects.harmless, fun h ext thr _ h_received m₀ m es l h_run => ?_⟩
  rw [← h_received] at h
  obtain ⟨h_safe, h_out⟩ := receive_safe h h_run
  refine ⟨?_, h_out⟩
  cases l with
  | readSocket ps b =>
    cases ps with
    | nil => trivial
    | cons x ps => exact (h_safe x List.mem_cons_self).reads
  | _ => trivial

end Runs

/-- A header with an unknown type of compression, and no body. -/
def unknownHeader : List UInt8 := headerBytes { compressionType := 7 }

/-- The buffer is pushed, although the header is bad. -/
theorem receive_not_rejects : ¬ Rejects smallEnv [unknownHeader] := by
  intro h
  have h_packets : packets [unknownHeader] = [⟨{ compressionType := 7 }, []⟩] := by decide +kernel
  have h_first := h.harmless ⟨{ compressionType := 7 }, []⟩ (by rw [h_packets]; exact .head _)
  exact absurd (h_first.inRange (Nat.zero_le _)).compressionType (by decide)

end Xdbc.Client
