import Xdbc.Client.Ownership
import Xdbc.Pipeline.Regroup

/-!
# What a decompressed buffer depends on

Two decompression threads receive the same buffers, but the pool may have held other bytes before,
and so may the memory of the variable `decompError`, which is declared in front of the loop.

What the thread decides about a buffer is what it pushes next (`decisions`). It depends only on the
buffer, and so does the content of a buffer that is forwarded (`decompress_decides`), unless the
buffer has type 6: nothing is assigned to `decompError` then, and nothing is written to the output
buffer. So the thread is as it should be exactly for sequences without such a buffer
(`decompressed_iff`).
-/

namespace Xdbc.Client

open Bytes Pipeline

/-! ### Decisions -/

/-- What follows from an event: a buffer that has been popped from the queue of compressed buffers is
answered by the next push, which forwards a buffer or returns it. -/
def answer (acc : Bool × List (Option Buffer)) : Event Buffer → Bool × List (Option Buffer)
  | .popped q v _ => if q = 1 ∧ v ≠ marker then (true, acc.2) else acc
  | .pushed e =>
    if acc.1 then (false, acc.2 ++ [if e.queue = 2 then some e.content else none]) else acc

/-- The answers of a run, and whether one is still to come. -/
def answers (es : List (Event Buffer)) : Bool × List (Option Buffer) := es.foldl answer (false, [])

/-- For each buffer received, the buffer that is forwarded, `none` if it is dropped. -/
def decisions (es : List (Event Buffer)) : List (Option Buffer) := (answers es).2

theorem answers_append (es : List (Event Buffer)) (x : Event Buffer) :
    answers (es ++ [x]) = answer (answers es) x := by
  rw [answers, List.foldl_append]
  rfl

/-- Two buffers hold the same data. -/
structure Same (b x : Buffer) : Prop where
  header : b.header = x.header
  data : b.data = x.data

/-- Two buffers that are forwarded do not differ. -/
structure SameOutput (b b' : Buffer) : Prop where
  totalSize : b.header.totalSize = b'.header.totalSize
  totalTuples : b.header.totalTuples = b'.header.totalTuples
  intermediateFormat : b.header.intermediateFormat = b'.header.intermediateFormat
  data : b.data = b'.data

section Property

variable (env : RuntimeEnv) (ext : External)

/-- A run of `decompress` that begins with any value of `decompError` and any pool. -/
def DecompRun (es : List (Event Buffer)) (l : Decomp) : Prop :=
  Takes 0 (Full env) es ∧ ∃ (e : ℤ) (m₀ m : Memory Buffer Unit),
    Solo 4 Decomp.held (decompress env ext) (fun _ => False) (.popIn e) m₀ es l m

/-- What the run has received is `xs`, as far as it goes. -/
def ReceivesBuffers (xs : List Buffer) (es : List (Event Buffer)) : Prop :=
  ∃ k, List.Forall₂ Same (Event.inputs 1 es) (xs.take k)

/-- Any two runs that receive `xs` make the same decisions, and forward the same data. -/
def DeterminedBy (xs : List Buffer) : Prop :=
  ∀ es l es' l', DecompRun env ext es l → DecompRun env ext es' l' →
    ReceivesBuffers xs es → ReceivesBuffers xs es' →
    (∀ (i : ℕ) d d', (decisions es)[i]? = some d → (decisions es')[i]? = some d' →
      Option.Rel SameOutput d d') ∧
    ((Event.inputs 1 es).length = (Event.inputs 1 es').length → l = .done → l' = .done →
      (decisions es).length = (decisions es').length)

/-- The error status tested for the buffer `x` does not stem from an earlier buffer: whatever a run
has received before, it makes the same decision. -/
def OwnStatus (x : Buffer) : Prop :=
  ∀ es l es' l', DecompRun env ext es l → DecompRun env ext es' l' →
    ∀ (i j : ℕ) c c' d d', (Event.inputs 1 es)[i]? = some c → Same c x →
      (Event.inputs 1 es')[j]? = some c' → Same c' x →
      (decisions es)[i]? = some d → (decisions es')[j]? = some d' → d.isSome = d'.isSome

end Property

/-! ### One buffer -/

section Decide

variable (env : RuntimeEnv) (ext : External)

/-- The decision for a buffer that is not of type 6. -/
def Decides (c : Buffer) (d : Option Buffer) : Prop :=
  c.header.compressionType ≠ 6 →
    if c.header.compressionType = 0 then d = some c
    else ∃ dst : List UInt8, dst.length = env.payloadSize ∧
      let r := decompressWith ext.decoders dst c.payload c.header.totalSize env.payloadSize
        (c.header.compressionType % 2 ^ 32)
      d = if r.1 = 1 then none else some ⟨newHeader c.header, r.2⟩

/-- What a decoder has written can be read as far as there is room for it. -/
theorem take_put (xs bs : List UInt8) : (put xs 0 bs).take bs.length = bs.take xs.length := by
  refine List.ext_getElem? fun i => ?_
  rw [List.getElem?_take, getElem?_put, List.getElem?_take]
  by_cases h_data : i < bs.length
  · by_cases h_room : i < xs.length
    · rw [if_pos h_data, if_pos h_room, if_pos (by omega), Nat.sub_zero]
    · rw [if_pos h_data, if_neg h_room, if_neg (by omega)]
      exact List.getElem?_eq_none (by omega)
  · rw [if_neg h_data]
    split
    · exact (List.getElem?_eq_none (by omega)).symm
    · rfl

/-- Whether a decompression is an error depends on the data only. -/
theorem decompressWith_code (lib : Decoders) {src src' : List UInt8} {inSize : ℕ}
    (h : src.take inSize = src'.take inSize) (dst dst' : List UInt8) (outSize method : ℕ) :
    (decompressWith lib dst src inSize outSize method).1
      = (decompressWith lib dst' src' inSize outSize method).1 := by
  unfold decompressWith
  -- every decoder looks at `inSize` bytes of the input and at no byte of the output
  split
  · unfold decompressZstd
    rw [h]
    split <;> rfl
  · unfold decompressSnappy
    rw [h]
    split <;> rfl
  · unfold decompressLzo
    rw [h]
    split <;> rfl
  · unfold decompressLz4
    rw [h]
    split <;> rfl
  · unfold decompressZlib
    rw [h]
    split <;> rfl
  · rfl

variable {env ext} {c c' x : Buffer} {d d' : Option Buffer}

/-- A codec that succeeds writes `uncompressedSize` bytes. -/
def CodecSizes (ext : External) (x : Buffer) : Prop :=
  ∀ e, ext.decoders.decode (x.header.compressionType % 2 ^ 32) x.data = some e →
    e.length = x.header.uncompressedSize

/-- **The decision and the data depend on the buffer only.** -/
theorem Decides.rel (h_codec : CodecSizes ext x) (h_type : x.header.compressionType ≠ 6)
    (hc : Same c x) (hc' : Same c' x) (hd : Decides env ext c d) (hd' : Decides env ext c' d') :
    Option.Rel SameOutput d d' := by
  have h_header : c.header = c'.header := hc.header.trans hc'.header.symm
  have h_data : c.data = c'.data := hc.data.trans hc'.data.symm
  rw [← hc.header] at h_type
  have hd := hd h_type
  have hd' := hd' (h_header ▸ h_type)
  rw [← h_header] at hd'
  -- type 0 hands the data on, for every other type the decoder is called
  by_cases h_zero : c.header.compressionType = 0
  · rw [if_pos h_zero] at hd hd'
    subst hd hd'
    exact .some ⟨congrArg _ h_header, congrArg _ h_header, congrArg _ h_header, h_data⟩
  · rw [if_neg h_zero] at hd hd'
    obtain ⟨dst, h_length, rfl⟩ := hd
    obtain ⟨dst', h_length', rfl⟩ := hd'
    have h_src : c.payload.take c.header.totalSize = c'.payload.take c.header.totalSize := by
      conv_rhs => rw [h_header]
      exact h_data
    -- the two output buffers may differ, the decoder's answer does not
    have h_code := decompressWith_code ext.decoders h_src dst dst' env.payloadSize
      (c.header.compressionType % 2 ^ 32)
    rw [← h_code]
    split
    · exact .none
    · next h_ok =>
      refine .some ⟨rfl, rfl, rfl, ?_⟩
      obtain ⟨e, h_decode, h_eq⟩ := eq_put_of_decompressWith h_ok
      obtain ⟨e', h_decode', h_eq'⟩ := eq_put_of_decompressWith (h_code ▸ h_ok)
      rw [h_src, h_decode', Option.some.injEq] at h_decode
      subst h_decode
      -- and what it has decoded fills the announced size
      have h_size : e'.length = c.header.uncompressedSize := by
        rw [hc.header]
        refine h_codec e' ?_
        rw [← hc.header, ← hc.data, h_data, Buffer.data, ← h_header]
        exact h_decode'
      rw [h_eq, h_eq', Buffer.data, Buffer.data]
      change (put dst 0 e').take c.header.uncompressedSize
        = (put dst' 0 e').take c.header.uncompressedSize
      rw [← h_size, take_put, take_put, h_length, h_length']

end Decide

/-! ### The law of the thread -/

section Law

variable (env : RuntimeEnv) (ext : External)

/-- The buffer `c` has been received and is still to be answered. -/
def Decomp.Pending (p : ℤ → Buffer) (c : Buffer) : Decomp → Prop
  | .inspect _ b => p b = c
  | .forward _ b => p b = c ∧ c.header.compressionType = 0
  | .popOut _ b => p b = c ∧ c.header.compressionType ≠ 0
  | .decompress _ b o => p b = c ∧ c.header.compressionType ≠ 0 ∧ Full env (p o)
  | .errorIn _ _ _ => Decides env ext c none
  | .pushOut _ _ o => Decides env ext c (some (p o))
  | _ => False

/-- All buffers received have been answered. -/
def Decomp.Idle : Decomp → Prop
  | .popIn _ => True
  | .errorOut _ _ => True
  | .freeIn _ _ => True
  | .done => True
  | _ => False

/-- Every buffer received has its decision, except for the one in hand. -/
inductive Decided (p : ℤ → Buffer) (es : List (Event Buffer)) (l : Decomp) : Prop where
  | idle (h_idle : l.Idle) (h_closed : (answers es).1 = false)
      (h_all : List.Forall₂ (Decides env ext) (Event.inputs 1 es) (decisions es))
  | pending (ins : List Buffer) (c : Buffer) (h_in : Event.inputs 1 es = ins ++ [c])
      (h_open : (answers es).1 = true) (h_all : List.Forall₂ (Decides env ext) ins (decisions es))
      (h_pending : l.Pending env ext p c)

variable {env ext} {p p' : ℤ → Buffer} {es : List (Event Buffer)} {l l' : Decomp} {c : Buffer}

theorem Decomp.Pending.congr (h_own : ∀ b ∈ l.held, p' b = p b) (h : l.Pending env ext p c) :
    l.Pending env ext p' c := by
  cases l with
  | inspect e b => exact (h_own b (by simp [held])).trans h
  | forward e b => exact ⟨(h_own b (by simp [held])).trans h.1, h.2⟩
  | popOut e b => exact ⟨(h_own b (by simp [held])).trans h.1, h.2⟩
  | decompress e b o =>
    refine ⟨(h_own b (by simp [held])).trans h.1, h.2.1, ?_⟩
    rw [h_own o (by simp [held])]
    exact h.2.2
  | pushOut e b o =>
    rw [Pending, h_own o (by simp [held])]
    exact h
  | errorIn e b o => exact h
  | _ => exact h.elim

/-- The buffer in hand is answered. -/
theorem Decided.push (h : Decided env ext p es l) {d : Option Buffer} {e : Push Buffer}
    (hl : ¬ l.Idle) (h_idle : l'.Idle) (hd : ∀ c, l.Pending env ext p c → Decides env ext c d)
    (h_push : (if e.queue = 2 then some e.content else none) = d) :
    Decided env ext p (es ++ [.pushed e]) l' := by
  cases h with
  | idle h_idle _ _ => exact absurd h_idle hl
  | pending ins c h_in h_open h_all h_pending =>
    have h_answers : answers (es ++ [.pushed e]) = (false, (answers es).2 ++ [d]) := by
      rw [answers_append, answer, if_pos h_open, h_push]
    refine .idle h_idle (by rw [h_answers]) ?_
    rw [Event.inputs_pushed, h_in, decisions, h_answers]
    exact List.rel_append h_all (.cons (hd c h_pending) .nil)

/-- A buffer is returned that has been answered. -/
theorem Decided.push_idle (h : Decided env ext p es l) {e : Push Buffer}
    (h_none : ∀ c, ¬ l.Pending env ext p c) (h_idle : l'.Idle) :
    Decided env ext p (es ++ [.pushed e]) l' := by
  cases h with
  | idle _ h_closed h_all =>
    have h_answers : answers (es ++ [.pushed e]) = answers es := by
      rw [answers_append, answer, if_neg (by rw [h_closed]; exact Bool.false_ne_true)]
    refine .idle h_idle (by rw [h_answers]; exact h_closed) ?_
    rw [Event.inputs_pushed, decisions, h_answers]
    exact h_all
  | pending ins c h_in h_open h_all h_pending => exact absurd h_pending (h_none c)

/-- The thread goes on with the buffer in hand. -/
theorem Decided.work (h : Decided env ext p es l) (hl : ¬ l.Idle)
    (h_next : ∀ c, l.Pending env ext p c → l'.Pending env ext p' c) :
    Decided env ext p' es l' := by
  cases h with
  | idle h_idle _ _ => exact absurd h_idle hl
  | pending ins c h_in h_open h_all h_pending =>
    exact .pending ins c h_in h_open h_all (h_next c h_pending)

/-- **The law of `decompress`**: every buffer gets the decision that is due to it. -/
theorem decompress_decides {σ : Type} {e₀ : ℤ} {m₀ m : Memory Buffer σ}
    (h : Solo 4 Decomp.held (decompress env ext) (fun _ => False) (.popIn e₀) m₀ es l m) :
    Takes 0 (Full env) es → Decided env ext m.pool es l := by
  induction h with
  | start => exact fun _ => .idle trivial rfl .nil
  | @others es l m m' _ h_own ih =>
    intro h_free
    cases ih h_free with
    | idle h_idle h_closed h_all => exact .idle h_idle h_closed h_all
    | pending ins c h_in h_open h_all h_pending =>
      exact .pending ins c h_in h_open h_all (h_pending.congr h_own)
  | @pop es l m q k v _ hop h_ok h_new _ ih =>
    intro h_free
    have ih := ih h_free.of_append
    cases l with
    | popIn e =>
      cases hop
      cases ih with
      | pending ins c h_in h_open h_all h_pending => exact h_pending.elim
      | idle _ h_closed h_all =>
        -- whether a marker or a buffer was popped
        dsimp only
        by_cases hv : v = marker
        · subst hv
          have h_answers : answers (es ++ [.popped 1 marker (m.pool marker)]) = answers es := by
            rw [answers_append, answer, if_neg fun h => h.2 rfl]
          rw [if_pos rfl]
          refine .idle trivial (by rw [h_answers]; exact h_closed) ?_
          rw [Event.inputs_popped_marker, decisions, h_answers]
          exact h_all
        · have h_answers : answers (es ++ [.popped 1 v (m.pool v)]) = (true, (answers es).2) := by
            rw [answers_append, answer, if_pos ⟨rfl, hv⟩]
          rw [if_neg hv]
          refine .pending (Event.inputs 1 es) (m.pool v) (Event.inputs_popped hv)
            (by rw [h_answers]) ?_ rfl
          rw [decisions, h_answers]
          exact h_all
    -- the buffer to decompress into carries a full payload, as every free one does
    | popOut e b =>
      cases hop
      cases ih with
      | idle h_idle _ _ => exact h_idle.elim
      | pending ins c h_in h_open h_all h_pending =>
        have h_answers : answers (es ++ [.popped 0 v (m.pool v)]) = answers es := by
          rw [answers_append, answer, if_neg fun h => absurd h.1 (by decide)]
        refine .pending ins c ?_ (by rw [h_answers]; exact h_open) ?_
          ⟨h_pending.1, h_pending.2, h_free.popped (h_ok rfl)⟩
        · rw [Event.inputs_popped_of_ne (by decide)]
          exact h_in
        · rw [decisions, h_answers]
          exact h_all
    | _ => cases hop
  | @push es l m q v l' _ hop _ ih =>
    intro h_free
    have ih := ih h_free.of_append
    cases l with
    | forward e b =>
      cases hop
      refine ih.push id trivial (fun c hc h_type => ?_) rfl
      rw [if_pos hc.2, hc.1]
      rfl
    | errorIn e b o =>
      cases hop
      exact ih.push id trivial (fun c hc => hc) rfl
    | errorOut e o =>
      cases hop
      exact ih.push_idle (fun c => id) trivial
    | pushOut e b o =>
      cases hop
      exact ih.push id trivial (fun c hc => hc) rfl
    | freeIn e b =>
      cases hop
      exact ih.push_idle (fun c => id) trivial
    | _ => cases hop
  | @work es l m bs f _ hop _ ih =>
    intro h_free
    have ih := ih h_free
    cases l with
    -- type 0 is forwarded as it is, every other type goes to the decompressor
    | inspect e b =>
      cases hop
      refine ih.work id fun c hc => ?_
      dsimp only
      rw [show m.pool b = c from hc]
      split
      · next h_zero => exact ⟨hc, h_zero⟩
      · next h_type => exact ⟨hc, h_type⟩
    | decompress e b o =>
      cases hop
      refine ih.work id fun c hc => ?_
      obtain ⟨rfl, h_type, h_full⟩ := hc
      dsimp only
      -- the server sends type 6 with the contents untouched: no decoder knows it
      by_cases h_six : (m.pool b).header.compressionType = 6
      · rw [if_pos h_six]
        split <;> exact fun h => absurd h_six h
      · rw [if_neg h_six]
        split
        · next h_error =>
          -- the decoder failed: the buffer is given back unread
          intro _
          rw [if_neg h_type]
          exact ⟨_, h_full, (if_pos h_error).symm⟩
        · next h_ok =>
          -- the decoded contents fill the buffer that goes on
          intro _
          rw [if_neg h_type, Memory.write_pool_self]
          exact ⟨_, h_full, (if_neg h_ok).symm⟩
    | _ => cases hop

/-- The decision for a buffer of a run. -/
theorem Decided.get (h : Decided env ext p es l) {i : ℕ} {d : Option Buffer}
    (hd : (decisions es)[i]? = some d) :
    ∃ c, (Event.inputs 1 es)[i]? = some c ∧ Decides env ext c d := by
  obtain ⟨hi, hd⟩ := List.getElem?_eq_some_iff.mp hd
  have h_get : ∀ {ins : List Buffer}, List.Forall₂ (Decides env ext) ins (decisions es) →
      ∃ c, ins[i]? = some c ∧ Decides env ext c d := by
    intro ins h_all
    have h_lt : i < ins.length := h_all.length_eq ▸ hi
    exact ⟨_, List.getElem?_eq_getElem h_lt, hd ▸ h_all.get h_lt hi⟩
  cases h with
  | idle _ _ h_all => exact h_get h_all
  | pending ins c h_in _ h_all _ =>
    obtain ⟨c', hc', h_decides⟩ := h_get h_all
    refine ⟨c', ?_, h_decides⟩
    rw [h_in, List.getElem?_append_left (List.getElem?_eq_some_iff.mp hc').1]
    exact hc'

/-- A thread that has left has answered every buffer. -/
theorem Decided.length (h : Decided env ext p es .done) :
    (decisions es).length = (Event.inputs 1 es).length := by
  cases h with
  | idle _ _ h_all => exact h_all.length_eq.symm
  | pending _ _ _ _ _ h_pending => exact h_pending.elim

theorem DecompRun.decided (h : DecompRun env ext es l) : ∃ p, Decided env ext p es l := by
  obtain ⟨h_free, e, m₀, m, h_run⟩ := h
  exact ⟨m.pool, decompress_decides h_run h_free⟩

end Law

/-! ### Buffers of type 6 -/

section Six

variable {env : RuntimeEnv} {ext : External} {xs : List Buffer}

theorem ReceivesBuffers.get {es : List (Event Buffer)} (h : ReceivesBuffers xs es) {i : ℕ} {c : Buffer}
    (hc : (Event.inputs 1 es)[i]? = some c) : ∃ x, xs[i]? = some x ∧ Same c x := by
  obtain ⟨k, h_all⟩ := h
  obtain ⟨hi, hc⟩ := List.getElem?_eq_some_iff.mp hc
  have h_lt : i < (xs.take k).length := h_all.length_eq ▸ hi
  refine ⟨(xs.take k)[i], ?_, ?_⟩
  · rw [← List.getElem?_eq_getElem h_lt, List.getElem?_take_of_lt]
    rw [List.length_take] at h_lt
    omega
  · rw [← hc]
    exact h_all.get hi h_lt

variable (env ext) in
/-- A run that receives one buffer of type 6 does with it what `decompError` says. -/
theorem exists_run_six {x : Buffer} (h_six : x.header.compressionType = 6) (e : ℤ) :
    ∃ es l, DecompRun env ext es l ∧ Event.inputs 1 es = [x] ∧
      ∃ d, decisions es = [d] ∧ d.isSome = decide (e ≠ 1) := by
  let m₀ : Memory Buffer Unit := ⟨fun b => if b = 1 then x else emptyBuffer env, ()⟩
  have h_none : Solo 4 Decomp.held (decompress env ext) (fun _ => False) (.popIn e) m₀ []
      (.popIn e) m₀ := .start
  -- the buffer is received in buffer 1, and the thread gets buffer 2
  have h_in := h_none.pop (v := 1) rfl nofun (fun _ _ => Multiset.notMem_zero _) id
  have h_type := h_in.work (m := m₀) rfl id
  have h_popOut : (if (m₀.pool 1).header.compressionType = 0 then Decomp.forward e 1
      else .popOut e 1) = .popOut e 1 := by
    refine if_neg fun h_zero => ?_
    rw [show (m₀.pool 1).header.compressionType = 6 from h_six] at h_zero
    exact absurd h_zero (by decide)
  rw [h_popOut] at h_type
  have h_out := h_type.pop (v := 2) rfl (fun _ => by decide)
    (fun _ _ h => absurd (Multiset.mem_singleton.mp h) (by decide)) id
  have h_dec := h_out.work (m := m₀) rfl id
  -- what the run has popped, asked for and decided
  have h_free : Takes 0 (Full env) [.popped 1 1 x, .popped 0 2 (emptyBuffer env)] := by
    intro c hc
    have h_inputs : Event.inputs 0 [.popped 1 1 x, .popped 0 2 (emptyBuffer env)]
        = [emptyBuffer env] := by
      simp [Event.inputs, Event.contentPopped, marker]
    rw [h_inputs, List.mem_singleton] at hc
    rw [hc]
    exact List.length_replicate
  have h_inputs : Event.inputs 1 [.popped 1 1 x, .popped 0 2 (emptyBuffer env)] = [x] := by
    simp [Event.inputs, Event.contentPopped, marker]
  have h_answers : answers [.popped 1 1 x, .popped 0 2 (emptyBuffer env)] = (true, []) := by
    simp [answers, answer, marker]
  have h_decisions : ∀ y : Push Buffer,
      decisions ([.popped 1 1 x, .popped 0 2 (emptyBuffer env)] ++ [.pushed y])
        = [if y.queue = 2 then some y.content else none] := fun y => by
    rw [decisions, answers_append, h_answers]
    rfl
  have h_pool : m₀.pool 1 = x := rfl
  simp only [h_pool, h_six, if_true] at h_dec
  -- `decompError` is the error code of the input before: 1 gives the buffer back
  by_cases h_one : e = 1
  · rw [if_pos h_one] at h_dec
    refine ⟨_, _, ⟨h_free.pushed, e, m₀, _, h_dec.push rfl id⟩, ?_, _, h_decisions _, ?_⟩
    · rw [Event.inputs_pushed]
      exact h_inputs
    · rw [h_one]
      rfl
  · rw [if_neg h_one] at h_dec
    refine ⟨_, _, ⟨h_free.pushed, e, m₀, _, h_dec.push rfl id⟩, ?_, _, h_decisions _, ?_⟩
    · rw [Event.inputs_pushed]
      exact h_inputs
    · exact (decide_eq_true h_one).symm

/-- **What the thread does depends on what it receives exactly if no buffer has type 6.** -/
theorem decompressed_iff (env : RuntimeEnv) (ext : External) (xs : List Buffer)
    (h_codec : ∀ x ∈ xs, CodecSizes ext x) :
    (DeterminedBy env ext xs ∧ ∀ x ∈ xs, OwnStatus env ext x) ↔
      ∀ x ∈ xs, x.header.compressionType ≠ 6 := by
  constructor
  · rintro ⟨-, h_own⟩ x hx h_six
    obtain ⟨es, l, h_run, h_in, d, hd, h_some⟩ := exists_run_six env ext h_six 0
    -- with the same buffer, status 0 comes before the one error and status 1 after the other
    obtain ⟨es', l', h_run', h_in', d', hd', h_none⟩ := exists_run_six env ext h_six 1
    have h_same := h_own x hx es l es' l' h_run h_run' 0 0 x x d d' (by rw [h_in]; rfl) ⟨rfl, rfl⟩
      (by rw [h_in']; rfl) ⟨rfl, rfl⟩ (by rw [hd]; rfl) (by rw [hd']; rfl)
    rw [h_some, h_none] at h_same
    exact absurd h_same (by decide)
  · intro h_types
    refine ⟨fun es l es' l' h_run h_run' h_xs h_xs' => ?_, fun x hx es l es' l' h_run h_run'
      i j c c' d d' hc h_same hc' h_same' hd hd' => ?_⟩
    · -- the decisions in the two runs are those for the same buffers
      obtain ⟨p, h_decided⟩ := h_run.decided
      obtain ⟨p', h_decided'⟩ := h_run'.decided
      refine ⟨fun i d d' hd hd' => ?_, fun h_length hl hl' => ?_⟩
      · obtain ⟨c, hc, h_decides⟩ := h_decided.get hd
        obtain ⟨c', hc', h_decides'⟩ := h_decided'.get hd'
        obtain ⟨x, hx, h_same⟩ := h_xs.get hc
        obtain ⟨x', hx', h_same'⟩ := h_xs'.get hc'
        obtain rfl : x = x' := Option.some.inj (hx.symm.trans hx')
        have h_mem := List.mem_of_getElem? hx
        exact h_decides.rel (h_codec x h_mem) (h_types x h_mem) h_same h_same' h_decides'
      · subst hl hl'
        rw [h_decided.length, h_decided'.length, h_length]
    · -- two inputs alike, in one run or two, get one status
      obtain ⟨p, h_decided⟩ := h_run.decided
      obtain ⟨p', h_decided'⟩ := h_run'.decided
      obtain ⟨b, hb, h_decides⟩ := h_decided.get hd
      obtain ⟨b', hb', h_decides'⟩ := h_decided'.get hd'
      obtain rfl : b = c := Option.some.inj (hb.symm.trans hc)
      obtain rfl : b' = c' := Option.some.inj (hb'.symm.trans hc')
      have h_rel := h_decides.rel (h_codec x hx) (h_types x hx) h_same h_same' h_decides'
      cases h_rel with
      | some _ => rfl
      | none => rfl

end Six

/-- A buffer that is not compressed, and one byte as `zstd` stores it. -/
def twoBuffers : List Buffer :=
  [⟨{ totalSize := 1, totalTuples := 1, intermediateFormat := 1 }, [65]⟩,
    ⟨{ compressionType := 1, totalSize := 10, uncompressedSize := 1 },
      [0x28, 0xb5, 0x2f, 0xfd, 0x20, 1, 9, 0, 0, 65]⟩]

theorem decompressed_twoBuffers :
    DeterminedBy smallEnv { decoders := storingDecoders } twoBuffers ∧
      ∀ x ∈ twoBuffers, OwnStatus smallEnv { decoders := storingDecoders } x := by
  refine (decompressed_iff smallEnv { decoders := storingDecoders } twoBuffers ?_).mpr (by decide)
  refine List.forall_mem_cons.mpr ⟨nofun, List.forall_mem_singleton.mpr fun e he => ?_⟩
  cases he
  rfl

/-- A thread whose first buffer has type 6 does with it what the variable happens to say. -/
theorem decompressed_not_determined :
    ¬ ∀ (env : RuntimeEnv) (ext : External) (xs : List Buffer),
      (∀ x ∈ xs, x.header.compressionType ≤ 6) → (∀ x ∈ xs, CodecSizes ext x) →
        DeterminedBy env ext xs ∧ ∀ x ∈ xs, OwnStatus env ext x := by
  intro h
  let x : Buffer := ⟨{ compressionType := 6 }, []⟩
  let ext : External := { decoders := storingDecoders }
  obtain ⟨es, l, h_run, h_in, d, hd, h_some⟩ := exists_run_six smallEnv ext (x := x) rfl 0
  obtain ⟨es', l', h_run', h_in', d', hd', h_none⟩ := exists_run_six smallEnv ext (x := x) rfl 1
  have h_receives : ∀ {es}, Event.inputs 1 es = [x] → ReceivesBuffers [x] es := fun h_in =>
    ⟨1, by rw [h_in]; exact .cons ⟨rfl, rfl⟩ .nil⟩
  have h_rel := ((h smallEnv ext [x] (by decide) (List.forall_mem_singleton.mpr nofun)).1 es l es' l'
    h_run h_run' (h_receives h_in) (h_receives h_in')).1 0 d d' (by rw [hd]; rfl) (by rw [hd']; rfl)
  cases h_rel with
  | some _ => exact absurd h_none (by simp)
  | none => exact absurd h_some (by decide)

end Xdbc.Client
