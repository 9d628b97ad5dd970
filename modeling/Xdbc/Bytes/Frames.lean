import Mathlib

/-!
# Frames on a byte stream

A frame is a header of a fixed size, which says how long the body is, and the body. A connection
delivers the bytes of a sequence of frames in segments that have nothing to do with the frames, and
may end anywhere. The reader takes a header and then a body, each with as many reads as it needs,
until the connection ends.

What the reader finds depends on the bytes alone (`readExactly_fst`, `readExactly_snd`). It finds
the frames that are complete in what was delivered, in order, and behind them at most one frame whose
body is cut off (`readFrames_of_prefix`).
-/

namespace Bytes

/-- How frames begin: the size of a header, its bytes, and the size of the body it announces. -/
structure FrameFormat (H : Type) where
  headerSize : ℕ
  encode : H → List UInt8
  decode : List UInt8 → H
  bodySize : H → ℕ

/-- A header and the body that was read for it. -/
structure Frame (H : Type) where
  header : H
  body : List UInt8

/-- Read `n` bytes from the segments of a stream, as many as there are; what is left of the
stream. -/
def readExactly : ℕ → List (List UInt8) → List UInt8 × List (List UInt8)
  | _, [] => ([], [])
  | n, segment :: segments =>
    if n < segment.length then (segment.take n, segment.drop n :: segments)
    else
      let r := readExactly (n - segment.length) segments
      (segment ++ r.1, r.2)

namespace FrameFormat

variable {H : Type} (F : FrameFormat H)

/-- The bytes of a frame. -/
def bytes (f : Frame H) : List UInt8 := F.encode f.header ++ f.body

/-- The body is as long as the header says. -/
def Whole (f : Frame H) : Prop := F.bodySize f.header ≤ f.body.length

instance (f : Frame H) : Decidable (F.Whole f) := by
  unfold Whole; infer_instance

/-- A frame that can be written: its header is read back, and announces its body. -/
structure Valid (f : Frame H) : Prop where
  length_encode : (F.encode f.header).length = F.headerSize
  decode_encode : F.decode (F.encode f.header) = f.header
  length_body : f.body.length = F.bodySize f.header

/-- Read frames until the stream ends; the last one may be cut off in its body. -/
def readFrames : ℕ → List (List UInt8) → List (Frame H)
  | 0, _ => []
  | fuel + 1, segments =>
    let (head, segments) := readExactly F.headerSize segments
    if head.length < F.headerSize then []
    else
      let header := F.decode head
      let (body, segments) := readExactly (F.bodySize header) segments
      if body.length < F.bodySize header then [⟨header, body⟩]
      else ⟨header, body⟩ :: readFrames fuel segments

/-- The frames on a stream. -/
def frames (segments : List (List UInt8)) : List (Frame H) :=
  F.readFrames (segments.flatten.length + 1) segments

/-- The frames that are complete in the first `n` bytes. -/
def complete : List (Frame H) → ℕ → List (Frame H)
  | [], _ => []
  | f :: fs, n =>
    if (F.bytes f).length ≤ n then f :: complete fs (n - (F.bytes f).length) else []

end FrameFormat

/-! ### Reading does not depend on the segments -/

theorem readExactly_fst (n : ℕ) (segments : List (List UInt8)) :
    (readExactly n segments).1 = segments.flatten.take n := by
  induction segments generalizing n with
  | nil => simp [readExactly]
  | cons segment segments ih =>
    rw [readExactly]
    split
    · next h => rw [List.flatten_cons, List.take_append_of_le_length (Nat.le_of_lt h)]
    · next h =>
      rw [List.flatten_cons, List.take_append, List.take_of_length_le (Nat.le_of_not_lt h)]
      exact congrArg _ (ih _)

theorem readExactly_snd (n : ℕ) (segments : List (List UInt8)) :
    (readExactly n segments).2.flatten = segments.flatten.drop n := by
  induction segments generalizing n with
  | nil => simp [readExactly]
  | cons segment segments ih =>
    rw [readExactly]
    split
    · next h =>
      rw [List.flatten_cons, List.flatten_cons, List.drop_append_of_le_length (Nat.le_of_lt h)]
    · next h =>
      rw [List.flatten_cons, List.drop_append, List.drop_eq_nil_of_le (Nat.le_of_not_lt h)]
      exact ih _

namespace FrameFormat

variable {H : Type} {F : FrameFormat H}

/-- What a stream holds before its first frame is complete. -/
theorem length_bytes {f : Frame H} (h : F.Valid f) :
    (F.bytes f).length = F.headerSize + F.bodySize f.header := by
  rw [bytes, List.length_append, h.length_encode, h.length_body]

/-- All frames are complete in all bytes. -/
theorem complete_all (fs : List (Frame H)) : F.complete fs (fs.flatMap F.bytes).length = fs := by
  induction fs with
  | nil => rfl
  | cons f fs ih =>
    rw [List.flatMap_cons, List.length_append, complete, if_pos (Nat.le_add_right _ _),
      Nat.add_sub_cancel_left, ih]

theorem complete_prefix (fs : List (Frame H)) (n : ℕ) : F.complete fs n <+: fs := by
  induction fs generalizing n with
  | nil => exact List.prefix_rfl
  | cons f fs ih =>
    rw [complete]
    split
    · exact List.cons_prefix_cons.mpr ⟨rfl, ih _⟩
    · exact List.nil_prefix

/-- A prefix that is long enough begins as the whole does. -/
theorem take_eq_of_prefix {xs as bs : List UInt8} (h : xs <+: as ++ bs)
    (h_length : as.length ≤ xs.length) : xs.take as.length = as := by
  obtain ⟨rest, h_eq⟩ := h
  have h_take : (xs ++ rest).take as.length = xs.take as.length :=
    List.take_append_of_le_length h_length
  rw [← h_take, h_eq, List.take_left]

theorem drop_prefix {xs as bs : List UInt8} (h : xs <+: as ++ bs)
    (h_length : as.length ≤ xs.length) : xs.drop as.length <+: bs := by
  obtain ⟨rest, h_eq⟩ := h
  refine ⟨rest, ?_⟩
  have h_drop : (xs ++ rest).drop as.length = xs.drop as.length ++ rest :=
    List.drop_append_of_le_length h_length
  rw [← h_drop, h_eq, List.drop_left]

/-- **The reader finds the complete frames**, and behind them at most one that is cut off. -/
theorem readFrames_of_prefix (h_size : 0 < F.headerSize) {fs : List (Frame H)}
    (h_valid : ∀ f ∈ fs, F.Valid f) {fuel : ℕ} {segments : List (List UInt8)}
    (h_front : segments.flatten <+: fs.flatMap F.bytes)
    (h_fuel : segments.flatten.length < fuel) :
    ∃ cut, F.readFrames fuel segments = F.complete fs segments.flatten.length ++ cut ∧
      (cut = [] ∨ ∃ f, cut = [f] ∧ ¬ F.Whole f) := by
  induction fs generalizing fuel segments with
  | nil =>
    obtain ⟨fuel, rfl⟩ := Nat.exists_eq_succ_of_ne_zero (Nat.ne_of_gt (Nat.zero_lt_of_lt h_fuel))
    have h_nil : segments.flatten = [] := List.prefix_nil.mp h_front
    refine ⟨[], ?_, .inl rfl⟩
    simp [readFrames, readExactly_fst, h_nil, h_size, complete]
  | cons f fs ih =>
    obtain ⟨fuel, rfl⟩ := Nat.exists_eq_succ_of_ne_zero (Nat.ne_of_gt (Nat.zero_lt_of_lt h_fuel))
    obtain ⟨h_first, h_others⟩ := List.forall_mem_cons.mp h_valid
    obtain ⟨header, body⟩ := f
    obtain ⟨h_encode, h_decode, h_body⟩ := h_first
    dsimp only at h_encode h_decode h_body
    have h_bytes : (F.bytes ⟨header, body⟩).length = F.headerSize + body.length := by
      rw [bytes, List.length_append, h_encode]
    rw [List.flatMap_cons, bytes, List.append_assoc] at h_front
    dsimp only at h_front
    simp only [readFrames, readExactly_fst, List.length_take, complete, h_bytes]
    by_cases h_header : segments.flatten.length < F.headerSize
    -- the stream ends in the header
    · rw [if_pos (by omega), if_neg (by omega)]
      exact ⟨[], rfl, .inl rfl⟩
    · -- the header is complete, and says how long the body is
      have h_take : segments.flatten.take F.headerSize = F.encode header := by
        rw [← h_encode]
        exact take_eq_of_prefix h_front (by omega)
      have h_rest := drop_prefix h_front (by omega)
      rw [if_neg (by omega), h_take, h_decode, readExactly_snd, List.length_drop, ← h_body]
      rw [h_encode] at h_rest
      by_cases h_cut : segments.flatten.length < F.headerSize + body.length
      -- the stream ends in the body
      · rw [if_pos (by omega), if_neg (by omega)]
        refine ⟨_, rfl, .inr ⟨_, rfl, ?_⟩⟩
        rw [Whole, List.length_take, List.length_drop, ← h_body]
        omega
      · -- the frame is complete, and the reader goes on behind it
        have h_room : body.length ≤ (segments.flatten.drop F.headerSize).length := by
          rw [List.length_drop]
          omega
        rw [if_neg (by omega), if_pos (by omega), take_eq_of_prefix h_rest h_room]
        have h_left : (readExactly body.length (readExactly F.headerSize segments).2).2.flatten
            = segments.flatten.drop (F.headerSize + body.length) := by
          rw [readExactly_snd, readExactly_snd, List.drop_drop]
        have h_tail : (readExactly body.length (readExactly F.headerSize segments).2).2.flatten
            <+: fs.flatMap F.bytes := by
          rw [readExactly_snd, readExactly_snd]
          exact drop_prefix h_rest h_room
        have h_short := congrArg List.length h_left
        rw [List.length_drop] at h_short
        have h_enough : (readExactly body.length
            (readExactly F.headerSize segments).2).2.flatten.length < fuel := by omega
        obtain ⟨cut, h_read, h_end⟩ := ih h_others h_tail h_enough
        refine ⟨cut, ?_, h_end⟩
        rw [h_read, h_short]
        rfl

/-- Only the last frame that is found may be cut off. -/
theorem whole_of_readFrames {fuel : ℕ} {segments : List (List UInt8)} {before after : List (Frame H)}
    {f : Frame H} (h : F.readFrames fuel segments = before ++ f :: after) :
    ∀ g ∈ before, F.Whole g := by
  induction fuel generalizing segments before with
  | zero =>
    rw [readFrames] at h
    simp at h
  | succ fuel ih =>
    simp only [readFrames] at h
    split at h
    · simp at h
    · split at h
      · cases before with
        | nil => exact List.forall_mem_nil _
        | cons g before => simp at h
      · next h_body =>
        cases before with
        | nil => exact List.forall_mem_nil _
        | cons g before =>
          rw [List.cons_append] at h
          obtain ⟨rfl, h_rest⟩ := List.cons.inj h
          exact List.forall_mem_cons.mpr ⟨Nat.not_lt.mp h_body, ih h_rest⟩

end FrameFormat

end Bytes
