import Xdbc.Server.Compressor

/-!
# How much a codec may write

The wrappers tell a codec how much room its output has in different ways: `compress_zstd` and
`compress_lz4` pass the size of the input, `compress_zlib` passes `compressBound`, and
`compress_snappy` and `compress_lzo` pass nothing, so that the codec writes up to its worst case.
The output buffer has the payload of the pool. Every wrapper writes one block to its beginning
(`compressWith_snd`), and `writes_inside_iff` says with which codecs the block has room there,
whatever the data and however full the input. `compressBound` is a function of `zlib`, and all that
is used of it is that it leaves more room than the input takes.
-/

namespace Xdbc.Server

open Bytes

/-- What a codec may write for `n` bytes: up to the capacity it is passed, or up to its worst
case. -/
def Codec.allowed (compressBound : ℕ → ℕ) (n : ℕ) : Codec → ℕ
  | .zstd => n
  | .snappy => 32 + n + n / 6
  | .lzo => n + n / 16 + 67
  | .lz4 => n
  | .zlib => compressBound n

/-- The block the codec leaves in the output for the data `p`. -/
def Codecs.written (lib : Codecs) (p : List UInt8) : Codec → List UInt8
  | .zstd => ((lib.zstd p).filter (·.length ≤ p.length)).getD (lib.debris .zstd p)
  | .snappy => lib.snappy p
  | .lzo => (lib.lzo p).getD (lib.debris .lzo p)
  | .lz4 =>
    ((lib.lz4 p).filter fun e => 0 < e.length ∧ e.length ≤ p.length).getD (lib.debris .lz4 p)
  | .zlib => (lib.zlib p).getD (lib.debris .zlib p)

/-- The codecs write no more than they may. -/
def Codecs.Conforms (compressBound : ℕ → ℕ) (lib : Codecs) : Prop :=
  ∀ (c : Codec) (p : List UInt8), (lib.written p c).length ≤ c.allowed compressBound p.length

/-- The output of a wrapper is the block of the codec. -/
theorem compressWith_snd {lib : Codecs} {c : Codec} {src dst : List UInt8} {size : ℕ}
    (h_size : size ≤ src.length) :
    (compressWith lib src dst size c).2 = put dst 0 (lib.written (src.take size) c) := by
  have h_length : (src.take size).length = size := List.length_take_of_le h_size
  -- what a codec cannot encode leaves the output as it is
  cases c with
  | zstd =>
    simp only [compressWith, compressZstd, Codecs.written, h_length]
    split
    · next h => rw [h, Option.getD_some]
    · next h => rw [h, Option.getD_none]
  | snappy => rfl
  | lzo =>
    simp only [compressWith, compressLzo, Codecs.written]
    split
    · next h => rw [h, Option.getD_some]
    · next h => rw [h, Option.getD_none]
  | lz4 =>
    simp only [compressWith, compressLz4, Codecs.written, h_length]
    split
    · next h => rw [h, Option.getD_some]
    · next h => rw [h, Option.getD_none]
  | zlib =>
    simp only [compressWith, compressZlib, Codecs.written]
    split
    · next h => rw [h, Option.getD_some]
    · next h => rw [h, Option.getD_none]

/-! ### The worst case -/

section

variable (compressBound : ℕ → ℕ)

/-- Codecs that write all they may. -/
def greedyCodecs : Codecs where
  zstd _ := none
  snappy p := List.replicate (Codec.allowed compressBound p.length .snappy) 0
  lzo _ := none
  lz4 _ := none
  zlib _ := none
  fastpfor _ := []
  fpzip _ := []
  debris c p := List.replicate (c.allowed compressBound p.length) 0

theorem greedyCodecs_written (c : Codec) (p : List UInt8) :
    (greedyCodecs compressBound).written p c =
      List.replicate (c.allowed compressBound p.length) 0 := by
  cases c <;> rfl

theorem greedyCodecs_conforms : (greedyCodecs compressBound).Conforms compressBound :=
  fun c p => by rw [greedyCodecs_written, List.length_replicate]

/-- The block has room in the payload of an output buffer, whatever the codec and the data. -/
def WritesInside (env : RuntimeEnv) (c : Codec) (n : ℕ) : Prop :=
  ∀ lib : Codecs, lib.Conforms compressBound → ∀ src : List UInt8, n ≤ src.length →
    (lib.written (src.take n) c).length ≤ env.payloadSize

theorem writesInside_iff_allowed (env : RuntimeEnv) (c : Codec) (n : ℕ) :
    WritesInside compressBound env c n ↔ c.allowed compressBound n ≤ env.payloadSize := by
  constructor
  · intro h
    have h_greedy := h _ (greedyCodecs_conforms compressBound) (List.replicate n 0)
      (List.length_replicate).ge
    rwa [greedyCodecs_written, List.length_replicate, List.length_take_of_le
      (List.length_replicate).ge] at h_greedy
  · intro h lib h_lib src h_src
    have h_block := h_lib c (src.take n)
    rw [List.length_take_of_le h_src] at h_block
    exact h_block.trans h

/-- A codec that may write more than it reads goes past the output when the input is full. -/
theorem not_writesInside_full {env : RuntimeEnv} {c : Codec}
    (h : env.payloadSize < c.allowed compressBound env.payloadSize) :
    ¬ WritesInside compressBound env c env.payloadSize := fun h_inside =>
  absurd ((writesInside_iff_allowed compressBound env c _).mp h_inside) (Nat.not_le.mpr h)

/-- **Which codecs write inside the output buffer**: with `zstd` and `lz4` every input leaves room
for all that may be written, with the others a full one does not. -/
theorem writes_inside_iff (h_bound : ∀ n, n < compressBound n) (env : RuntimeEnv) (c : Codec) :
    (∀ n, n ≤ env.payloadSize → WritesInside compressBound env c n) ↔ c = .zstd ∨ c = .lz4 := by
  constructor
  · intro h
    cases c with
    | zstd => exact .inl rfl
    | lz4 => exact .inr rfl
    | snappy =>
      refine absurd (h _ le_rfl) (not_writesInside_full compressBound ?_)
      rw [Codec.allowed]
      omega
    | lzo =>
      refine absurd (h _ le_rfl) (not_writesInside_full compressBound ?_)
      rw [Codec.allowed]
      omega
    | zlib => exact absurd (h _ le_rfl) (not_writesInside_full compressBound (h_bound _))
  · rintro (rfl | rfl) n h_size
    · exact (writesInside_iff_allowed compressBound env .zstd n).mpr h_size
    · exact (writesInside_iff_allowed compressBound env .lz4 n).mpr h_size

end

/-- The bound that `zlib` computes. -/
def zlibBound (n : ℕ) : ℕ := n + n / 2 ^ 12 + n / 2 ^ 14 + n / 2 ^ 25 + 13

theorem lt_zlibBound (n : ℕ) : n < zlibBound n := by
  unfold zlibBound
  omega

/-- With payloads of 1024 bytes all inputs of `lz4` have room, and not all of `zlib`. -/
theorem writes_inside_oneChar :
    (∀ n, n ≤ 1024 → WritesInside zlibBound oneCharEnv .lz4 n) ∧
      ¬ ∀ n, n ≤ 1024 → WritesInside zlibBound oneCharEnv .zlib n :=
  ⟨(writes_inside_iff zlibBound lt_zlibBound oneCharEnv .lz4).mpr (.inr rfl),
    fun h => absurd ((writes_inside_iff zlibBound lt_zlibBound oneCharEnv .zlib).mp h) (by decide)⟩

/-- A full buffer leaves no room for the worst case of `snappy`. -/
theorem snappy_writes_past :
    ∃ (env : RuntimeEnv) (n : ℕ), n ≤ env.payloadSize ∧
      ¬ WritesInside zlibBound env .snappy n := by
  refine ⟨oneCharEnv, 1024, by decide, fun h => ?_⟩
  have h_allowed := (writesInside_iff_allowed zlibBound oneCharEnv .snappy 1024).mp h
  exact absurd h_allowed (by decide)

end Xdbc.Server
