import Xdbc.Schema
import Xdbc.Bytes.Memory

/-!
# The decompressor

The wrappers of the decoders. Each of them returns an error code and leaves its output in the block
`dst`; `1` is an error. They differ in what they check: `snappy` writes whatever the data says, and
`lzo` takes an output of any other length than the whole payload for an error.
-/

namespace Xdbc.Client

open Bytes

/-- The decoders of the libraries as functions of the data, `none` where the data is corrupt; what a
failed decoder has left in its output is `debris`. -/
structure Decoders where
  zstd : List UInt8 → Option (List UInt8)
  snappy : List UInt8 → Option (List UInt8)
  lzo : List UInt8 → Option (List UInt8)
  lz4 : List UInt8 → Option (List UInt8)
  zlib : List UInt8 → Option (List UInt8)
  debris : ℕ → List UInt8 → List UInt8

/-- The decoder with a number. -/
def Decoders.decode (lib : Decoders) : ℕ → List UInt8 → Option (List UInt8)
  | 1 => lib.zstd
  | 2 => lib.snappy
  | 3 => lib.lzo
  | 4 => lib.lz4
  | 5 => lib.zlib
  | _ => fun _ => none

section Wrappers

variable (lib : Decoders) (dst src : List UInt8) (inSize outSize : ℕ)

/-- `Decompressor::decompress_zstd`: the error code and the output block. -/
def decompressZstd : ℤ × List UInt8 :=
  match (lib.zstd (src.take inSize)).filter (·.length ≤ outSize) with
  | some e => (0, put dst 0 e)
  | none => (1, put dst 0 (lib.debris 1 (src.take inSize)))

/-- `Decompressor::decompress_snappy`. -/
def decompressSnappy : ℤ × List UInt8 :=
  match lib.snappy (src.take inSize) with
  | some e => (0, put dst 0 e)
  | none => (1, put dst 0 (lib.debris 2 (src.take inSize)))

/-- `Decompressor::decompress_lzo`. -/
def decompressLzo : ℤ × List UInt8 :=
  match lib.lzo (src.take inSize) with
  | some e => (if e.length ≠ outSize then 1 else 0, put dst 0 e)
  | none => (1, put dst 0 (lib.debris 3 (src.take inSize)))

/-- `Decompressor::decompress_lz4`. -/
def decompressLz4 : ℤ × List UInt8 :=
  match (lib.lz4 (src.take inSize)).filter (·.length ≤ outSize) with
  | some e => (0, put dst 0 e)
  | none => (1, put dst 0 (lib.debris 4 (src.take inSize)))

/-- `Decompressor::decompress_zlib`. -/
def decompressZlib : ℤ × List UInt8 :=
  match (lib.zlib (src.take inSize)).filter (·.length ≤ outSize) with
  | some e => (0, put dst 0 e)
  | none => (1, put dst 0 (lib.debris 5 (src.take inSize)))

/-- `Decompressor::decompress`. -/
def decompressWith : ℕ → ℤ × List UInt8
  | 1 => decompressZstd lib dst src inSize outSize
  | 2 => decompressSnappy lib dst src inSize
  | 3 => decompressLzo lib dst src inSize outSize
  | 4 => decompressLz4 lib dst src inSize outSize
  | 5 => decompressZlib lib dst src inSize outSize
  | _ => (1, dst)

end Wrappers

variable {lib : Decoders} {dst src : List UInt8} {inSize outSize method : ℕ}

@[simp] theorem length_decompressWith :
    (decompressWith lib dst src inSize outSize method).2.length = dst.length := by
  unfold decompressWith
  split
  · unfold decompressZstd; split <;> simp
  · unfold decompressSnappy; split <;> simp
  · unfold decompressLzo; split <;> simp
  · unfold decompressLz4; split <;> simp
  · unfold decompressZlib; split <;> simp
  · rfl

/-- A decompression that is no error leaves the decoded data at the beginning of the output. -/
theorem eq_put_of_decompressWith
    (h : (decompressWith lib dst src inSize outSize method).1 ≠ 1) :
    ∃ e, lib.decode method (src.take inSize) = some e ∧
      decompressWith lib dst src inSize outSize method = (0, put dst 0 e) := by
  have h_filter : ∀ {o : Option (List UInt8)} {e}, o.filter (·.length ≤ outSize) = some e → o = some e :=
    fun h_eq => (Option.filter_eq_some_iff.mp h_eq).1
  unfold decompressWith at h ⊢
  -- one case for each method: zstd, lz4 and zlib check the room, snappy and lzo do not
  split at h
  · unfold decompressZstd at h ⊢
    split at h
    · next e he => exact ⟨e, h_filter he, rfl⟩
    · exact absurd rfl h
  · unfold decompressSnappy at h ⊢
    split at h
    · next e he => exact ⟨e, he, rfl⟩
    · exact absurd rfl h
  · unfold decompressLzo at h ⊢
    split at h
    · next e he =>
      refine ⟨e, he, ?_⟩
      -- lzo alone compares the size with that of the output buffer
      by_cases h_length : e.length ≠ outSize
      · exact absurd (if_pos h_length) h
      · rw [if_neg h_length]
    · exact absurd rfl h
  · unfold decompressLz4 at h ⊢
    split at h
    · next e he => exact ⟨e, h_filter he, rfl⟩
    · exact absurd rfl h
  · unfold decompressZlib at h ⊢
    split at h
    · next e he => exact ⟨e, h_filter he, rfl⟩
    · exact absurd rfl h
  · exact absurd rfl h

/-! ### Stored data -/

/-- Decoders that read what an encoder stores of short data: `zstd` a raw block behind a frame
header, `snappy`, `lzo` and `lz4` one literal, `zlib` a stored block. -/
def storingDecoders : Decoders where
  zstd e := if e.take 5 = [0x28, 0xb5, 0x2f, 0xfd, 0x20] then some (e.drop 9) else none
  snappy e := some (e.drop 2)
  lzo e := some ((e.drop 1).dropLast.dropLast.dropLast)
  lz4 e := some (e.drop 1)
  zlib e := some ((e.drop 7).dropLast.dropLast.dropLast.dropLast)
  debris _ _ := []

/-! ### Valid data -/

/-- The decompression was no error, and the payload stands at the beginning of the output. -/
def Accepted (r : ℤ × List UInt8) (payload : List UInt8) : Prop :=
  r.1 = 0 ∧ r.2.take payload.length = payload

/-- What a decoder has written can be read. -/
theorem accepted_put {payload : List UInt8} (h_room : payload.length ≤ dst.length) :
    Accepted (0, put dst 0 payload) payload :=
  ⟨rfl, slice_put_same (by rwa [Nat.zero_add] : 0 + payload.length ≤ dst.length)⟩

/-- `lzo` compares the length of the payload with the room there is. -/
theorem decompressLzo_accepted_iff {payload : List UInt8}
    (h_decode : lib.lzo (src.take inSize) = some payload) (h_room : payload.length ≤ dst.length) :
    Accepted (decompressLzo lib dst src inSize outSize) payload ↔ payload.length = outSize := by
  rw [decompressLzo, h_decode]
  dsimp only
  by_cases h_length : payload.length = outSize
  · rw [if_neg (not_not.mpr h_length)]
    exact iff_of_true (accepted_put h_room) h_length
  · rw [if_pos h_length]
    exact iff_of_false (fun h => absurd h.1 one_ne_zero) h_length

/-- **When valid data is accepted.** Every wrapper but `lzo` decodes every payload that fits the
output; `lzo` only one that fills it. -/
theorem decompress_accepts_iff {payload e : List UInt8} (h_method : 1 ≤ method ∧ method ≤ 5)
    (h_decode : lib.decode method e = some payload) (h_fits : payload.length ≤ outSize)
    (h_room : outSize ≤ dst.length) (h_src : src.take inSize = e) :
    Accepted (decompressWith lib dst src inSize outSize method) payload
      ↔ method ≠ 3 ∨ payload.length = outSize := by
  subst h_src
  have h_put : Accepted (0, put dst 0 payload) payload := accepted_put (h_fits.trans h_room)
  obtain ⟨h_one, h_five⟩ := h_method
  -- zstd, snappy, lzo, lz4 and zlib: only lzo asks for the size of the whole output buffer
  interval_cases method
  · rw [Decoders.decode] at h_decode
    simpa [decompressWith, decompressZstd, h_decode, Option.filter, h_fits] using h_put
  · rw [Decoders.decode] at h_decode
    simpa [decompressWith, decompressSnappy, h_decode] using h_put
  · rw [decompressWith, decompressLzo_accepted_iff h_decode (h_fits.trans h_room)]
    simp
  · rw [Decoders.decode] at h_decode
    simpa [decompressWith, decompressLz4, h_decode, Option.filter, h_fits] using h_put
  · rw [Decoders.decode] at h_decode
    simpa [decompressWith, decompressZlib, h_decode, Option.filter, h_fits] using h_put

/-- One byte that fills the output, as `lzo` stores it. -/
theorem decompress_accepts_iff_lzo :
    Accepted (decompressWith storingDecoders [0] [18, 65, 17, 0, 0] 5 1 3) [65] :=
  (decompress_accepts_iff ⟨by decide, by decide⟩ rfl (by decide) (by decide) rfl).mpr (.inr rfl)

/-- One byte in an output with room for two, as `lzo` stores it, is taken for an error. -/
theorem decompress_rejects_lzo :
    storingDecoders.decode 3 [18, 65, 17, 0, 0] = some [65] ∧
      ¬ Accepted (decompressWith storingDecoders [0, 0] [18, 65, 17, 0, 0] 5 2 3) [65] :=
  ⟨rfl, fun h => absurd h.1 (by decide)⟩

end Xdbc.Client
