import Xdbc.Bytes.Decimal

/-!
# Texts behind their sizes

A text is sent behind its size in 32 bits. A reader takes four bytes for the size and then as many
bytes as they say, and finds the texts of a stream one after the other (`sized_append_inj`), as long
as their sizes fit into 32 bits.
-/

namespace Bytes

/-- A text behind its size. -/
def sized (bytes : List UInt8) : List UInt8 := leBytes 4 bytes.length ++ bytes

/-- Bytes are those of the number they stand for. -/
theorem leBytes_ofLeBytes (bytes : List UInt8) :
    leBytes bytes.length (ofLeBytes bytes) = bytes := by
  induction bytes with
  | nil => rfl
  | cons b bytes ih =>
    have h_lt : b.toNat < 256 := b.toNat_lt
    have h_mod : (b.toNat + 256 * ofLeBytes bytes) % 256 = b.toNat := by omega
    have h_div : (b.toNat + 256 * ofLeBytes bytes) / 256 = ofLeBytes bytes := by omega
    have h_first : UInt8.ofNat (b.toNat + 256 * ofLeBytes bytes) = b := by
      apply UInt8.toNat_inj.mp
      rw [UInt8.toNat_ofNat']
      exact h_mod
    rw [List.length_cons, ofLeBytes, leBytes, h_first, h_div, ih]

theorem ofLeBytes_lt (bytes : List UInt8) : ofLeBytes bytes < 256 ^ bytes.length := by
  induction bytes with
  | nil => exact Nat.one_pos
  | cons b bytes ih =>
    have h_lt : b.toNat < 256 := b.toNat_lt
    rw [List.length_cons, ofLeBytes, pow_succ']
    omega

/-- Numbers of 32 bits are determined by their bytes. -/
theorem leBytes_inj {x y : ℕ} (hx : x < 2 ^ 32) (hy : y < 2 ^ 32) (h : leBytes 4 x = leBytes 4 y) :
    x = y := by
  have h_eq := congrArg ofLeBytes h
  rw [ofLeBytes_leBytes, ofLeBytes_leBytes] at h_eq
  omega

@[simp] theorem length_sized (bytes : List UInt8) : (sized bytes).length = 4 + bytes.length := by
  rw [sized, List.length_append, length_leBytes]

/-- The size and what follows it are found at the beginning of a stream. -/
theorem size_inj {k : ℕ} {bytes rest rest' : List UInt8} (hk : k < 2 ^ 32)
    (h_fits : bytes.length < 2 ^ 32) (h : leBytes 4 k ++ rest = sized bytes ++ rest') :
    k = bytes.length ∧ rest = bytes ++ rest' := by
  rw [sized, List.append_assoc] at h
  obtain ⟨h_size, h_rest⟩ := List.append_inj h (by rw [length_leBytes, length_leBytes])
  exact ⟨leBytes_inj hk h_fits h_size, h_rest⟩

/-- **The texts of a stream are determined by its bytes.** -/
theorem sized_append_inj {bytes bytes' rest rest' : List UInt8} (h_fits : bytes.length < 2 ^ 32)
    (h_fits' : bytes'.length < 2 ^ 32) (h : sized bytes ++ rest = sized bytes' ++ rest') :
    bytes = bytes' ∧ rest = rest' := by
  rw [sized, List.append_assoc] at h
  obtain ⟨h_length, h_eq⟩ := size_inj h_fits h_fits' h
  exact List.append_inj h_eq h_length

end Bytes
