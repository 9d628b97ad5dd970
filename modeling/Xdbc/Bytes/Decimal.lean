import Mathlib

/-!
# Numbers in memory and in text

A 32-bit integer is four bytes, the least significant first (`int32Bytes`), and its text is the one
`"%d"` prints (`printInt`). `fromChars` is `std::from_chars` for `int`: it reads the longest prefix
that is a number and fails on a number that is out of range. Reading inverts printing on all 32-bit
integers (`fromChars_printInt`, `int32OfBytes_int32Bytes`).
-/

namespace Bytes

/-! ### Little-endian numbers -/

/-- The `k` low bytes of `x`, the least significant first. -/
def leBytes : ℕ → ℕ → List UInt8
  | 0, _ => []
  | k + 1, x => UInt8.ofNat x :: leBytes k (x / 256)

/-- The number whose bytes are `bs`, the least significant first. -/
def ofLeBytes : List UInt8 → ℕ
  | [] => 0
  | b :: bs => b.toNat + 256 * ofLeBytes bs

@[simp] theorem length_leBytes (k x : ℕ) : (leBytes k x).length = k := by
  induction k generalizing x with
  | zero => rfl
  | succ k ih => simp [leBytes, ih]

theorem ofLeBytes_leBytes (k x : ℕ) : ofLeBytes (leBytes k x) = x % 256 ^ k := by
  induction k generalizing x with
  | zero => simp [leBytes, ofLeBytes, Nat.mod_one]
  | succ k ih =>
    have h := Nat.mod_mul (x := x) (a := 256) (b := 256 ^ k)
    rw [leBytes, ofLeBytes, ih, UInt8.toNat_ofNat', pow_succ' 256 k, h]

/-- The memory of a 32-bit integer. -/
def int32Bytes (z : ℤ) : List UInt8 := leBytes 4 (z % 2 ^ 32).toNat

/-- The 32-bit integer in memory. -/
def int32OfBytes (bs : List UInt8) : ℤ := Int.bmod (ofLeBytes bs) (2 ^ 32)

@[simp] theorem length_int32Bytes (z : ℤ) : (int32Bytes z).length = 4 := length_leBytes _ _

theorem int32OfBytes_int32Bytes {z : ℤ} (h_lo : -2 ^ 31 ≤ z) (h_hi : z < 2 ^ 31) :
    int32OfBytes (int32Bytes z) = z := by
  have h : ofLeBytes (int32Bytes z) = (z % 2 ^ 32).toNat := by
    rw [int32Bytes, ofLeBytes_leBytes]
    norm_num
    omega
  unfold int32OfBytes
  rw [h, Int.bmod]
  norm_num at *
  split <;> omega

/-! ### Decimal text -/

/-- The byte of a decimal digit. -/
def digitByte (d : ℕ) : UInt8 := UInt8.ofNat (48 + d)

/-- The byte is a decimal digit. -/
def isDigit (b : UInt8) : Bool := 48 ≤ b.toNat && b.toNat ≤ 57

/-- The decimal text of a natural number, the most significant digit first. -/
def printNat (m : ℕ) : List UInt8 :=
  if m = 0 then [digitByte 0] else ((Nat.digits 10 m).map digitByte).reverse

/-- The value of a text of digits. -/
def readNat (ds : List UInt8) : ℕ := ds.foldl (fun acc d => acc * 10 + (d.toNat - 48)) 0

/-- `sprintf("%d", z)`. -/
def printInt (z : ℤ) : List UInt8 :=
  if z < 0 then 45 :: printNat z.natAbs else printNat z.natAbs

/-- `std::from_chars(src, end, value)` for a 32-bit `value`: `none` where it stores nothing. -/
def fromChars (src : List UInt8) : Option ℤ :=
  let negative := src.head? = some 45
  let ds := (if negative then src.tail else src).takeWhile isDigit
  let z : ℤ := if negative then -(readNat ds : ℤ) else readNat ds
  if ds = [] ∨ z < -2 ^ 31 ∨ 2 ^ 31 ≤ z then none else some z

theorem toNat_digitByte {d : ℕ} (hd : d < 10) : (digitByte d).toNat = 48 + d := by
  rw [digitByte, UInt8.toNat_ofNat', Nat.mod_eq_of_lt (by omega)]

theorem isDigit_digitByte {d : ℕ} (hd : d < 10) : isDigit (digitByte d) = true := by
  simp [isDigit, toNat_digitByte hd]
  omega

theorem printNat_isDigit (m : ℕ) : ∀ b ∈ printNat m, isDigit b = true := by
  intro b hb
  rw [printNat] at hb
  split at hb
  · rw [List.mem_singleton.mp hb]; exact isDigit_digitByte (by norm_num)
  · rw [List.mem_reverse, List.mem_map] at hb
    obtain ⟨d, hd, rfl⟩ := hb
    exact isDigit_digitByte (Nat.digits_lt_base (by norm_num) hd)

theorem printNat_ne_nil (m : ℕ) : printNat m ≠ [] := by
  rw [printNat]
  split
  · simp
  · next h => simpa [Nat.digits_ne_nil_iff_ne_zero] using h

theorem readNat_digits (m : ℕ) :
    readNat ((Nat.digits 10 m).map digitByte).reverse = m := by
  rw [readNat, List.foldl_reverse]
  have h : ∀ ds : List ℕ, (∀ d ∈ ds, d < 10) →
      (ds.map digitByte).foldr (fun d acc => acc * 10 + (d.toNat - 48)) 0 = Nat.ofDigits 10 ds := by
    intro ds
    induction ds with
    | nil => exact fun _ => rfl
    | cons d ds ih =>
      intro hds
      rw [List.map_cons, List.foldr_cons, ih fun e he => hds e (List.mem_cons_of_mem _ he),
        toNat_digitByte (hds d List.mem_cons_self), Nat.ofDigits_cons]
      omega
  rw [h _ fun d hd => Nat.digits_lt_base (by norm_num) hd, Nat.ofDigits_digits]

theorem readNat_printNat (m : ℕ) : readNat (printNat m) = m := by
  rw [printNat]
  split
  · next h => rw [h]; rfl
  · exact readNat_digits m

/-- No digit is the minus sign. -/
theorem head?_printNat_ne (m : ℕ) : (printNat m).head? ≠ some 45 := by
  intro h
  have h_digit := printNat_isDigit m 45 (List.mem_of_mem_head? h)
  exact absurd h_digit (by decide)

/-- **Reading inverts printing**, on all 32-bit integers. -/
theorem fromChars_printInt {z : ℤ} (h_lo : -2 ^ 31 ≤ z) (h_hi : z < 2 ^ 31) :
    fromChars (printInt z) = some z := by
  have h_digits : (printNat z.natAbs).takeWhile isDigit = printNat z.natAbs :=
    List.takeWhile_eq_self_iff.mpr (printNat_isDigit _)
  rw [fromChars, printInt]
  by_cases hz : z < 0
  · simp only [if_pos hz, List.head?_cons, if_true, List.tail_cons, h_digits, readNat_printNat]
    rw [if_neg]
    · congr 1; omega
    · have h_ne := printNat_ne_nil z.natAbs
      rw [not_or, not_or]
      exact ⟨h_ne, by omega, by omega⟩
  · simp only [if_neg hz, head?_printNat_ne, if_false, h_digits, readNat_printNat]
    rw [if_neg]
    · congr 1; omega
    · have h_ne := printNat_ne_nil z.natAbs
      rw [not_or, not_or]
      exact ⟨h_ne, by omega, by omega⟩

end Bytes
