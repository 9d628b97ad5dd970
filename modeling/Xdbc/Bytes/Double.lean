import Xdbc.Bytes.Decimal

/-!
# Floating-point numbers as text

A double is the 64-bit word of its memory. `printDouble` is the text that `"%.2f"` prints: the exact
value, rounded to hundredths, to an even one if there are two of them. The text of a finite double
has from 4 to 313 characters (`length_printDouble`), and any number of them in between
(`exists_length_printDouble`).
-/

namespace Bytes

/-! ### The word of a double -/

/-- The sign of a double. -/
def signBit (x : UInt64) : Bool := 2 ^ 63 ≤ x.toNat

/-- The biased exponent of a double. -/
def exponentBits (x : UInt64) : ℕ := x.toNat / 2 ^ 52 % 2 ^ 11

/-- The fraction of a double. -/
def fractionBits (x : UInt64) : ℕ := x.toNat % 2 ^ 52

/-- The double is neither infinite nor a NaN. -/
def IsFinite (x : UInt64) : Prop := exponentBits x ≠ 2047

instance (x : UInt64) : Decidable (IsFinite x) := inferInstanceAs (Decidable (_ ≠ _))

/-- The significand, with its leading bit if the double is normal. -/
def significand (x : UInt64) : ℕ :=
  if exponentBits x = 0 then fractionBits x else 2 ^ 52 + fractionBits x

/-- The quotient rounded to the nearest integer, or to the even one of two. -/
def roundHalfEven (num den : ℕ) : ℕ :=
  if den < 2 * (num % den) ∨ 2 * (num % den) = den ∧ num / den % 2 = 1 then num / den + 1
  else num / den

/-- The magnitude of a finite double in hundredths. The magnitude is the significand times a power
of two with the exponent `max (exponentBits x) 1 - 1075`. -/
def hundredths (x : UInt64) : ℕ :=
  roundHalfEven (100 * (significand x * 2 ^ max (exponentBits x) 1)) (2 ^ 1075)

/-- `sprintf("%.2f", x)`. -/
def printDouble (x : UInt64) : List UInt8 :=
  (if signBit x then [45] else []) ++
    if IsFinite x then
      printNat (hundredths x / 100) ++
        [46, digitByte (hundredths x / 10 % 10), digitByte (hundredths x % 10)]
    else if fractionBits x = 0 then [105, 110, 102]
    else [110, 97, 110]

/-! ### Arithmetic -/

/-- The double nearest to `num * 2 ^ e`; `last` is the exponent of the last bit of its
significand. -/
def roundDouble (sign : Bool) (num : ℕ) (e : ℤ) : UInt64 :=
  let last := if num = 0 then -1074 else max (Nat.log2 num + e - 52) (-1074)
  let m :=
    if last ≤ e then num * 2 ^ (e - last).toNat else roundHalfEven num (2 ^ (last - e).toNat)
  UInt64.ofNat ((if sign then 2 ^ 63 else 0)
    + min ((last + 1074).toNat * 2 ^ 52 + m) (2047 * 2 ^ 52))

/-- An integer as a double. -/
def doubleOfInt (z : ℤ) : UInt64 := roundDouble (z < 0) z.natAbs 0

/-- The product of two finite doubles. -/
def mulDouble (x y : UInt64) : UInt64 :=
  roundDouble (signBit x ^^ signBit y) (significand x * significand y)
    (max (exponentBits x) 1 + max (exponentBits y) 1 - 2 * 1075)

/-- 700 hundredths are 7, and 3 hundredths are rounded. -/
example : mulDouble (doubleOfInt 700) 0x3F847AE147AE147B = 0x401C000000000000 ∧
    mulDouble (doubleOfInt 3) 0x3F847AE147AE147B = 0x3F9EB851EB851EB8 := by decide +kernel

/-! ### The length of the text -/

theorem length_printNat_le {m k : ℕ} (hk : 1 ≤ k) (h : m < 10 ^ k) : (printNat m).length ≤ k := by
  rw [printNat]
  split
  · exact hk
  · rw [List.length_reverse, List.length_map]
    exact (Nat.digits_length_le_iff (by decide) m).mpr h

theorem le_length_printNat {m k : ℕ} (h : 10 ^ k ≤ m) : k + 1 ≤ (printNat m).length := by
  have h_ne : m ≠ 0 := Nat.ne_of_gt ((Nat.pow_pos (by decide)).trans_le h)
  rw [printNat, if_neg h_ne, List.length_reverse, List.length_map]
  exact (Nat.lt_digits_length_iff (by decide) m).mpr h

theorem length_printNat_pos (m : ℕ) : 1 ≤ (printNat m).length :=
  List.length_pos_of_ne_nil (printNat_ne_nil m)

/-- The text of a number between two powers of ten. -/
theorem length_printNat_eq {m k : ℕ} (h_lo : 10 ^ k ≤ m) (h_hi : m < 10 ^ (k + 1)) :
    (printNat m).length = k + 1 :=
  le_antisymm (length_printNat_le (Nat.le_add_left 1 k) h_hi) (le_length_printNat h_lo)

theorem roundHalfEven_le (num den : ℕ) : roundHalfEven num den ≤ num / den + 1 := by
  unfold roundHalfEven
  split
  · exact le_rfl
  · exact Nat.le_succ _

/-- An exact quotient is not rounded. -/
theorem roundHalfEven_mul (q : ℕ) {den : ℕ} (h : 0 < den) : roundHalfEven (q * den) den = q := by
  rw [roundHalfEven, Nat.mul_mod_left, Nat.mul_div_cancel _ h, if_neg (by omega)]

theorem significand_lt (x : UInt64) : significand x < 2 ^ 53 := by
  have h_lt : fractionBits x < 2 ^ 52 := Nat.mod_lt _ (by decide)
  unfold significand
  split <;> omega

/-- The integer part of a finite double has at most 309 digits. -/
theorem hundredths_div_lt {x : UInt64} (h : IsFinite x) : hundredths x / 100 < 10 ^ 309 := by
  have h_exp : max (exponentBits x) 1 ≤ 971 + 1075 := by
    have h_lt : exponentBits x < 2048 := Nat.mod_lt _ (by decide)
    have h_ne : exponentBits x ≠ 2047 := h
    omega
  have h_split : ∀ {a b : ℕ}, max (exponentBits x) 1 ≤ a + b →
      2 ^ max (exponentBits x) 1 ≤ 2 ^ a * 2 ^ b := fun {a b} h_le =>
    (Nat.pow_le_pow_right (by decide) h_le).trans_eq (Nat.pow_add 2 a b)
  have h_pow := h_split h_exp
  have h_sig := Nat.le_of_lt_succ ((significand_lt x).trans_eq (by decide : 2 ^ 53 = 2 ^ 53 - 1 + 1))
  have h_num : 100 * (significand x * 2 ^ max (exponentBits x) 1)
      ≤ 100 * ((2 ^ 53 - 1) * 2 ^ 971) * 2 ^ 1075 := by
    rw [Nat.mul_assoc, Nat.mul_assoc]
    exact Nat.mul_le_mul_left _ (Nat.mul_le_mul h_sig h_pow)
  have h_quot := (Nat.div_le_div_right h_num).trans_eq (Nat.mul_div_cancel _ (Nat.two_pow_pos 1075))
  have h_round := roundHalfEven_le (100 * (significand x * 2 ^ max (exponentBits x) 1)) (2 ^ 1075)
  have h_all : hundredths x ≤ 100 * ((2 ^ 53 - 1) * 2 ^ 971) + 1 :=
    h_round.trans (Nat.add_le_add_right h_quot 1)
  have h_max : (2 ^ 53 - 1) * 2 ^ 971 < 10 ^ 309 := by decide +kernel
  generalize (2 ^ 53 - 1) * 2 ^ 971 = a at h_all h_max
  generalize 10 ^ 309 = b at h_max ⊢
  omega

/-- **The text of a finite double has at most 313 characters.** -/
theorem length_printDouble {x : UInt64} (h : IsFinite x) :
    4 ≤ (printDouble x).length ∧ (printDouble x).length ≤ 313 := by
  have h_le := length_printNat_le (by decide) (hundredths_div_lt h)
  have h_pos := length_printNat_pos (hundredths x / 100)
  rw [printDouble, if_pos h, List.length_append, List.length_append]
  split
  · simp only [List.length_cons, List.length_nil]
    omega
  · simp only [List.length_cons, List.length_nil]
    omega

/-! ### Doubles with a given length -/

/-- The positive double with the given exponent and fraction. -/
def doubleOf (sign : Bool) (e f : ℕ) : UInt64 :=
  UInt64.ofNat ((if sign then 2 ^ 63 else 0) + e * 2 ^ 52 + f)

section DoubleOf

variable {sign : Bool} {e f : ℕ}

theorem toNat_doubleOf (he : e < 2 ^ 11) (hf : f < 2 ^ 52) :
    (doubleOf sign e f).toNat = (if sign then 2 ^ 63 else 0) + e * 2 ^ 52 + f := by
  rw [doubleOf, UInt64.toNat_ofNat', Nat.mod_eq_of_lt]
  split <;> omega

theorem signBit_doubleOf (he : e < 2 ^ 11) (hf : f < 2 ^ 52) : signBit (doubleOf sign e f) = sign := by
  rw [signBit, toNat_doubleOf he hf]
  cases sign
  · simp only [Bool.false_eq_true, if_false, decide_eq_false_iff_not]
    omega
  · simp only [if_true, decide_eq_true_eq]
    omega

theorem exponentBits_doubleOf (he : e < 2 ^ 11) (hf : f < 2 ^ 52) :
    exponentBits (doubleOf sign e f) = e := by
  rw [exponentBits, toNat_doubleOf he hf]
  split <;> omega

theorem fractionBits_doubleOf (he : e < 2 ^ 11) (hf : f < 2 ^ 52) :
    fractionBits (doubleOf sign e f) = f := by
  rw [fractionBits, toNat_doubleOf he hf]
  split <;> omega

theorem isFinite_doubleOf (he : e < 2047) (hf : f < 2 ^ 52) : IsFinite (doubleOf sign e f) := by
  rw [IsFinite, exponentBits_doubleOf (by omega) hf]
  omega

theorem significand_doubleOf (he : e < 2 ^ 11) (h_pos : 0 < e) (hf : f < 2 ^ 52) :
    significand (doubleOf sign e f) = 2 ^ 52 + f := by
  rw [significand, exponentBits_doubleOf he hf, fractionBits_doubleOf he hf, if_neg (by omega)]

end DoubleOf

/-- The text of a double whose magnitude is an integer. -/
theorem length_printDouble_eq {x : UInt64} (h : IsFinite x) {q k : ℕ}
    (h_exact : significand x * 2 ^ max (exponentBits x) 1 = q * 2 ^ 1075) (h_lo : 10 ^ k ≤ q)
    (h_hi : q < 10 ^ (k + 1)) :
    (printDouble x).length = (if signBit x then 1 else 0) + (k + 4) := by
  have h_hundredths : hundredths x = 100 * q := by
    rw [hundredths, h_exact, ← Nat.mul_assoc, roundHalfEven_mul _ (Nat.two_pow_pos 1075)]
  have h_digits := length_printNat_eq h_lo h_hi
  rw [printDouble, if_pos h, h_hundredths, Nat.mul_div_cancel_left q (by decide),
    List.length_append, List.length_append, h_digits]
  split <;> rfl

/-- A power of two with any number of digits. -/
theorem exists_two_pow {k : ℕ} (hk : k ≤ 307) : ∃ j ≤ 1023, 10 ^ k ≤ 2 ^ j ∧ 2 ^ j < 10 ^ (k + 1) := by
  have h_max : 10 ^ 307 ≤ 2 ^ 1023 := by decide +kernel
  refine ⟨Nat.clog 2 (10 ^ k), Nat.clog_le_of_le_pow ?_, Nat.le_pow_clog (by decide) _, ?_⟩
  · exact (Nat.pow_le_pow_right (by decide) hk).trans h_max
  · rcases Nat.eq_zero_or_pos k with rfl | h_pos
    · rw [Nat.pow_zero, Nat.clog_one_right]
      decide
    · have h_one : 1 < 10 ^ k := Nat.one_lt_pow (Nat.ne_of_gt h_pos) (by decide)
      have h_pred := Nat.pow_pred_clog_lt_self (by decide : 1 < 2) h_one
      have h_clog : Nat.clog 2 (10 ^ k) = (Nat.clog 2 (10 ^ k)).pred + 1 :=
        (Nat.succ_pred_eq_of_pos (Nat.clog_pos (by decide) h_one)).symm
      rw [h_clog, Nat.pow_succ, Nat.pow_succ]
      omega

/-- **There is a finite double with any of these lengths.** -/
theorem exists_length_printDouble {n : ℕ} (h_lo : 4 ≤ n) (h_hi : n ≤ 313) :
    ∃ x, IsFinite x ∧ (printDouble x).length = n := by
  rcases Nat.lt_or_ge n 312 with h_small | h_large
  · -- a power of two with so many digits
    obtain ⟨j, hj, h_digits⟩ := exists_two_pow (show n - 4 ≤ 307 by omega)
    have he : 1023 + j < 2 ^ 11 := by omega
    have hf : 0 < 2 ^ 52 := Nat.two_pow_pos 52
    refine ⟨doubleOf false (1023 + j) 0, isFinite_doubleOf (by omega) hf, ?_⟩
    rw [length_printDouble_eq (isFinite_doubleOf (by omega) hf) ?_ h_digits.1 h_digits.2,
      signBit_doubleOf he hf, if_neg Bool.false_ne_true]
    · omega
    · rw [significand_doubleOf he (by omega) hf, exponentBits_doubleOf he hf,
        Nat.max_eq_left (by omega), Nat.add_zero, ← Nat.pow_add, ← Nat.pow_add]
      congr 1
      omega
  · -- the largest exponent, with a sign or without one
    have he : 2046 < 2 ^ 11 := by decide
    have hf : 2 ^ 51 < 2 ^ 52 := by decide
    have h_digits : 10 ^ 308 ≤ 3 * 2 ^ 1022 ∧ 3 * 2 ^ 1022 < 10 ^ (308 + 1) := by decide +kernel
    have h_fin : ∀ sign, IsFinite (doubleOf sign 2046 (2 ^ 51)) := fun sign =>
      isFinite_doubleOf (by decide) hf
    have h_exact : ∀ sign, significand (doubleOf sign 2046 (2 ^ 51))
        * 2 ^ max (exponentBits (doubleOf sign 2046 (2 ^ 51))) 1 = 3 * 2 ^ 1022 * 2 ^ 1075 := by
      intro sign
      rw [significand_doubleOf he (by decide) hf, exponentBits_doubleOf he hf]
      decide +kernel
    refine ⟨doubleOf (decide (n = 313)) 2046 (2 ^ 51), h_fin _, ?_⟩
    rw [length_printDouble_eq (h_fin _) (h_exact _) h_digits.1 h_digits.2, signBit_doubleOf he hf]
    rcases Nat.lt_or_ge n 313 with h_lt | h_ge
    · rw [decide_eq_false (by omega), if_neg Bool.false_ne_true]
      omega
    · rw [decide_eq_true (by omega), if_pos rfl]
      omega

end Bytes
