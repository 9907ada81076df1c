import Mathlib.Data.Nat.Bitwise

/-!
# Rounding up to a power of two

The usual C idiom `(value + mask) & ~mask` with `mask = alignment - 1`.
-/

namespace RiscMv

/-- A positive number that shares no bit with its predecessor is a power of two. -/
theorem isPowerOfTwo_of_and_pred {a : Nat} (hpos : a ≠ 0) (h : a &&& (a - 1) = 0) :
    a.isPowerOfTwo := by
  refine ⟨a.log2, ?_⟩
  have hle := Nat.log2_self_le hpos
  by_contra hne
  -- otherwise the highest bit is set in both
  have hlog : (a - 1).log2 = a.log2 := by
    rw [Nat.log2_eq_iff (by have := Nat.two_pow_pos a.log2; omega)]
    have hlt := Nat.lt_log2_self (n := a)
    omega
  have hbit : (a &&& (a - 1)).testBit a.log2 = true := by
    have hpred : (a - 1).testBit (a - 1).log2 = true :=
      Nat.testBit_log2 (by have := Nat.two_pow_pos a.log2; omega)
    rw [hlog] at hpred
    rw [Nat.testBit_and, Nat.testBit_log2 hpos, hpred]
    rfl
  rw [h, Nat.zero_testBit] at hbit
  cases hbit

/-- Clearing the low bits of a 64-bit number. -/
theorem and_not_mask {x k : Nat} (hx : x < 2 ^ 64) (hk : k ≤ 64) :
    x &&& (2 ^ 64 - 1 - (2 ^ k - 1)) = x - x % 2 ^ k := by
  have hmask : 2 ^ k - 1 < 2 ^ 64 := by
    have hpos := Nat.two_pow_pos k
    have hpow := Nat.pow_le_pow_right (n := 2) (by decide) hk
    omega
  have hshift : x - x % 2 ^ k = x >>> k <<< k := by
    rw [Nat.shiftLeft_eq, Nat.shiftRight_eq_div_pow]
    have hdiv := Nat.div_add_mod x (2 ^ k)
    rw [Nat.mul_comm] at hdiv
    omega
  rw [hshift, Nat.sub_sub, Nat.add_comm 1]
  apply Nat.eq_of_testBit_eq
  intro i
  rw [Nat.testBit_and, Nat.testBit_two_pow_sub_succ hmask, Nat.testBit_two_pow_sub_one,
    Nat.testBit_shiftLeft, Nat.testBit_shiftRight]
  by_cases hik : i < k
  · simp [hik]
  · have hadd : k + (i - k) = i := by omega
    rw [hadd]
    by_cases hi : i < 64
    · simp [hi, hik, Nat.le_of_not_lt hik]
    · have hzero : x.testBit i = false :=
        Nat.testBit_lt_two_pow (Nat.lt_of_lt_of_le hx (Nat.pow_le_pow_right (by decide) (by omega)))
      simp [hzero]

/-- The least multiple of `a` that is at least `n`. -/
structure IsAlignUp (a n r : Nat) : Prop where
  dvd : a ∣ r
  le : n ≤ r
  least : ∀ p, a ∣ p → n ≤ p → r ≤ p

theorem isAlignUp_mod {a n : Nat} (ha : 0 < a) :
    IsAlignUp a n ((n + (a - 1)) - (n + (a - 1)) % a) := by
  have hlt := Nat.mod_lt (n + (a - 1)) ha
  have hmul : (n + (a - 1)) - (n + (a - 1)) % a = a * ((n + (a - 1)) / a) := by
    have hdiv := Nat.div_add_mod (n + (a - 1)) a
    omega
  refine ⟨⟨_, hmul⟩, by omega, ?_⟩
  rintro p ⟨q, rfl⟩ hp
  rw [hmul]
  -- `n + (a - 1) < a * q + a`
  apply Nat.mul_le_mul_left
  have hq : (n + (a - 1)) / a < q + 1 := by
    rw [Nat.div_lt_iff_lt_mul ha, Nat.add_mul, Nat.mul_comm q]
    omega
  omega

end RiscMv
