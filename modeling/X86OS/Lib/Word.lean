import Mathlib.Tactic

set_option autoImplicit false

namespace X86OS.Word

-- Unsigned 32-bit arithmetic on naturals below 2^32. The first operand stands last in
-- the sum, so that the kernel is stuck on it and never counts to 2^32 when it compares
-- two states.
@[irreducible] def add (a b : Nat) : Nat := (b + a) % 2 ^ 32

@[irreducible] def sub (a b : Nat) : Nat := (2 ^ 32 - b % 2 ^ 32 + a) % 2 ^ 32

theorem add_exact (a b : Nat) (fits : a + b < 2 ^ 32) : add a b = a + b := by
  rw [add, Nat.add_comm, Nat.mod_eq_of_lt fits]

theorem sub_exact (a b : Nat) (small : a < 2 ^ 32) (covered : b ≤ a) : sub a b = a - b := by
  simp only [sub]
  omega

theorem or_low_eq_add (a b k : Nat) (aligned : 2 ^ k ∣ a) (low : b < 2 ^ k) : a ||| b = a + b := by
  obtain ⟨c, rfl⟩ := aligned
  exact (Nat.two_pow_add_eq_or_of_lt low c).symm

theorem and_high_mask (x k : Nat) (bound : x < 2 ^ 32) (small : k ≤ 32) :
    x &&& (2 ^ 32 - 2 ^ k) = x / 2 ^ k * 2 ^ k := by
  have mask : 2 ^ 32 - 2 ^ k = 2 ^ 32 - ((2 ^ k - 1) + 1) := by
    have := Nat.two_pow_pos k
    omega
  have fits : 2 ^ k - 1 < 2 ^ 32 := by
    have := Nat.pow_le_pow_right (n := 2) (by decide) small
    have := Nat.two_pow_pos k
    omega
  apply Nat.eq_of_testBit_eq
  intro i
  rw [mask, Nat.testBit_and, Nat.testBit_two_pow_sub_succ fits, Nat.testBit_mul_two_pow, Nat.testBit_two_pow_sub_one]
  by_cases low : k ≤ i
  · have shifted : i - k + k = i := Nat.sub_add_cancel low
    rw [Nat.testBit_div_two_pow, shifted]
    by_cases high : i < 32
    · simp [low, high]
    · have clear : x.testBit i = false := by
        apply Nat.testBit_lt_two_pow
        calc x < 2 ^ 32 := bound
          _ ≤ 2 ^ i := Nat.pow_le_pow_right (by decide) (by omega)
      simp [clear]
  · simp [low, Nat.lt_of_not_le low]

theorem test_bit_of_dvd (i k : Nat) (aligned : 2 ^ (k + 1) ∣ i) : i.testBit k = false := by
  obtain ⟨c, rfl⟩ := aligned
  rw [Nat.testBit_two_pow_mul]
  simp

theorem xor_two_pow_lower (i k : Nat) (aligned : 2 ^ (k + 1) ∣ i) : i ^^^ 2 ^ k = i + 2 ^ k := by
  rw [← or_low_eq_add i (2 ^ k) (k + 1) aligned (Nat.pow_lt_pow_right (by decide) (by omega))]
  apply Nat.eq_of_testBit_eq
  intro j
  rw [Nat.testBit_xor, Nat.testBit_or, Nat.testBit_two_pow]
  by_cases same : k = j
  · subst same
    simp [test_bit_of_dvd i k aligned]
  · simp [same]

theorem xor_two_pow_upper (i k : Nat) (aligned : 2 ^ (k + 1) ∣ i) : (i + 2 ^ k) ^^^ 2 ^ k = i := by
  rw [← xor_two_pow_lower i k aligned, Nat.xor_assoc, Nat.xor_self, Nat.xor_zero]

theorem half_of_parent (i k : Nat) (aligned : 2 ^ k ∣ i) : 2 ^ (k + 1) ∣ i ∨ ∃ a, 2 ^ (k + 1) ∣ a ∧ i = a + 2 ^ k := by
  obtain ⟨c, rfl⟩ := aligned
  rcases Nat.even_or_odd' c with ⟨d, even | odd⟩
  · left
    exact ⟨d, by rw [even, pow_succ]; ring⟩
  · right
    exact ⟨2 ^ (k + 1) * d, ⟨d, rfl⟩, by rw [odd, pow_succ]; ring⟩

end X86OS.Word
