import Mathlib.Data.Nat.Digits.Lemmas
import Mathlib.Tactic

set_option autoImplicit false

namespace X86OS.Numeral

variable {α : Type}

-- Positional numerals, most significant digit first, over any set of digits.
def numeral (digit : Nat → α) (base n : Nat) : List α :=
  if n = 0 then [digit 0] else ((Nat.digits base n).map digit).reverse

def value (index : α → Nat) (base : Nat) (text : List α) : Nat := text.foldl (fun v c => v * base + index c) 0

-- The numeral of `n`: it parses back to it and has no leading zero.
structure Canonical (index : α → Nat) (base n : Nat) (text : List α) : Prop where
  below : ∀ c ∈ text, index c < base
  parses : value index base text = n
  leading : text.length = 1 ∨ ∃ c rest, text = c :: rest ∧ index c ≠ 0

theorem value_reverse (index : α → Nat) (base : Nat) (text : List α) :
    value index base text.reverse = Nat.ofDigits base (text.map index) := by
  induction text with
  | nil => rfl
  | cons c rest ih =>
      rw [value] at ih
      rw [value, List.reverse_cons, List.foldl_append, ih, List.map_cons, Nat.ofDigits_cons,
        List.foldl_cons, List.foldl_nil]
      ring

section Canonical

variable (digit : Nat → α) (index : α → Nat) (base : Nat) (inverse : ∀ d < base, index (digit d) = d) (large : 1 < base)

include inverse large

theorem digits_index (n : Nat) : ((Nat.digits base n).map digit).map index = Nat.digits base n := by
  rw [List.map_map]
  refine (List.map_congr_left (fun d member => ?_)).trans (List.map_id _)
  exact inverse d (Nat.digits_lt_base large member)

theorem numeral_canonical (n : Nat) : Canonical index base n (numeral digit base n) := by
  by_cases zero : n = 0
  · rw [numeral, if_pos zero]
    refine ⟨?_, ?_, .inl rfl⟩
    · simp only [List.mem_singleton, forall_eq, inverse 0 (by omega)]
      omega
    · simp [value, inverse 0 (by omega), zero]
  · rw [numeral, if_neg zero]
    refine ⟨?_, ?_, .inr ?_⟩
    · intro c member
      obtain ⟨d, isDigit, rfl⟩ := List.mem_map.mp (List.mem_reverse.mp member)
      have below := Nat.digits_lt_base large isDigit
      rwa [inverse d below]
    · rw [value_reverse, digits_index digit index base inverse large, Nat.ofDigits_digits]
    · have some : Nat.digits base n ≠ [] := Nat.digits_ne_nil_iff_ne_zero.mpr zero
      have top := Nat.getLast_digit_ne_zero base zero
      have last := List.dropLast_append_getLast some
      refine ⟨digit ((Nat.digits base n).getLast some), ((Nat.digits base n).dropLast.map digit).reverse, ?_, ?_⟩
      · nth_rewrite 1 [← last]
        simp
      · rwa [inverse _ (Nat.digits_lt_base large (List.getLast_mem some))]

end Canonical

end X86OS.Numeral
