import X86OS.Lib.Word

set_option autoImplicit false

namespace X86OS

def kernelVirtualBase : Nat := 0xC0000000

def p2v (addr : Nat) : Nat := Word.add addr kernelVirtualBase

def v2p (addr : Nat) : Nat := Word.sub addr kernelVirtualBase

def isAligned (x align : Nat) : Bool := x &&& (align - 1) == 0

-- `~(align - 1)` is `2^32 - align` in 32 bits.
def alignUp (x align : Nat) : Nat := (x + align - 1) % 2 ^ 32 &&& (2 ^ 32 - align)

-- The fields of `memory_map_t` that the memory managers read.
structure MemoryMapEntry where
  addr : Nat
  size : Nat
deriving DecidableEq, Repr

abbrev MemoryMap := Nat → MemoryMapEntry

theorem p2v_low (addr : Nat) (low : addr < 2 ^ 30) : p2v addr = addr + kernelVirtualBase := by
  simp only [p2v, Word.add, kernelVirtualBase]
  omega

theorem v2p_p2v (addr : Nat) (bound : addr < 2 ^ 32) : v2p (p2v addr) = addr := by
  simp only [v2p, p2v, Word.add, Word.sub, kernelVirtualBase]
  omega

theorem p2v_v2p (addr : Nat) (bound : addr < 2 ^ 32) : p2v (v2p addr) = addr := by
  simp only [v2p, p2v, Word.add, Word.sub, kernelVirtualBase]
  omega

theorem is_aligned_iff (x k : Nat) : isAligned x (2 ^ k) = true ↔ 2 ^ k ∣ x := by
  rw [isAligned, beq_iff_eq, Nat.and_two_pow_sub_one_eq_mod, Nat.dvd_iff_mod_eq_zero]

theorem align_up_eq (x k : Nat) (small : k ≤ 32) : alignUp x (2 ^ k) = (x + 2 ^ k - 1) % 2 ^ 32 / 2 ^ k * 2 ^ k :=
  Word.and_high_mask _ k (Nat.mod_lt _ (by decide)) small

end X86OS
