import Mathlib.Tactic

set_option autoImplicit false

namespace X86OS

def Apart (x y : Nat × Nat) : Prop := x.1 + 0x1000 * 2 ^ x.2 ≤ y.1 ∨ y.1 + 0x1000 * 2 ^ y.2 ≤ x.1

instance : Std.Symm Apart := ⟨fun _ _ => Or.symm⟩

structure PageAllocator (σ : Type) where
  alloc : Nat → σ → Except String (Nat × σ)
  free : Nat → σ → σ
  orderAddr : σ → Nat → Nat

-- `Live s live` says that the blocks `live`, as (address, order), are handed out in state `s`.
structure PageAllocator.Lawful {σ : Type} (A : PageAllocator σ) (Live : σ → List (Nat × Nat) → Prop) : Prop where
  apart : ∀ s live, Live s live → live.Pairwise Apart
  inRam : ∀ s live, Live s live → ∀ block ∈ live, 0x1000 ∣ block.1 ∧ block.1 + 0x1000 * 2 ^ block.2 ≤ 2 ^ 30
  reorder : ∀ s live live', live.Perm live' → Live s live → Live s live'
  allocated : ∀ s s' live order addr, Live s live → A.alloc order s = .ok (addr, s') → Live s' ((addr, order) :: live)
  freed : ∀ s live order addr, Live s ((addr, order) :: live) → Live (A.free addr s) live
  orderKept : ∀ s live order addr, Live s live → (addr, order) ∈ live → A.orderAddr s addr = order

end X86OS
