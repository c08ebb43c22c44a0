import X86OS.Mm.BuddyProperties

set_option autoImplicit false

namespace X86OS

open Tiling Buddy

def pmm : PageAllocator Buddy.State where
  alloc := buddyAllocPages
  free := buddyFreePages
  orderAddr := getOrderAddr

-- The blocks a state of the buddy allocator has handed out, when it manages `region`.
def PmmLive (region : Nat → Prop) (s : Buddy.State) (live : List (Nat × Nat)) : Prop :=
  ∃ tile total, Owned ⟨s, live⟩ region tile total

theorem owned_reorder (s : Buddy.State) (live live' : List (Nat × Nat)) (region : Nat → Prop) (tile : TileMap Kind)
    (total : Nat) (same : live.Perm live') (owned : Owned ⟨s, live⟩ region tile total) :
    Owned ⟨s, live'⟩ region tile total :=
  ⟨owned.inv, same.nodup_iff.mp owned.nodup, fun addr k => same.mem_iff.symm.trans (owned.used addr k)⟩

theorem pmm_alloc_live (region : Nat → Prop) (s s' : Buddy.State) (live : List (Nat × Nat)) (order addr : Nat)
    (held : PmmLive region s live) (done : pmm.alloc order s = .ok (addr, s')) :
    PmmLive region s' ((addr, order) :: live) := by
  obtain ⟨tile, total, owned⟩ := held
  have small := alloc_order_small s s' order addr done
  obtain ⟨tile', owned', -⟩ := step_owned _ _ region tile total owned (.alloc s s' live order addr small done)
  exact ⟨tile', total, owned'⟩

theorem pmm_lawful (region : Nat → Prop) (low : ∀ p, region p → 0x1000 * p + 0x1000 ≤ 2 ^ 30) :
    pmm.Lawful (PmmLive region) where
  apart := by
    rintro s live ⟨tile, total, owned⟩
    exact owned_apart _ region tile total owned
  inRam := by
    rintro s live ⟨tile, total, owned⟩ ⟨addr, k⟩ member
    obtain ⟨i, rfl, head⟩ := (owned.used addr k).mp member
    have positive := Nat.two_pow_pos k
    have last := low _ (owned.inv.rep.tiles.inside i _ head (i + 2 ^ k - 1) (by omega) (by simp only; omega))
    simp only [pageMapReal]
    exact ⟨Nat.dvd_mul_right _ _, by omega⟩
  reorder := by
    rintro s live live' same ⟨tile, total, owned⟩
    exact ⟨tile, total, owned_reorder s live live' region tile total same owned⟩
  allocated := pmm_alloc_live region
  freed := by
    rintro s live order addr ⟨tile, total, owned⟩
    obtain ⟨tile', owned', -⟩ := step_owned _ _ region tile total owned (.free s [] live addr order)
    exact ⟨tile', total, owned'⟩
  orderKept := by
    rintro s live order addr ⟨tile, total, owned⟩ member
    obtain ⟨i, rfl, head⟩ := (owned.used addr order).mp member
    change (s.pageMap (realPageIndex (pageMapReal i))).order = order
    rw [real_page_index]
    exact ((head_iff owned.inv i order .used (by decide)).mp head).2.2

theorem pmm_live_managed (region : Nat → Prop) (s : Buddy.State) (live : List (Nat × Nat)) (addr k : Nat)
    (held : PmmLive region s live) (member : (addr, k) ∈ live) : ∃ p, addr = 0x1000 * p ∧ region p := by
  obtain ⟨tile, total, owned⟩ := held
  obtain ⟨i, rfl, head⟩ := (owned.used addr k).mp member
  have positive := Nat.two_pow_pos k
  exact ⟨i, rfl, owned.inv.rep.tiles.inside i _ head i (by omega) (by simp only; omega)⟩

section Boot

variable (memoryMap : MemoryMap) (slack : Nat → Page) (bump : Bump) (bootable : Bootable memoryMap slack)

include bootable

theorem pmm_boot_lawful : pmm.Lawful (PmmLive (Managed memoryMap (initBuddy memoryMap slack bump).2)) := by
  apply pmm_lawful
  intro p managed
  have low := bootable.low
  have high := managed.2
  rw [totalSize, Nat.mod_eq_of_lt (by omega)] at high
  omega

theorem pmm_boot_live :
    PmmLive (Managed memoryMap (initBuddy memoryMap slack bump).2) (boot memoryMap slack bump).state [] :=
  boot_owned memoryMap slack bump bootable

end Boot

end X86OS
