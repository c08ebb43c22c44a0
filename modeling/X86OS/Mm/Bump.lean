import X86OS.Klib.String
import X86OS.Mm.Layout

set_option autoImplicit false

namespace X86OS

-- `placement_addr` stays a page-aligned 32-bit address; `mem` is the memory the
-- kernel sees through its linear map, indexed by virtual address.
structure Bump where
  mem : Mem
  placementAddr : Nat
  aligned : 0x1000 ∣ placementAddr
  bounded : placementAddr < 2 ^ 32

def initBump (endAddr : Nat) (mem : Mem) : Bump where
  mem := mem
  placementAddr := alignUp endAddr 0x1000
  aligned := by
    rw [show 0x1000 = 2 ^ 12 by rfl, align_up_eq _ 12 (by decide)]
    exact Dvd.intro_left _ rfl
  bounded := by
    rw [show 0x1000 = 2 ^ 12 by rfl, align_up_eq _ 12 (by decide)]
    exact Nat.lt_of_le_of_lt (Nat.div_mul_le_self _ _) (Nat.mod_lt _ (by decide))

def bumpAlloc (numPages : Nat) (bump : Bump) : Nat × Bump :=
  (bump.placementAddr,
    { mem := kmemset (p2v bump.placementAddr) 0 (0x1000 * numPages) bump.mem
      placementAddr := (bump.placementAddr + 0x1000 * numPages) % 2 ^ 32
      aligned := by
        have := bump.aligned
        omega
      bounded := Nat.mod_lt _ (by decide) })

def getPlacementAddr (bump : Bump) : Nat := bump.placementAddr

end X86OS
