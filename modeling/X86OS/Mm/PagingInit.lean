import X86OS.Mm.BootMap
import X86OS.Mm.BuddyBounds

set_option autoImplicit false

namespace X86OS.Paging

open Mem Buddy

-- The symbols of the linker script: `_ro_start` is 0xC0100000, `_ro_end` is `_rw_start` and
-- `_rw_end` is `_kernel_end`. `kernel_page_directory` is a page of .bss.
structure Sections where
  roEnd : Nat
  kernelEnd : Nat
  kernelPageDirectory : Nat
  alignedRo : 0x1000 ∣ roEnd
  alignedEnd : 0x1000 ∣ kernelEnd
  alignedPd : 0x1000 ∣ kernelPageDirectory
  roStart : 0xC0100000 ≤ roEnd
  inBss : roEnd ≤ kernelPageDirectory ∧ kernelPageDirectory + 0x1000 ≤ kernelEnd
  bounded : kernelEnd < 2 ^ 32

-- Until `paging_init` loads its own directory the one of kernel_entry.asm is in force: slot 768 maps
-- the first 4 MiB of memory, and a write anywhere else faults.
def bootMaps (vaddr : Nat) : Prop := vaddr / fourMb = kernelVirtualBase / fourMb

instance (vaddr : Nat) : Decidable (bootMaps vaddr) := inferInstanceAs (Decidable (_ = _))

def bootTables : TableSource Bump where
  mem := Bump.mem
  setMem bump mem := { bump with mem := mem }
  alloc bump := if bootMaps (p2v bump.placementAddr) then .ok (bumpAlloc 1 bump) else .error "Page Fault"
  memSet := bumpTables.memSet

def bootMapRange (pd paddr vaddr size flag : Nat) (bump : Bump) : Except String Bump :=
  mapPages bootTables pd paddr vaddr size flag bump

def mapBios (pd : Nat) (bump : Bump) : Except String Bump := do
  let bump ← bootMapRange pd 0x0 (p2v 0x0) 1 pagePresent bump
  let bump ← bootMapRange pd 0x1000 (p2v 0x1000) ((0x80000 - 0x1000) / 0x1000) (pagePresent ||| pageRw) bump
  let bump ← bootMapRange pd 0x80000 (p2v 0x80000) ((0xA0000 - 0x80000) / 0x1000) pagePresent bump
  let bump ← bootMapRange pd 0xA0000 (p2v 0xA0000) ((0xC0000 - 0xA0000) / 0x1000)
    (pagePresent ||| pageRw ||| pageNoCache ||| pageWriteThrough) bump
  bootMapRange pd 0xC0000 (p2v 0xC0000) ((0x100000 - 0xC0000) / 0x1000) (pagePresent ||| pageNoCache) bump

-- The memory map's fields have 64 bits, the variables 32.
def mapKernel (sections : Sections) (memoryMap : MemoryMap) (bump : Bump) : Except String Bump := do
  let pd := sections.kernelPageDirectory
  let roStart := v2p 0xC0100000
  let roEnd := v2p sections.roEnd
  let rwStart := v2p sections.roEnd
  let rwEnd := v2p sections.kernelEnd
  let kernelEnd := v2p sections.kernelEnd
  let bump ← bootMapRange pd roStart (p2v roStart) (Word.sub roEnd roStart / 0x1000) pagePresent bump
  let bump ← bootMapRange pd rwStart (p2v rwStart) (Word.sub rwEnd rwStart / 0x1000) (pagePresent ||| pageRw) bump
  let ramPhysEnd := (0x100000 + (memoryMap 3).size) % 2 ^ 32
  let freeSize := Word.sub ramPhysEnd kernelEnd
  let bump ← bootMapRange pd kernelEnd (p2v kernelEnd) (freeSize / 0x1000) (pagePresent ||| pageRw) bump
  let acpi := (memoryMap 4).addr % 2 ^ 32
  bootMapRange pd acpi (p2v acpi) ((memoryMap 4).size / 0x1000 % 2 ^ 32) pagePresent bump

def pagingInit (sections : Sections) (memoryMap : MemoryMap) (bump : Bump) : Except String Bump := do
  let pd := sections.kernelPageDirectory
  if bootMaps pd then
    let bump := { bump with mem := kmemset pd 0 0x1000 bump.mem }
    let bump ← mapBios pd bump
    mapKernel sections memoryMap bump
  else .error "Page Fault"

-- The processor asks for the bit in the directory entry and, unless that maps 4 MiB, in the
-- page table's entry.
def allows (bit : Nat) (mem : Mem) (pd page : Nat) : Bool :=
  let pde := entry mem pd (page / 1024)
  pde &&& bit != 0 && (isLarge pde || entry mem (p2v (pde &&& pageMask)) (page % 1024) &&& bit != 0)

def writable (mem : Mem) (pd page : Nat) : Bool := allows pageRw mem pd page
def userAccessible (mem : Mem) (pd page : Nat) : Bool := allows pageUser mem pd page

structure Regions (memoryMap : MemoryMap) : Prop where
  start : (memoryMap 3).addr = 0x100000
  size : 0x1000 ∣ (memoryMap 3).size
  low : (memoryMap 3).addr + (memoryMap 3).size ≤ 0x3FC00000
  acpi : 0x1000 ∣ (memoryMap 4).addr ∧ 0x1000 ∣ (memoryMap 4).size
  above : (memoryMap 3).addr + (memoryMap 3).size ≤ (memoryMap 4).addr
  below : (memoryMap 4).addr + (memoryMap 4).size ≤ 2 ^ 30

-- One boot-time call: all of them map at P2V of the physical address.
structure Range where
  paddr : Nat
  size : Nat
  flag : Nat

def mapRanges (T : TableSource Bump) (pd : Nat) : List Range → Bump → Except String Bump
  | [], bump => pure bump
  | r :: rest, bump => do
      let bump ← mapPages T pd r.paddr (p2v r.paddr) r.size r.flag bump
      mapRanges T pd rest bump

def bootRanges (sections : Sections) (memoryMap : MemoryMap) : List Range :=
  [⟨0x0, 1, 1⟩, ⟨0x1000, 0x7F, 3⟩, ⟨0x80000, 0x20, 1⟩, ⟨0xA0000, 0x20, 0x1B⟩, ⟨0xC0000, 0x40, 0x11⟩,
    ⟨v2p 0xC0100000, Word.sub (v2p sections.roEnd) (v2p 0xC0100000) / 0x1000, 1⟩,
    ⟨v2p sections.roEnd, Word.sub (v2p sections.kernelEnd) (v2p sections.roEnd) / 0x1000, 3⟩,
    ⟨v2p sections.kernelEnd, Word.sub ((0x100000 + (memoryMap 3).size) % 2 ^ 32) (v2p sections.kernelEnd) / 0x1000, 3⟩,
    ⟨(memoryMap 4).addr % 2 ^ 32, (memoryMap 4).size / 0x1000 % 2 ^ 32, 1⟩]

def clearDirectory (sections : Sections) (bump : Bump) : Bump :=
  { bump with mem := bump.mem.fill sections.kernelPageDirectory 0x1000 0 }

theorem paging_init_eq (sections : Sections) (memoryMap : MemoryMap) (bump : Bump) :
    pagingInit sections memoryMap bump =
      if bootMaps sections.kernelPageDirectory then
        mapRanges bootTables sections.kernelPageDirectory (bootRanges sections memoryMap) (clearDirectory sections bump)
      else .error "Page Fault" := by
  simp only [pagingInit, mapBios, mapKernel, mapRanges, bootRanges, clearDirectory, kmemset_eq_fill,
    bind_assoc, bind_pure]
  rfl

section Fault

variable (pd flag : Nat)

theorem boot_maps_low (addr : Nat) (low : addr < 2 ^ 32) : bootMaps (p2v addr) ↔ addr < fourMb := by
  simp only [bootMaps, p2v, Word.add, kernelVirtualBase, fourMb]
  omega

theorem open_table_boot (k : Nat) (bump : Bump) : ∃ bump', openTable bumpTables pd k flag bump = .ok bump' ∧
    ((bump'.placementAddr = bump.placementAddr ∧ openTable bootTables pd k flag bump = .ok bump') ∨
      (bump'.placementAddr = (bump.placementAddr + 0x1000) % 2 ^ 32 ∧
        openTable bootTables pd k flag bump = if bootMaps (p2v bump.placementAddr) then .ok bump'
          else .error "Page Fault")) := by
  by_cases absent : entry bump.mem pd k &&& pagePresent = 0
  · refine ⟨_, if_pos absent, .inr ⟨rfl, ?_⟩⟩
    rw [openTable]
    by_cases mapped : bootMaps (p2v bump.placementAddr)
    · simp only [bootTables, if_pos absent, if_pos mapped]
      rfl
    · simp only [bootTables, if_pos absent, if_neg mapped]
  · exact ⟨bump, if_neg absent, .inl ⟨rfl, if_neg absent⟩⟩

theorem map_step_boot (c : Cursor) (bump : Bump) : ∃ next, mapStep bumpTables pd flag c bump = .ok next ∧
    ((next.2.placementAddr = bump.placementAddr ∧ mapStep bootTables pd flag c bump = .ok next) ∨
      (next.2.placementAddr = (bump.placementAddr + 0x1000) % 2 ^ 32 ∧
        mapStep bootTables pd flag c bump = if bootMaps (p2v bump.placementAddr) then .ok next
          else .error "Page Fault")) := by
  by_cases large : isAligned c.vaddr fourMb = true ∧ isAligned c.paddr fourMb = true ∧ 1024 ≤ c.size
  · exact ⟨mapLarge bumpTables pd flag c bump, if_pos large, .inl ⟨rfl, if_pos large⟩⟩
  rw [mapStep, if_neg large, mapStep, if_neg large]
  by_cases opens : c.pte = 0 ∨ c.pageTable = 0
  · rw [if_pos opens, if_pos opens]
    obtain ⟨bump1, opened, ⟨same, boot⟩ | ⟨taken, boot⟩⟩ := open_table_boot pd flag c.pde bump
    · rw [opened, boot]
      exact ⟨_, rfl, .inl ⟨same, rfl⟩⟩
    · rw [opened, boot]
      refine ⟨_, rfl, .inr ⟨taken, ?_⟩⟩
      by_cases mapped : bootMaps (p2v bump.placementAddr)
      · rw [if_pos mapped, if_pos mapped]
        rfl
      · rw [if_neg mapped, if_neg mapped]
  · rw [if_neg opens, if_neg opens]
    exact ⟨_, rfl, .inl ⟨rfl, rfl⟩⟩

-- A loop that does not fault does what it does when all memory is mapped.
theorem map_loop_boot (fuel : Nat) (c : Cursor) (bump bump' : Bump)
    (done : mapLoop bootTables pd flag fuel c bump = .ok bump') :
    mapLoop bumpTables pd flag fuel c bump = .ok bump' := by
  induction fuel generalizing c bump with
  | zero => exact done
  | succ fuel ih =>
      rw [mapLoop] at done ⊢
      by_cases ended : c.size = 0
      · rw [if_pos ended] at done ⊢
        exact done
      rw [if_neg ended] at done ⊢
      obtain ⟨next, step, ⟨-, boot⟩ | ⟨-, boot⟩⟩ := map_step_boot pd flag c bump
      · rw [boot] at done
        rw [step]
        exact ih next.1 next.2 done
      · rw [boot] at done
        by_cases mapped : bootMaps (p2v bump.placementAddr)
        · rw [if_pos mapped] at done
          rw [step]
          exact ih next.1 next.2 done
        · rw [if_neg mapped] at done
          cases done

theorem map_ranges_boot (ranges : List Range) (bump bump' : Bump)
    (done : mapRanges bootTables pd ranges bump = .ok bump') :
    mapRanges bumpTables pd ranges bump = .ok bump' := by
  induction ranges generalizing bump with
  | nil => exact done
  | cons r rest ih =>
      rw [mapRanges] at done ⊢
      cases mapped : mapPages bootTables pd r.paddr (p2v r.paddr) r.size r.flag bump with
      | error e =>
          rw [mapped] at done
          cases done
      | ok bump1 =>
          rw [mapped] at done
          rw [mapPages] at mapped
          rw [mapPages, map_loop_boot pd r.flag r.size _ bump bump1 mapped]
          exact ih bump1 done

theorem map_loop_fits (fuel : Nat) (c : Cursor) (bump bump' : Bump)
    (done : mapLoop bumpTables pd flag fuel c bump = .ok bump') (few : bump.placementAddr + 0x1000 * fuel < 2 ^ 32)
    (fits : bump'.placementAddr ≤ fourMb) :
    bump.placementAddr ≤ bump'.placementAddr ∧ mapLoop bootTables pd flag fuel c bump = .ok bump' := by
  induction fuel generalizing c bump with
  | zero =>
      rw [mapLoop, Except.ok.injEq] at done
      subst done
      exact ⟨Nat.le_refl _, rfl⟩
  | succ fuel ih =>
      rw [mapLoop] at done ⊢
      by_cases ended : c.size = 0
      · rw [if_pos ended, Except.ok.injEq] at done
        subst done
        exact ⟨Nat.le_refl _, if_pos ended⟩
      rw [if_neg ended] at done ⊢
      obtain ⟨next, step, ⟨same, boot⟩ | ⟨taken, boot⟩⟩ := map_step_boot pd flag c bump
      · rw [step] at done
        obtain ⟨grown, rest⟩ := ih next.1 next.2 done (by omega)
        rw [boot]
        exact ⟨by omega, rest⟩
      · rw [step] at done
        have raised : next.2.placementAddr = bump.placementAddr + 0x1000 := by omega
        obtain ⟨grown, rest⟩ := ih next.1 next.2 done (by omega)
        rw [boot, if_pos ((boot_maps_low _ bump.bounded).mpr (by omega))]
        exact ⟨by omega, rest⟩

end Fault

-- Physical and virtual address are at the same place of a 4 MiB slot.
structure InStep (c : Cursor) : Prop where
  aligned : 0x1000 ∣ c.vaddr
  pte : c.pte = c.vaddr / 0x1000 % 1024
  same : c.paddr % fourMb = c.vaddr % fourMb

-- The 4 KiB iterations left: those up to the next 4 MiB boundary and at most 1023 at the
-- end, since what lies between is mapped by 4 MiB entries.
def smallLeft (c : Cursor) : Nat := min c.size (if c.pte = 0 then 1023 else 2047 - c.pte)

theorem open_table_grows (pd k flag : Nat) (bump : Bump) (room : bump.placementAddr + 0x1000 < 2 ^ 32) :
    ∃ bump', openTable bumpTables pd k flag bump = .ok bump' ∧ bump.placementAddr ≤ bump'.placementAddr ∧
      bump'.placementAddr ≤ bump.placementAddr + 0x1000 := by
  rw [openTable]
  split
  · refine ⟨_, rfl, ?_⟩
    change _ ≤ (bump.placementAddr + 0x1000 * 1) % 2 ^ 32 ∧ (bump.placementAddr + 0x1000 * 1) % 2 ^ 32 ≤ _
    omega
  · exact ⟨bump, rfl, Nat.le_refl _, Nat.le_add_right _ _⟩

theorem map_small_grows (flag : Nat) (c : Cursor) (bump : Bump) (inStep : InStep c) (running : c.size ≠ 0)
    (small : ¬ (isAligned c.vaddr fourMb = true ∧ isAligned c.paddr fourMb = true ∧ 1024 ≤ c.size)) :
    ∃ c' bump', mapSmall bumpTables flag c bump = (c', bump') ∧ InStep c' ∧ smallLeft c' + 1 ≤ smallLeft c ∧
      bump'.placementAddr = bump.placementAddr := by
  obtain ⟨⟨q, aligned⟩, pte, same⟩ := inStep
  have wrap (x : Nat) : x &&& (1024 - 1) = x % 1024 := Nat.and_two_pow_sub_one_eq_mod x 10
  have alignedV := is_aligned_iff c.vaddr 22
  have alignedP := is_aligned_iff c.paddr 22
  rw [show fourMb = 2 ^ 22 from rfl, alignedV, alignedP] at small
  simp only [fourMb] at same
  refine ⟨_, _, rfl, ⟨?_, ?_, ?_⟩, ?_, rfl⟩
  · simp only [Word.add]
    omega
  · simp only [Word.add, wrap]
    omega
  · simp only [Word.add, fourMb]
    omega
  · simp only [smallLeft, wrap]
    split <;> split <;> omega

theorem map_step_grows (pd flag : Nat) (c : Cursor) (bump : Bump) (inStep : InStep c) (running : c.size ≠ 0)
    (room : bump.placementAddr + 0x1000 * smallLeft c < 2 ^ 32) :
    ∃ c' bump', mapStep bumpTables pd flag c bump = .ok (c', bump') ∧ InStep c' ∧
      bump.placementAddr ≤ bump'.placementAddr ∧
      bump'.placementAddr + 0x1000 * smallLeft c' ≤ bump.placementAddr + 0x1000 * smallLeft c := by
  rw [mapStep]
  by_cases large : isAligned c.vaddr fourMb = true ∧ isAligned c.paddr fourMb = true ∧ 1024 ≤ c.size
  · rw [if_pos large]
    have alignedV := (is_aligned_iff c.vaddr 22).mp large.1
    obtain ⟨⟨q, aligned⟩, pte, same⟩ := inStep
    refine ⟨_, _, rfl, ⟨?_, ?_, ?_⟩, Nat.le_refl _, ?_⟩
    · simp only [Word.add, fourMb]
      omega
    · simp only [Word.add, fourMb]
      omega
    · simp only [Word.add, fourMb] at same ⊢
      omega
    · change bump.placementAddr + 0x1000 * min (c.size - 1024) _ ≤ _
      rw [smallLeft]
      change bump.placementAddr + 0x1000 * min (c.size - 1024) (if c.pte = 0 then 1023 else 2047 - c.pte) ≤ _
      omega
  · rw [if_neg large]
    obtain ⟨c', bump', eq, next, fewer, same⟩ := map_small_grows flag c bump inStep running large
    split
    · obtain ⟨bump1, opened, low, high⟩ := open_table_grows pd c.pde flag bump (by omega)
      have fresh : InStep { c with pageTable := tableOf bumpTables pd c.pde bump1 } :=
        ⟨inStep.aligned, inStep.pte, inStep.same⟩
      obtain ⟨c', bump', eq, next, fewer, same⟩ := map_small_grows flag _ bump1 fresh running large
      change _ ≤ smallLeft c at fewer
      rw [opened]
      exact ⟨c', bump', congrArg Except.ok eq, next, by omega, by omega⟩
    · exact ⟨c', bump', congrArg Except.ok eq, next, by omega, by omega⟩

theorem map_loop_grows (pd flag fuel : Nat) (c : Cursor) (bump : Bump) (inStep : InStep c)
    (room : bump.placementAddr + 0x1000 * smallLeft c < 2 ^ 32) :
    ∃ bump', mapLoop bumpTables pd flag fuel c bump = .ok bump' ∧ bump.placementAddr ≤ bump'.placementAddr ∧
      bump'.placementAddr ≤ bump.placementAddr + 0x1000 * smallLeft c := by
  induction fuel generalizing c bump with
  | zero => exact ⟨bump, rfl, Nat.le_refl _, Nat.le_add_right _ _⟩
  | succ fuel ih =>
      rw [mapLoop]
      by_cases done : c.size = 0
      · rw [if_pos done]
        exact ⟨bump, rfl, Nat.le_refl _, Nat.le_add_right _ _⟩
      · obtain ⟨c1, bump1, step, next, low, high⟩ := map_step_grows pd flag c bump inStep done room
        obtain ⟨bump', result, low', high'⟩ := ih c1 bump1 next (by omega)
        rw [if_neg done, step]
        exact ⟨bump', result, by omega, by omega⟩

theorem early_map_grows (pd paddr size flag : Nat) (bump : Bump) (aligned : 0x1000 ∣ paddr)
    (room : bump.placementAddr + 0x7FE000 < 2 ^ 32) :
    ∃ bump', earlyMapRange pd paddr (p2v paddr) size flag bump = .ok bump' ∧ bump.placementAddr ≤ bump'.placementAddr ∧
      bump'.placementAddr ≤ bump.placementAddr + 0x7FE000 := by
  have wrap (x : Nat) : x &&& 0x3FF = x % 1024 := Nat.and_two_pow_sub_one_eq_mod x 10
  have inStep : InStep ⟨paddr, p2v paddr, size, (p2v paddr >>> 22) &&& 0x3FF, (p2v paddr >>> 12) &&& 0x3FF, 0⟩ := by
    refine ⟨p2v_aligned paddr aligned, ?_, ?_⟩
    · simp only [wrap, Nat.shiftRight_eq_div_pow]
    · simp only [p2v, Word.add, kernelVirtualBase, fourMb]
      omega
  have few :
      smallLeft ⟨paddr, p2v paddr, size, (p2v paddr >>> 22) &&& 0x3FF, (p2v paddr >>> 12) &&& 0x3FF, 0⟩ ≤ 2046 := by
    simp only [smallLeft]
    split <;> omega
  obtain ⟨bump', result, low, high⟩ := map_loop_grows pd flag size _ bump inStep (by omega)
  exact ⟨bump', result, low, by omega⟩

theorem map_ranges_grows (pd : Nat) (ranges : List Range) (bump : Bump) (aligned : ∀ r ∈ ranges, 0x1000 ∣ r.paddr)
    (room : bump.placementAddr + 0x7FE000 * ranges.length < 2 ^ 32) :
    ∃ bump', mapRanges bumpTables pd ranges bump = .ok bump' ∧ bump.placementAddr ≤ bump'.placementAddr ∧
      bump'.placementAddr ≤ bump.placementAddr + 0x7FE000 * ranges.length := by
  induction ranges generalizing bump with
  | nil => exact ⟨bump, rfl, Nat.le_refl _, Nat.le_refl _⟩
  | cons r rest ih =>
      rw [List.length_cons, Nat.mul_succ, ← Nat.add_assoc] at room ⊢
      obtain ⟨bump1, first, low, high⟩ :=
        early_map_grows pd r.paddr r.size r.flag bump (aligned r List.mem_cons_self) (by omega)
      obtain ⟨bump', result, low', high'⟩ :=
        ih bump1 (fun r member => aligned r (List.mem_cons_of_mem _ member)) (by omega)
      rw [earlyMapRange] at first
      rw [mapRanges, first]
      exact ⟨bump', result, by omega, by omega⟩

theorem map_ranges_fits (pd : Nat) (ranges : List Range) (bump bump' : Bump) (aligned : ∀ r ∈ ranges, 0x1000 ∣ r.paddr)
    (sizes : ∀ r ∈ ranges, r.size ≤ 2 ^ 18) (room : bump.placementAddr + 0x7FE000 * ranges.length < 2 ^ 31)
    (done : mapRanges bumpTables pd ranges bump = .ok bump') (fits : bump'.placementAddr ≤ fourMb) :
    mapRanges bootTables pd ranges bump = .ok bump' := by
  induction ranges generalizing bump with
  | nil => exact done
  | cons r rest ih =>
      rw [List.length_cons, Nat.mul_succ, ← Nat.add_assoc] at room
      have alignedRest (d : Range) (member : d ∈ rest) : 0x1000 ∣ d.paddr := aligned d (List.mem_cons_of_mem _ member)
      have small := sizes r List.mem_cons_self
      obtain ⟨bump1, first, low, high⟩ :=
        early_map_grows pd r.paddr r.size r.flag bump (aligned r List.mem_cons_self) (by omega)
      rw [earlyMapRange] at first
      rw [mapRanges, first] at done
      obtain ⟨bump2, result, grown, -⟩ := map_ranges_grows pd rest bump1 alignedRest (by omega)
      cases result.symm.trans done
      rw [mapPages] at first
      rw [mapRanges, mapPages, (map_loop_fits pd r.flag r.size _ bump bump1 first (by omega) (by omega)).2]
      exact ih bump1 alignedRest (fun d member => sizes d (List.mem_cons_of_mem _ member)) (by omega) done

-- A range inside the part of memory the kernel half can show.
structure Mappable (r : Range) : Prop where
  aligned : 0x1000 ∣ r.paddr
  low : r.paddr + 0x1000 * r.size ≤ 2 ^ 30
  flags : LeafFlags r.flag

theorem mappable_ends (r : Range) (ok : Mappable r) :
    r.paddr + 0x1000 * r.size ≤ 2 ^ 32 ∧ p2v r.paddr + 0x1000 * r.size ≤ 2 ^ 32 := by
  have := ok.low
  simp only [p2v, Word.add, kernelVirtualBase]
  omega

def rangeCall (r : Range) (ok : Mappable r) : MapCall where
  paddr := r.paddr
  vaddr := p2v r.paddr
  size := r.size
  flag := r.flag
  alignedP := ok.aligned
  alignedV := p2v_aligned _ ok.aligned
  endP := (mappable_ends r ok).1
  endV := (mappable_ends r ok).2
  flags := ok.flags

theorem range_call_first (r : Range) (ok : Mappable r) (nonempty : 0 < r.size) :
    (rangeCall r ok).first = 0xC0000 + r.paddr / 0x1000 := by
  have low := ok.low
  rw [MapCall.first, rangeCall]
  simp only [p2v_low r.paddr (by omega), kernelVirtualBase]
  omega

def Before (r s : Range) : Prop := r.paddr + 0x1000 * r.size ≤ s.paddr

theorem range_calls_disjoint (r s : Range) (okR : Mappable r) (okS : Mappable s) (before : Before r s) :
    (rangeCall r okR).Disjoint (rangeCall s okS) := by
  rintro page ⟨coversR, coversS⟩
  have alignedR := okR.aligned
  have alignedS := okS.aligned
  simp only [MapCall.Covers] at coversR coversS
  have sizeR : (rangeCall r okR).size = r.size := rfl
  have sizeS : (rangeCall s okS).size = s.size := rfl
  rw [range_call_first r okR (by omega), sizeR] at coversR
  rw [range_call_first s okS (by omega), sizeS] at coversS
  simp only [Before] at before
  omega

theorem early_map_all_ranges (pd : Nat) (ranges : List Range) (ok : ∀ r ∈ ranges, Mappable r) (bump : Bump) :
    earlyMapAll pd (ranges.pmap rangeCall ok) bump = mapRanges bumpTables pd ranges bump := by
  induction ranges generalizing bump with
  | nil => rfl
  | cons r rest ih =>
      rw [List.pmap_cons, earlyMapAll, mapRanges]
      have call :
          earlyMapRange pd (rangeCall r (ok r List.mem_cons_self)).paddr (rangeCall r (ok r List.mem_cons_self)).vaddr
          (rangeCall r (ok r List.mem_cons_self)).size (rangeCall r (ok r List.mem_cons_self)).flag bump =
          mapPages bumpTables pd r.paddr (p2v r.paddr) r.size r.flag bump := rfl
      rw [call]
      cases mapPages bumpTables pd r.paddr (p2v r.paddr) r.size r.flag bump with
      | error e => rfl
      | ok bump' => exact ih _ bump'

theorem map_ranges_effect (pd : Nat) (ranges : List Range) (bump : Bump) (ok : ∀ r ∈ ranges, Mappable r)
    (ordered : ranges.Pairwise Before) (alignedPd : 0x1000 ∣ pd) (zeroed : ∀ x, InPage pd x → bump.mem x = 0)
    (room : bump.placementAddr + 0x400000 ≤ 2 ^ 32)
    (apart : ∀ m, m < 1024 → p2v (bump.placementAddr + 0x1000 * m) ≠ pd) :
    ∃ bump', mapRanges bumpTables pd ranges bump = .ok bump' ∧ TablesRw bump'.mem pd ∧
      (∀ r ∈ ranges, ∀ i, i < r.size →
        translate bump'.mem pd (0xC0000 + r.paddr / 0x1000 + i) = some (r.paddr + 0x1000 * i, r.flag)) ∧
      (bump.placementAddr + 0x2000 * ranges.length < 2 ^ 32 →
        bump'.placementAddr ≤ bump.placementAddr + 0x2000 * ranges.length) := by
  have disjoint : (ranges.pmap rangeCall ok).Pairwise MapCall.Disjoint :=
    ordered.pmap ok (fun r okR s okS before => range_calls_disjoint r s okR okS before)
  have start := booted_start bump zeroed room apart
  have noTables : TablesRw bump.mem pd := by
    intro k smallK small
    have zero : entry bump.mem pd k = 0 := (entry_congr (fun _ => 0) pd k bump.mem smallK zeroed).trans rfl
    rw [Small, zero] at small
    exact absurd small.1 (by decide)
  obtain ⟨n, bump', result, booted, tables, few⟩ := booted_all alignedPd [] _ 0 bump start disjoint
  rw [early_map_all_ranges] at result
  refine ⟨bump', result, tables noTables, ?_, ?_⟩
  · intro r member i inside
    have mapped := booted.mapped (rangeCall r (ok r member)) (List.mem_pmap.mpr ⟨r, member, rfl⟩) i inside
    rw [range_call_first r (ok r member) (by omega)] at mapped
    exact mapped
  · intro below
    have level (c : MapCall) (member : c ∈ ranges.pmap rangeCall ok) : c.paddr % fourMb = c.vaddr % fourMb := by
      obtain ⟨r, inRanges, rfl⟩ := List.mem_pmap.mp member
      simp only [rangeCall, p2v, Word.add, kernelVirtualBase, fourMb]
      omega
    have count := few level
    have ready : bump'.placementAddr = (bump.placementAddr + 0x1000 * n) % 2 ^ 32 := booted.sound.ready
    rw [List.length_pmap] at count
    omega

theorem flag_bit (e i : Nat) : (e &&& 2 ^ i != 0) = e.testBit i := by
  rw [Nat.and_two_pow]
  cases e.testBit i
  · simp
  · simp

theorem kernel_access (mem : Mem) (pd page frame : Nat) (tables : TablesRw mem pd) (inside : page < 2 ^ 20)
    (mapped : translate mem pd page = some (frame, 3)) :
    writable mem pd page = true ∧ userAccessible mem pd page = false := by
  have bits (e flags : Nat) (low : e &&& 0xFFF = flags) (i : Nat) (small : i < 12) : e.testBit i = flags.testBit i := by
    rw [← low, show 0xFFF = 2 ^ 12 - 1 from rfl, Nat.and_two_pow_sub_one_eq_mod, Nat.testBit_mod_two_pow,
      decide_eq_true small, Bool.true_and]
  have rwBit (e : Nat) : (e &&& pageRw != 0) = e.testBit 1 := flag_bit e 1
  have userBit (e : Nat) : (e &&& pageUser != 0) = e.testBit 2 := flag_bit e 2
  simp only [writable, userAccessible, allows, rwBit, userBit]
  simp only [translate] at mapped
  by_cases present : isPresent (entry mem pd (page / 1024)) = true
  · rw [if_pos present] at mapped
    by_cases large : isLarge (entry mem pd (page / 1024)) = true
    · rw [if_pos large, Option.some.injEq, Prod.mk.injEq] at mapped
      have flags : entry mem pd (page / 1024) &&& 0xFFF = 3 ^^^ pageSize4Mb := by
        have back := congrArg (· ^^^ pageSize4Mb) mapped.2
        simpa only [Nat.xor_assoc, Nat.xor_self, Nat.xor_zero] using back
      have pde := bits _ _ flags
      rw [pde 1 (by decide), pde 2 (by decide), large, Bool.true_or, Bool.true_or]
      decide
    · rw [if_neg large, leaf] at mapped
      have pde := tables (page / 1024) (by omega) ⟨present, by simpa using large⟩
      split at mapped
      · rw [Option.some.injEq, Prod.mk.injEq] at mapped
        have pte := bits _ 3 mapped.2
        have small : isLarge (entry mem pd (page / 1024)) = false := by simpa using large
        rw [pde, pte 1 (by decide), pte 2 (by decide), small]
        exact ⟨by decide, by rw [show Nat.testBit 3 2 = false by decide, Bool.or_self, Bool.and_false]⟩
      · cases mapped
  · rw [if_neg present] at mapped
    cases mapped

structure Physical (sections : Sections) : Prop where
  roStart : v2p 0xC0100000 = 0x100000
  roEnd : 0x100000 ≤ v2p sections.roEnd ∧ v2p sections.roEnd ≤ v2p sections.kernelEnd
  directory : v2p sections.kernelPageDirectory < v2p sections.kernelEnd ∧ v2p sections.kernelPageDirectory < 2 ^ 32
  kernelEnd : v2p sections.kernelEnd < 2 ^ 30
  aligned : 0x1000 ∣ v2p sections.roEnd ∧ 0x1000 ∣ v2p sections.kernelEnd

theorem sections_physical (sections : Sections) : Physical sections := by
  obtain ⟨roEnd, kernelEnd, pd, alignedRo, alignedEnd, alignedPd, roStart, inBss, bounded⟩ := sections
  constructor <;> simp only [v2p, Word.sub, kernelVirtualBase] <;> omega

-- With the kernel inside region 3 none of the subtractions wraps.
theorem boot_ranges_fit (sections : Sections) (memoryMap : MemoryMap) (regions : Regions memoryMap)
    (fits : v2p sections.kernelEnd ≤ 0x100000 + (memoryMap 3).size) :
    bootRanges sections memoryMap =
      [⟨0x0, 1, 1⟩, ⟨0x1000, 0x7F, 3⟩, ⟨0x80000, 0x20, 1⟩, ⟨0xA0000, 0x20, 0x1B⟩, ⟨0xC0000, 0x40, 0x11⟩,
        ⟨0x100000, (v2p sections.roEnd - 0x100000) / 0x1000, 1⟩,
        ⟨v2p sections.roEnd, (v2p sections.kernelEnd - v2p sections.roEnd) / 0x1000, 3⟩,
        ⟨v2p sections.kernelEnd, (0x100000 + (memoryMap 3).size - v2p sections.kernelEnd) / 0x1000, 3⟩,
        ⟨(memoryMap 4).addr, (memoryMap 4).size / 0x1000, 1⟩] := by
  obtain ⟨roStart, roEnd, -, kernelEnd, -⟩ := sections_physical sections
  obtain ⟨start, -, low, -, above, below⟩ := regions
  rw [bootRanges, roStart, Word.sub_exact _ 0x100000 (by omega) roEnd.1,
    Word.sub_exact _ (v2p sections.roEnd) (by omega) roEnd.2,
    Nat.mod_eq_of_lt (show 0x100000 + (memoryMap 3).size < 2 ^ 32 by omega),
    Word.sub_exact _ (v2p sections.kernelEnd) (by omega) fits, Nat.mod_eq_of_lt
      (show (memoryMap 4).addr < 2 ^ 32 by omega),
    Nat.mod_eq_of_lt (show (memoryMap 4).size / 0x1000 < 2 ^ 32 by omega)]

theorem boot_ranges_ok (sections : Sections) (memoryMap : MemoryMap) (regions : Regions memoryMap)
    (fits : v2p sections.kernelEnd ≤ 0x100000 + (memoryMap 3).size) :
    (∀ r ∈ bootRanges sections memoryMap, Mappable r) ∧ (bootRanges sections memoryMap).Pairwise Before := by
  obtain ⟨-, roEnd, -, kernelEnd, alignedRo, alignedEnd⟩ := sections_physical sections
  have flags : LeafFlags 1 ∧ LeafFlags 3 ∧ LeafFlags 0x1B ∧ LeafFlags 0x11 :=
    ⟨⟨by decide, by decide, by decide⟩, ⟨by decide, by decide, by decide⟩, ⟨by decide, by decide, by decide⟩,
      ⟨by decide, by decide, by decide⟩⟩
  rw [boot_ranges_fit sections memoryMap regions fits]
  obtain ⟨start, size, low, acpi, above, below⟩ := regions
  generalize v2p sections.roEnd = ro at *
  generalize v2p sections.kernelEnd = stop at *
  constructor
  · simp only [List.forall_mem_cons]
    refine ⟨⟨?_, ?_, flags.1⟩, ⟨?_, ?_, flags.2.1⟩, ⟨?_, ?_, flags.1⟩, ⟨?_, ?_, flags.2.2.1⟩, ⟨?_, ?_, flags.2.2.2⟩,
      ⟨?_, ?_, flags.1⟩, ⟨?_, ?_, flags.2.1⟩, ⟨?_, ?_, flags.2.1⟩, ⟨?_, ?_, flags.1⟩, List.forall_mem_nil _⟩ <;>
        simp only <;> omega
  · simp only [List.pairwise_cons, List.forall_mem_cons, List.not_mem_nil, IsEmpty.forall_iff, implies_true,
      List.Pairwise.nil, and_true, Before]
    omega

-- Where `add_pages` starts: the bump allocator does not wrap while the tables and the
-- page map are made.
theorem init_buddy_start (memoryMap : MemoryMap) (slack : Nat → Page) (bump : Bump) (regions : Regions memoryMap)
    (room : bump.placementAddr ≤ 0xFF000000) :
    bump.placementAddr ≤ getPlacementAddr (makePages memoryMap slack bump).2 := by
  have aligned : PageAligned memoryMap := by
    obtain ⟨start, size, low, -⟩ := regions
    exact ⟨by omega, size, by omega⟩
  have count := (aligned_total memoryMap aligned).2
  have placed := bump.aligned
  have few : (pageCount memoryMap * 12 + 0xFFF) / 0x1000 ≤ 2 ^ 10 := by omega
  rw [make_pages_placement memoryMap slack bump aligned, firstPage, sizeofPage]
  generalize (pageCount memoryMap * 12 + 0xFFF) / 0x1000 = pages at few ⊢
  omega

section Boot

variable (sections : Sections) (memoryMap : MemoryMap) (bump : Bump) (regions : Regions memoryMap)

include regions in
theorem boot_ranges_aligned : ∀ r ∈ bootRanges sections memoryMap, 0x1000 ∣ r.paddr := by
  obtain ⟨alignedRo, alignedEnd⟩ := (sections_physical sections).aligned
  have acpi := regions.acpi.1
  rw [bootRanges, (sections_physical sections).roStart]
  simp only [List.forall_mem_cons, List.not_mem_nil, IsEmpty.forall_iff, implies_true, and_true]
  omega

-- The first page that is mapped, page 0, needs a table.
theorem paging_init_low (bump' : Bump) (done : pagingInit sections memoryMap bump = .ok bump') :
    bump.placementAddr < fourMb := by
  rw [paging_init_eq] at done
  split at done
  · by_contra high
    have faults : ¬ bootMaps (p2v bump.placementAddr) := fun mapped => high ((boot_maps_low _ bump.bounded).mp mapped)
    have first : mapPages bootTables sections.kernelPageDirectory 0x0 (p2v 0x0) 1 1 (clearDirectory sections bump) =
        .error "Page Fault" := by
      have absent : entry (clearDirectory sections bump).mem sections.kernelPageDirectory 768 = 0 :=
        fill_zero_word _ _ _ _ (by omega) (by omega)
      have slot : (p2v 0x0 >>> 22) &&& 0x3FF = 768 ∧ (p2v 0x0 >>> 12) &&& 0x3FF = 0 := by decide +kernel
      have opened : openTable bootTables sections.kernelPageDirectory 768 1 (clearDirectory sections bump) =
          .error "Page Fault" := by
        rw [openTable,
          show bootTables.mem (clearDirectory sections bump) = (clearDirectory sections bump).mem from rfl, absent,
          if_pos (by decide)]
        simp only [bootTables]
        rw [if_neg (show ¬ bootMaps (p2v (clearDirectory sections bump).placementAddr) from faults)]
      rw [mapPages, slot.1, slot.2, mapLoop, if_neg (by decide), mapStep, if_neg (by simp), if_pos (.inl rfl), opened]
    rw [bootRanges, mapRanges, first] at done
    cases done
  · cases done

variable {sections memoryMap bump}

theorem boot_ranges_effect (regions : Regions memoryMap) (fits : v2p sections.kernelEnd ≤ 0x100000 + (memoryMap 3).size)
    (placed : v2p sections.kernelEnd ≤ bump.placementAddr) (room : bump.placementAddr ≤ 0xF8000000) :
    ∃ bump', mapRanges bumpTables sections.kernelPageDirectory (bootRanges sections memoryMap)
      (clearDirectory sections bump) = .ok bump' ∧
      TablesRw bump'.mem sections.kernelPageDirectory ∧
      (∀ r ∈ bootRanges sections memoryMap, ∀ i, i < r.size →
        translate bump'.mem sections.kernelPageDirectory (0xC0000 + r.paddr / 0x1000 + i) =
          some (r.paddr + 0x1000 * i, r.flag)) ∧
      bump'.placementAddr ≤ bump.placementAddr + 0x12000 := by
  have physical := sections_physical sections
  obtain ⟨ok, ordered⟩ := boot_ranges_ok sections memoryMap regions fits
  have apart (m : Nat) (small : m < 1024) :
      p2v ((clearDirectory sections bump).placementAddr + 0x1000 * m) ≠ sections.kernelPageDirectory := by
    intro same
    have bounded := sections.bounded
    have inBss := sections.inBss
    rw [← p2v_v2p sections.kernelPageDirectory (by omega)] at same
    have := p2v_inj _ _ (by simp only [clearDirectory]; omega) physical.directory.2 same
    have below := physical.directory.1
    simp only [clearDirectory] at this
    omega
  obtain ⟨bump', result, tables, mapped, few⟩ :=
    map_ranges_effect sections.kernelPageDirectory _ (clearDirectory sections bump) ok ordered
    sections.alignedPd (fun x inPd => fill_inside _ _ _ _ _ inPd.1 inPd.2) (by simp only [clearDirectory]; omega) apart
  simp only [bootRanges, List.length_cons, List.length_nil, clearDirectory] at few
  exact ⟨bump', result, tables, mapped, few (by omega)⟩

-- Nine calls take two tables each, at most.
theorem paging_init_returns (regions : Regions memoryMap)
    (fits : v2p sections.kernelEnd ≤ 0x100000 + (memoryMap 3).size)
    (placed : v2p sections.kernelEnd ≤ bump.placementAddr) (room : bump.placementAddr + 0x12000 ≤ fourMb) :
    ∃ bump', pagingInit sections memoryMap bump = .ok bump' := by
  have physical := sections_physical sections
  simp only [fourMb] at room
  obtain ⟨bump', result, -, -, few⟩ := boot_ranges_effect regions fits placed (by omega)
  have sizes (r : Range) (member : r ∈ bootRanges sections memoryMap) : r.size ≤ 2 ^ 18 := by
    have low := ((boot_ranges_ok sections memoryMap regions fits).1 r member).low
    omega
  have mapped : bootMaps sections.kernelPageDirectory := by
    have bounded := sections.bounded
    have inBss := sections.inBss
    rw [← p2v_v2p sections.kernelPageDirectory (by omega), boot_maps_low _ physical.directory.2]
    have := physical.directory.1
    simp only [fourMb]
    omega
  refine ⟨bump', ?_⟩
  rw [paging_init_eq, if_pos mapped]
  apply map_ranges_fits _ _ _ _ (boot_ranges_aligned sections memoryMap regions) sizes _ result
    (by simp only [fourMb]; omega)
  simp only [bootRanges, List.length_cons, List.length_nil, clearDirectory]
  omega

end Boot

-- Every page the allocator manages is visible at P2V of its address, present, writable
-- and closed to user mode.
theorem managed_pages_reachable (sections : Sections) (memoryMap : MemoryMap) (slack : Nat → Page) (bump : Bump)
    (regions : Regions memoryMap) (placed : v2p sections.kernelEnd ≤ bump.placementAddr) :
    (v2p sections.kernelEnd ≤ 0x100000 + (memoryMap 3).size → bump.placementAddr + 0x12000 ≤ fourMb →
      ∃ bump', pagingInit sections memoryMap bump = .ok bump') ∧
    ∀ bump', pagingInit sections memoryMap bump = .ok bump' →
      ∀ page, page < (initBuddy memoryMap slack bump').1.pageN →
        ((initBuddy memoryMap slack bump').1.pageMap page).flags ≠ .kernel →
        translate bump'.mem sections.kernelPageDirectory (p2v (0x1000 * page) / 0x1000) =
            some (0x1000 * page, pagePresent ||| pageRw) ∧
          writable bump'.mem sections.kernelPageDirectory (p2v (0x1000 * page) / 0x1000) = true ∧
          userAccessible bump'.mem sections.kernelPageDirectory (p2v (0x1000 * page) / 0x1000) = false := by
  refine ⟨fun fits room => paging_init_returns regions fits placed room, ?_⟩
  intro bump' done page inside taken
  have physical := sections_physical sections
  have low := paging_init_low sections memoryMap bump bump' done
  simp only [fourMb] at low
  have total : totalSize memoryMap = 0x100000 + (memoryMap 3).size := by
    obtain ⟨start, -, low, -⟩ := regions
    rw [totalSize, start, Nat.mod_eq_of_lt (by omega)]
  have run : mapRanges bumpTables sections.kernelPageDirectory (bootRanges sections memoryMap)
      (clearDirectory sections bump) = .ok bump' := by
    rw [paging_init_eq] at done
    split at done
    · exact map_ranges_boot _ _ _ _ done
    · cases done
  obtain ⟨bump1, result, grown, high⟩ := map_ranges_grows sections.kernelPageDirectory _ (clearDirectory sections bump)
    (boot_ranges_aligned sections memoryMap regions)
      (by simp only [bootRanges, List.length_cons, List.length_nil, clearDirectory]; omega)
  cases result.symm.trans run
  simp only [bootRanges, List.length_cons, List.length_nil, clearDirectory] at grown high
  have start := init_buddy_start memoryMap slack bump' regions (by omega)
  rw [init_buddy_count] at inside
  rw [(init_buddy_eq memoryMap slack bump').1] at taken
  have kernel : ((makePages memoryMap slack bump').1.pageMap page).flags = .kernel :=
    congrArg Page.flags (if_pos inside)
  obtain ⟨first, last⟩ := add_pages_managed memoryMap _ _ page (by have := regions.low; have := regions.start; omega)
    (kernel ▸ taken)
  rw [total] at last
  have fits : v2p sections.kernelEnd ≤ 0x100000 + (memoryMap 3).size := by omega
  obtain ⟨bump2, result2, tables, mapped, -⟩ := boot_ranges_effect regions fits placed (by omega)
  cases result2.symm.trans run
  obtain ⟨-, alignedEnd⟩ := physical.aligned
  have here := mapped ⟨v2p sections.kernelEnd, (0x100000 + (memoryMap 3).size - v2p sections.kernelEnd) / 0x1000, 3⟩
    (by rw [boot_ranges_fit sections memoryMap regions fits]; simp) (page - v2p sections.kernelEnd / 0x1000)
      (by simp only; omega)
  have small : 0x1000 * page < 2 ^ 30 := by
    have := regions.low
    have := regions.start
    omega
  have address : p2v (0x1000 * page) / 0x1000 =
      0xC0000 + v2p sections.kernelEnd / 0x1000 + (page - v2p sections.kernelEnd / 0x1000) := by
    rw [p2v_low _ small, kernelVirtualBase]
    omega
  have frame : v2p sections.kernelEnd + 0x1000 * (page - v2p sections.kernelEnd / 0x1000) = 0x1000 * page := by omega
  simp only [← address, frame] at here
  exact ⟨here, kernel_access _ _ _ _ tables (by rw [p2v_low _ small, kernelVirtualBase]; omega) here⟩

-- A kernel of one page in eight pages of RAM.
def tinySections : Sections where
  roEnd := 0xC0100000
  kernelEnd := 0xC0101000
  kernelPageDirectory := 0xC0100000
  alignedRo := by decide
  alignedEnd := by decide
  alignedPd := by decide
  roStart := by decide
  inBss := by decide
  bounded := by decide

def tinyMap : MemoryMap := fun i => if i = 3 then ⟨0x100000, 0x8000⟩ else if i = 4 then ⟨0x108000, 0x1000⟩ else ⟨0, 0⟩

def tinyBump : Bump := ⟨fun _ => 0, 0x101000, by decide, by decide⟩

def bootedPage (bump : Bump) (page : Nat) : Option (PageFlag × Option (Nat × Nat) × Bool) :=
  match pagingInit tinySections tinyMap bump with
  | .error _ => none
  | .ok bump => some (((initBuddy tinyMap (fun _ => zeroPage) bump).1.pageMap page).flags,
      translate bump.mem tinySections.kernelPageDirectory (p2v (0x1000 * page) / 0x1000),
      writable bump.mem tinySections.kernelPageDirectory (p2v (0x1000 * page) / 0x1000))

theorem tiny_regions : Regions tinyMap := by
  constructor <;> decide

theorem managed_pages_reachable_tiny :
    ∃ bump', pagingInit tinySections tinyMap tinyBump = .ok bump' ∧
      ((initBuddy tinyMap (fun _ => zeroPage) bump').1.pageMap 0x104).flags = .free ∧
      translate bump'.mem tinySections.kernelPageDirectory (p2v 0x104000 / 0x1000) =
        some (0x104000, pagePresent ||| pageRw) ∧
      userAccessible bump'.mem tinySections.kernelPageDirectory (p2v 0x104000 / 0x1000) = false := by
  obtain ⟨returns, reaches⟩ :=
    managed_pages_reachable tinySections tinyMap (fun _ => zeroPage) tinyBump tiny_regions (by decide +kernel)
  obtain ⟨bump', result⟩ := returns (by decide +kernel) (by decide)
  have reachable := reaches bump' result
  have managed : (bootedPage tinyBump 0x104).map Prod.fst = some .free := by decide +kernel
  rw [bootedPage, result, Option.map_some, Option.some.injEq] at managed
  change ((initBuddy tinyMap (fun _ => zeroPage) bump').1.pageMap 0x104).flags = .free at managed
  have inside : 0x104 < (initBuddy tinyMap (fun _ => zeroPage) bump').1.pageN := by
    rw [init_buddy_count]
    decide
  obtain ⟨mapped, -, closed⟩ := reachable 0x104 inside (by rw [managed]; decide)
  exact ⟨bump', result, managed, mapped, closed⟩

end X86OS.Paging
