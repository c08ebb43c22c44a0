import X86OS.Mm.BuddyInit

set_option autoImplicit false

namespace X86OS.Kernel

open Buddy

-- `_kernel_start` and `_kernel_end` as the linker script places them, in the kernel half.
structure Image where
  start : Nat
  stop : Nat
  high : kernelVirtualBase ≤ start
  nonempty : start < stop
  bounded : stop < 2 ^ 32

-- `placement_addr`, `memory_map` and `user_module` while kmain walks the tags.
structure Boot where
  placementAddr : Nat
  memoryMap : Nat
  userModule : Nat
deriving DecidableEq, Repr

def tagType (mem : Mem) (tag : Nat) : Nat := mem.readWord tag
def tagSize (mem : Mem) (tag : Nat) : Nat := mem.readWord (tag + 4)
def moduleStart (mem : Mem) (tag : Nat) : Nat := mem.readWord (tag + 8)
def moduleEnd (mem : Mem) (tag : Nat) : Nat := mem.readWord (tag + 12)

def raise (placement limit : Nat) : Nat := if limit > placement then limit else placement

def readTag (mem : Mem) (tag : Nat) (boot : Boot) : Boot :=
  if tagType mem tag = 6 then { boot with memoryMap := tag + 16 }
  else if tagType mem tag = 3 then
    { boot with userModule := tag, placementAddr := raise boot.placementAddr (moduleEnd mem tag) }
  else boot

-- A tag of size 0 would keep the source's loop in place; a well-formed tag has 8 bytes.
def walkTags (mem : Mem) (stop : Nat) : Nat → Nat → Boot → Boot
  | 0, _, boot => boot
  | fuel + 1, current, boot =>
      if current < stop then
        if tagType mem current = 0 ∧ tagSize mem current = 8 then boot
        else walkTags mem stop fuel (Word.add current (alignUp (tagSize mem current) 8)) (readTag mem current boot)
      else boot

def headerSize (mem : Mem) (mbi : Nat) : Nat := mem.readWord (p2v mbi)

def kmainBoot (mem : Mem) (image : Image) (mbi : Nat) : Boot :=
  let header := p2v mbi
  let size := headerSize mem mbi
  walkTags mem (Word.add header size) (size / 8 + 1) (Word.add header 8)
    { placementAddr := raise (v2p image.start) (Word.add mbi size), memoryMap := 0, userModule := 0 }

def kmainBump (mem : Mem) (image : Image) (mbi : Nat) : Bump := initBump (kmainBoot mem image mbi).placementAddr mem

-- The tags from `current` on, each of at least 8 bytes, up to the end tag before `stop`.
inductive Tags (mem : Mem) (stop : Nat) : Nat → List Nat → Prop where
  | last (current : Nat) (kind : tagType mem current = 0) (size : tagSize mem current = 8) (room : current + 8 ≤ stop) :
      Tags mem stop current []
  | tag (current : Nat) (rest : List Nat) (other : ¬ (tagType mem current = 0 ∧ tagSize mem current = 8))
      (large : 8 ≤ tagSize mem current) (tail : Tags mem stop (current + (tagSize mem current + 7) / 8 * 8) rest) :
      Tags mem stop current (current :: rest)

structure WellFormed (mem : Mem) (mbi : Nat) (tags : List Nat) : Prop where
  visible : p2v mbi + headerSize mem mbi ≤ 2 ^ 32
  tags : Tags mem (p2v mbi + headerSize mem mbi) (p2v mbi + 8) tags

def modules (mem : Mem) (tags : List Nat) : List Nat := tags.filter (fun tag => tagType mem tag = 3)

-- The physical ranges that hold boot data, each as its first byte and the byte behind it.
def bootData (mem : Mem) (image : Image) (mbi : Nat) (tags : List Nat) : List (Nat × Nat) :=
  (v2p image.start, v2p image.stop) :: (mbi, mbi + headerSize mem mbi) ::
    (modules mem tags).map (fun tag => (moduleStart mem tag, moduleEnd mem tag))

def lastEnd (mem : Mem) (mbi : Nat) (tags : List Nat) : Nat :=
  ((modules mem tags).map (moduleEnd mem)).foldr max (mbi + headerSize mem mbi)

def Overlap (a b : Nat × Nat) : Prop := ∃ x, (a.1 ≤ x ∧ x < a.2) ∧ b.1 ≤ x ∧ x < b.2

-- The blocks a sequence of `bump_alloc` calls returns, and the allocator after it.
def bumpCalls : List Nat → Bump → List (Nat × Nat) × Bump
  | [], bump => ([], bump)
  | numPages :: rest, bump =>
      let (page, bump) := bumpAlloc numPages bump
      let (blocks, bump) := bumpCalls rest bump
      ((page, page + 0x1000 * numPages) :: blocks, bump)

-- The physical address space is not used up by the calls.
def Fit (calls : List Nat) (bump : Bump) : Prop := bump.placementAddr + 0x1000 * calls.sum < 2 ^ 32

structure Clear (mem : Mem) (image : Image) (mbi : Nat) (tags : List Nat) (memoryMap : MemoryMap) : Prop where
  above : ∀ range ∈ bootData mem image mbi tags, range.2 ≤ (kmainBoot mem image mbi).placementAddr
  bumped : ∀ calls, Fit calls (kmainBump mem image mbi) → ∀ block ∈ (bumpCalls calls (kmainBump mem image mbi)).1,
    ∀ range ∈ bootData mem image mbi tags, ¬ Overlap block range
  added : ∀ calls, Fit calls (kmainBump mem image mbi) → ∀ s page, (s.pageMap page).flags = .kernel →
    ((addPages memoryMap (bumpCalls calls (kmainBump mem image mbi)).2 s).pageMap page).flags ≠ .kernel →
    ∀ range ∈ bootData mem image mbi tags, ¬ Overlap (0x1000 * page, 0x1000 * page + 0x1000) range

theorem raise_eq_max (placement limit : Nat) : raise placement limit = max placement limit := by
  simp only [raise]
  split <;> omega

theorem align_eight (size : Nat) (small : size + 7 < 2 ^ 32) : alignUp size 8 = (size + 7) / 8 * 8 := by
  rw [show 8 = 2 ^ 3 by rfl, align_up_eq size 3 (by decide), Nat.mod_eq_of_lt (by omega)]
  omega

theorem tags_room (mem : Mem) (stop current : Nat) (tags : List Nat) (formed : Tags mem stop current tags) :
    current + 8 * (tags.length + 1) ≤ stop := by
  induction formed with
  | last current kind size room => exact room
  | tag current rest other large tail ih =>
      rw [List.length_cons]
      omega

theorem foldr_max_raise (ends : List Nat) (a b : Nat) : ends.foldr max (max a b) = max a (ends.foldr max b) := by
  induction ends with
  | nil => rfl
  | cons first rest ih =>
      rw [List.foldr_cons, List.foldr_cons, ih]
      omega

theorem read_tag_placement (mem : Mem) (tag : Nat) (boot : Boot) :
    (readTag mem tag boot).placementAddr =
      if tagType mem tag = 3 then max (moduleEnd mem tag) boot.placementAddr else boot.placementAddr := by
  by_cases map : tagType mem tag = 6
  · rw [readTag, if_pos map, if_neg (by omega)]
  · by_cases module : tagType mem tag = 3
    · rw [readTag, if_neg map, if_pos module, if_pos module]
      exact (raise_eq_max _ _).trans (Nat.max_comm _ _)
    · rw [readTag, if_neg map, if_neg module, if_neg module]

theorem walk_tags_placement (mem : Mem) (stop current : Nat) (tags : List Nat) (formed : Tags mem stop current tags)
    (bound : stop < 2 ^ 32) (fuel : Nat) (enough : tags.length < fuel) (boot : Boot) :
    (walkTags mem stop fuel current boot).placementAddr =
      ((modules mem tags).map (moduleEnd mem)).foldr max boot.placementAddr := by
  induction formed generalizing fuel boot with
  | last current kind size room =>
      obtain ⟨fuel, rfl⟩ := Nat.exists_eq_succ_of_ne_zero (Nat.ne_of_gt enough)
      rw [walkTags, if_pos (by omega), if_pos ⟨kind, size⟩]
      rfl
  | tag current rest other large tail ih =>
      obtain ⟨fuel, rfl⟩ := Nat.exists_eq_succ_of_ne_zero (Nat.ne_zero_of_lt enough)
      have room := tags_room mem stop _ rest tail
      have next : Word.add current (alignUp (tagSize mem current) 8) = current + (tagSize mem current + 7) / 8 * 8 := by
        rw [align_eight _ (by omega), Word.add_exact _ _ (by omega)]
      rw [walkTags, if_pos (by omega), if_neg other, next, ih fuel (by simpa using enough), read_tag_placement]
      by_cases module : tagType mem current = 3
      · have listed : modules mem (current :: rest) = current :: modules mem rest :=
          List.filter_cons_of_pos (by simpa using module)
        rw [if_pos module, foldr_max_raise, listed]
        rfl
      · have skipped : modules mem (current :: rest) = modules mem rest :=
          List.filter_cons_of_neg (by simpa using module)
        rw [if_neg module, skipped]

theorem image_physical (image : Image) :
    v2p image.start < v2p image.stop ∧ v2p image.stop < 2 ^ 30 := by
  obtain ⟨start, stop, high, nonempty, bounded⟩ := image
  simp only [v2p, kernelVirtualBase] at high ⊢
  rw [Word.sub_exact _ _ (by omega) (by omega), Word.sub_exact _ _ (by omega) (by omega)]
  omega

theorem walk_tags_bounded (mem : Mem) (stop fuel current : Nat) (boot : Boot) (bounded : boot.placementAddr < 2 ^ 32) :
    (walkTags mem stop fuel current boot).placementAddr < 2 ^ 32 := by
  induction fuel generalizing current boot with
  | zero => exact bounded
  | succ fuel ih =>
      rw [walkTags]
      split
      · split
        · exact bounded
        · apply ih
          rw [read_tag_placement]
          have := mem.read_word_lt (current + 12)
          split
          · exact max_lt this bounded
          · exact bounded
      · exact bounded

theorem kmain_bounded (mem : Mem) (image : Image) (mbi : Nat) : (kmainBoot mem image mbi).placementAddr < 2 ^ 32 := by
  apply walk_tags_bounded
  have start := image_physical image
  have info : Word.add mbi (headerSize mem mbi) < 2 ^ 32 := by
    rw [Word.add]
    exact Nat.mod_lt _ (by decide)
  simp only [raise_eq_max]
  omega

theorem last_end_le_iff (mem : Mem) (mbi limit : Nat) (tags : List Nat) :
    lastEnd mem mbi tags ≤ limit ↔
      mbi + headerSize mem mbi ≤ limit ∧ ∀ tag ∈ modules mem tags, moduleEnd mem tag ≤ limit := by
  rw [lastEnd]
  induction modules mem tags with
  | nil => simp
  | cons first rest ih =>
      rw [List.map_cons, List.foldr_cons, max_le_iff, ih, List.forall_mem_cons]
      exact and_left_comm

theorem boot_data_below_iff (mem : Mem) (image : Image) (mbi limit : Nat) (tags : List Nat) :
    (∀ range ∈ bootData mem image mbi tags, range.2 ≤ limit) ↔
      v2p image.stop ≤ limit ∧ lastEnd mem mbi tags ≤ limit := by
  rw [bootData, List.forall_mem_cons, List.forall_mem_cons, last_end_le_iff, List.forall_mem_map]

theorem kmain_placement (mem : Mem) (image : Image) (mbi : Nat) (tags : List Nat) (formed : WellFormed mem mbi tags)
    (info : mbi + headerSize mem mbi < 2 ^ 32) :
    (kmainBoot mem image mbi).placementAddr =
      if p2v mbi + headerSize mem mbi = 2 ^ 32 then max (v2p image.start) (mbi + headerSize mem mbi)
      else max (v2p image.start) (lastEnd mem mbi tags) := by
  have room := tags_room mem _ _ tags formed.tags
  have visible := formed.visible
  rw [kmainBoot, Word.add_exact mbi _ info, raise_eq_max]
  by_cases wrapped : p2v mbi + headerSize mem mbi = 2 ^ 32
  · rw [if_pos wrapped,
      show Word.add (p2v mbi) (headerSize mem mbi) = 0 by rw [Word.add, Nat.add_comm, wrapped, Nat.mod_self]]
    rfl
  · rw [if_neg wrapped, Word.add_exact _ _ (by omega), Word.add_exact _ _ (by omega),
      walk_tags_placement mem _ _ tags formed.tags (by omega) _ (by omega), foldr_max_raise, lastEnd]

theorem bump_calls_above (calls : List Nat) (bump : Bump) (fit : Fit calls bump) :
    (∀ block ∈ (bumpCalls calls bump).1, bump.placementAddr ≤ block.1) ∧
      bump.placementAddr ≤ (bumpCalls calls bump).2.placementAddr := by
  induction calls generalizing bump with
  | nil => exact ⟨by simp [bumpCalls], Nat.le_refl _⟩
  | cons numPages rest ih =>
      rw [Fit, List.sum_cons] at fit
      have moved : (bumpAlloc numPages bump).2.placementAddr = bump.placementAddr + 0x1000 * numPages :=
        Nat.mod_eq_of_lt (by omega)
      obtain ⟨blocks, after⟩ := ih (bumpAlloc numPages bump).2 (by rw [Fit, moved]; omega)
      rw [moved] at blocks after
      refine ⟨?_, Nat.le_trans (Nat.le_add_right _ _) after⟩
      intro block member
      rcases List.mem_cons.mp member with rfl | later
      · exact Nat.le_refl _
      · exact Nat.le_trans (Nat.le_add_right _ _) (blocks block later)

theorem init_bump_placement (endAddr : Nat) (mem : Mem) :
    (initBump endAddr mem).placementAddr = (endAddr + 0xFFF) % 2 ^ 32 / 0x1000 * 0x1000 :=
      align_up_eq endAddr 12 (by decide)

-- Past the last page boundary ALIGN_UP wraps to 0, and the pages handed out from there
-- reach the kernel image.
theorem wrapped_overlaps (mem : Mem) (image : Image) (mbi : Nat) (tags : List Nat) (memoryMap : MemoryMap)
    (high : 0xFFFFF000 < (kmainBoot mem image mbi).placementAddr) : ¬ Clear mem image mbi tags memoryMap := by
  intro clear
  have bounded := kmain_bounded mem image mbi
  have physical := image_physical image
  have zero : (kmainBump mem image mbi).placementAddr = 0 := by
    rw [kmainBump, init_bump_placement]
    omega
  obtain ⟨numPages, covers, fits⟩ : ∃ n, v2p image.stop ≤ 0x1000 * n ∧ 0x1000 * n < 2 ^ 32 :=
    ⟨2 ^ 18, by omega, by decide⟩
  have fit : Fit [numPages] (kmainBump mem image mbi) := by
    rw [Fit, zero, List.sum_singleton]
    omega
  refine clear.bumped _ fit _ List.mem_cons_self _ List.mem_cons_self ⟨v2p image.start, ?_, Nat.le_refl _, physical.1⟩
  change (kmainBump mem image mbi).placementAddr ≤ _ ∧ _ < (kmainBump mem image mbi).placementAddr + 0x1000 * numPages
  omega

theorem early_allocation_clear (mem : Mem) (image : Image) (mbi : Nat) (tags : List Nat) (memoryMap : MemoryMap)
    (formed : WellFormed mem mbi tags) (ram : totalSize memoryMap ≤ 0xFFC00000) :
    Clear mem image mbi tags memoryMap ↔
      v2p image.stop ≤ lastEnd mem mbi tags ∧ lastEnd mem mbi tags ≤ 0xFFFFF000 ∧
        (p2v mbi + headerSize mem mbi = 2 ^ 32 → lastEnd mem mbi tags = mbi + headerSize mem mbi) := by
  have physical := image_physical image
  have bounded := kmain_bounded mem image mbi
  have infoEnd := ((last_end_le_iff mem mbi _ tags).mp (Nat.le_refl _)).1
  constructor
  · intro clear
    obtain ⟨kernel, ends⟩ := (boot_data_below_iff mem image mbi _ tags).mp clear.above
    have placement := kmain_placement mem image mbi tags formed (by omega)
    have low : ¬ 0xFFFFF000 < (kmainBoot mem image mbi).placementAddr :=
      fun high => wrapped_overlaps mem image mbi tags memoryMap high clear
    split at placement
    · omega
    · omega
  · rintro ⟨covered, low, seen⟩
    have placement := kmain_placement mem image mbi tags formed (by omega)
    have passed : (kmainBoot mem image mbi).placementAddr = lastEnd mem mbi tags := by
      split at placement
      · omega
      · omega
    have data := (boot_data_below_iff mem image mbi _ tags).mpr ⟨covered, Nat.le_refl _⟩
    have start : lastEnd mem mbi tags ≤ (kmainBump mem image mbi).placementAddr := by
      rw [kmainBump, init_bump_placement, passed]
      omega
    have apart (first stop : Nat) (above : (kmainBump mem image mbi).placementAddr ≤ first) (range : Nat × Nat)
        (member : range ∈ bootData mem image mbi tags) : ¬ Overlap (first, stop) range := by
      rintro ⟨x, ⟨low, -⟩, -, high⟩
      have := data range member
      simp only at low
      omega
    refine ⟨fun range member => passed ▸ data range member, ?_, ?_⟩
    · intro calls fit block member
      exact apart block.1 block.2 ((bump_calls_above calls _ fit).1 block member)
    · intro calls fit s page kernel placed
      have managed := add_pages_managed memoryMap _ s page ram (kernel ▸ placed)
      exact apart _ _ (Nat.le_trans (bump_calls_above calls _ fit).2 managed.1)

def imageAt (stop : Nat) (nonempty : 0xC0100000 < stop) (bounded : stop < 2 ^ 32) : Image :=
  ⟨0xC0100000, stop, by decide, nonempty, bounded⟩

-- The information structure at `addr`: the header, one module tag and the end tag.
def moduleInfo (addr start stop : Nat) : Mem :=
  let mem : Mem := fun _ => 0
  let mem := (mem.writeWord (p2v addr) 32).writeWord (p2v addr + 8) 3
  let mem := (mem.writeWord (p2v addr + 12) 16).writeWord (p2v addr + 16) start
  (mem.writeWord (p2v addr + 20) stop).writeWord (p2v addr + 28) 8

def lowModule : Mem := moduleInfo 0x10000 0x20000 0x28000
def highModule : Mem := moduleInfo 0x10000 0x200000 0x208000
def infoTags : List Nat := [p2v 0x10000 + 8]
def gibMap : MemoryMap := fun i => if i = 3 then ⟨0x100000, 0x3FB00000⟩ else ⟨0, 0⟩

-- A module above a kernel of 1 MiB, so that its end covers the kernel's.
theorem early_allocation_clear_above :
    Clear highModule (imageAt 0xC0200000 (by decide) (by decide)) 0x10000 infoTags gibMap := by
  have tags : Tags highModule (p2v 0x10000 + headerSize highModule 0x10000) (p2v 0x10000 + 8) infoTags :=
    .tag _ _ (by decide +kernel) (by decide +kernel)
      (.last _ (by decide +kernel) (by decide +kernel) (by decide +kernel))
  exact (early_allocation_clear _ _ _ _ gibMap ⟨by decide +kernel, tags⟩ (by decide)).mpr (by decide +kernel)

-- The structure and the module below the kernel: the first page handed out is the
-- kernel's own first page.
theorem early_allocation_overlaps :
    WellFormed lowModule 0x10000 infoTags ∧
      (bumpCalls [1] (kmainBump lowModule (imageAt 0xC0200000 (by decide) (by decide)) 0x10000)).1 =
        [(0x100000, 0x101000)] ∧
      ¬ Clear lowModule (imageAt 0xC0200000 (by decide) (by decide)) 0x10000 infoTags gibMap := by
  have tags : Tags lowModule (p2v 0x10000 + headerSize lowModule 0x10000) (p2v 0x10000 + 8) infoTags :=
    .tag _ _ (by decide +kernel) (by decide +kernel)
      (.last _ (by decide +kernel) (by decide +kernel) (by decide +kernel))
  refine ⟨⟨by decide +kernel, tags⟩, by decide +kernel, ?_⟩
  intro clear
  exact absurd (clear.above (0x100000, 0x200000) (by decide +kernel)) (by decide +kernel)

end X86OS.Kernel
