import X86OS.Mm.BuddyRuns
import X86OS.Mm.PageAllocator

set_option autoImplicit false

namespace X86OS.Buddy

open Function Dll Tiling Relation

def FreeBlock (s : State) (h k : Nat) : Prop := h < s.pageN ∧ (s.pageMap h).flags = .free ∧ (s.pageMap h).order = k

def FreePage (s : State) (p : Nat) : Prop := ∃ h, InBlock s h p ∧ (s.pageMap h).flags = .free

def UsedPage (sys : Config) (p : Nat) : Prop :=
  ∃ addr k, (addr, k) ∈ sys.live ∧ addr ≤ 0x1000 * p ∧ 0x1000 * p < addr + 0x1000 * 2 ^ k

def SameFreeLists (s s' : State) : Prop :=
  ∀ k, k ≤ maxBuddyOrder → ∃ nodes nodes', ListAt s k nodes ∧ ListAt s' k nodes' ∧ ∀ h, h ∈ nodes ↔ h ∈ nodes'

theorem in_real_block (i p k : Nat) :
    (pageMapReal i ≤ 0x1000 * p ∧ 0x1000 * p < pageMapReal i + 0x1000 * 2 ^ k) ↔ i ≤ p ∧ p < i + 2 ^ k := by
  rw [pageMapReal, ← Nat.mul_add]
  omega

theorem free_page_iff (s : State) (region : Nat → Prop) (tile : TileMap Kind) (total p : Nat)
    (inv : Inv s region tile total) :
    FreePage s p ↔ Covers .free tile p := by
  constructor
  · rintro ⟨h, block, flags⟩
    obtain ⟨b, head, low, high⟩ := (in_block_iff inv h p).mp block
    obtain ⟨inside, -, order⟩ := (head_iff inv h b.order b.kind (head_settled inv h b head)).mp head
    exact ⟨h, b.order, (head_iff inv h b.order .free (by decide)).mpr ⟨inside, flags, order⟩, low, high⟩
  · rintro ⟨h, k, head, low, high⟩
    exact ⟨h, (in_block_iff inv h p).mpr ⟨_, head, low, high⟩, ((head_iff inv h k .free (by decide)).mp head).2.1⟩

theorem used_page_iff (sys : Config) (region : Nat → Prop) (tile : TileMap Kind) (total p : Nat)
    (owned : Owned sys region tile total) : UsedPage sys p ↔ Covers .used tile p := by
  constructor
  · rintro ⟨addr, k, member, range⟩
    obtain ⟨i, rfl, head⟩ := (owned.used addr k).mp member
    obtain ⟨low, high⟩ := (in_real_block i p k).mp range
    exact ⟨i, k, head, low, high⟩
  · rintro ⟨i, k, head, low, high⟩
    exact ⟨pageMapReal i, k, (owned.used _ k).mpr ⟨i, rfl, head⟩, (in_real_block i p k).mpr ⟨low, high⟩⟩

theorem covers_free_iff (s : State) (region : Nat → Prop) (tile : TileMap Kind) (total p : Nat)
    (inv : Inv s region tile total) :
    Covers .free tile p ↔ region p ∧ ¬ Covers .used tile p := by
  constructor
  · rintro ⟨i, k, head, low, high⟩
    refine ⟨inv.rep.tiles.inside i _ head p low high, ?_⟩
    rintro ⟨j, m, head', low', high'⟩
    have same := tiles_unique inv.rep.tiles i j p _ _ head head' low high low' high'
    rw [← same, head] at head'
    cases head'
  · rintro ⟨managed, notUsed⟩
    obtain ⟨i, ⟨k, kind⟩, head, low, high⟩ := inv.rep.tiles.cover p managed
    cases kind with
    | free => exact ⟨i, k, head, low, high⟩
    | used => exact absurd ⟨i, k, head, low, high⟩ notUsed
    | hand => exact absurd head (inv.quiet i k)

theorem owned_apart (sys : Config) (region : Nat → Prop) (tile : TileMap Kind) (total : Nat)
    (owned : Owned sys region tile total) : sys.live.Pairwise Apart := by
  apply List.Pairwise.imp_of_mem _ owned.nodup
  rintro ⟨a, k⟩ ⟨b, m⟩ memberA memberB other
  obtain ⟨i, rfl, headI⟩ := (owned.used a k).mp memberA
  obtain ⟨j, rfl, headJ⟩ := (owned.used b m).mp memberB
  have sizeI := Nat.two_pow_pos k
  have sizeJ := Nat.two_pow_pos m
  simp only [Apart, pageMapReal, ← Nat.mul_add]
  by_contra overlap
  -- Overlapping blocks share the page where the later one starts.
  have same :=
    tiles_unique owned.inv.rep.tiles i j (max i j) _ _ headI headJ (by omega) (by simp only; omega) (by omega)
    (by simp only; omega)
  subst same
  rw [headI] at headJ
  cases headJ
  exact other rfl

theorem same_free_lists (s s' : State) (region : Nat → Prop) (tile tile' : TileMap Kind) (total total' : Nat)
    (inv : Inv s region tile total) (inv' : Inv s' region tile' total')
    (same : ∀ p, Covers .free tile p ↔ Covers .free tile' p) : SameFreeLists s s' := by
  intro k small
  obtain ⟨nodes, list, members⟩ := inv.rep.lists k small
  obtain ⟨nodes', list', members'⟩ := inv'.rep.lists k small
  refine ⟨nodes, nodes', list, list', ?_⟩
  intro h
  rw [members h, members' h]
  exact coalesced_unique _ region region tile tile' .free inv.rep.tiles inv'.rep.tiles inv.coalesced
    inv'.coalesced same h k

-- A machine of eight pages, two of them below the placement address.
def smallMap : MemoryMap := fun i => if i = 3 then ⟨0, 0x8000⟩ else ⟨0, 0⟩

def smallBump : Bump := ⟨fun _ => 0, 0x1000, by decide, by decide⟩

theorem small_bootable : Bootable smallMap (fun _ => zeroPage) := ⟨by decide, by decide, rfl⟩

def allocatedAddr (order : Nat) (s : State) : Option Nat :=
  match buddyAllocPages order s with
  | .ok (addr, _) => some addr
  | .error _ => none

theorem alloc_of_addr (order addr : Nat) (s : State) (found : allocatedAddr order s = some addr) :
    ∃ s', buddyAllocPages order s = .ok (addr, s') := by
  unfold allocatedAddr at found
  split at found
  · next s' done =>
      cases found
      exact ⟨s', done⟩
  · cases found

theorem small_alloc : ∃ s', buddyAllocPages 0 (boot smallMap (fun _ => zeroPage) smallBump).state = .ok (0x2000, s') :=
  alloc_of_addr 0 0x2000 _ (by decide +kernel)

def allocatedSecond (order : Nat) (s : State) : Option Nat :=
  match buddyAllocPages order s with
  | .ok (_, s') => allocatedAddr order s'
  | .error _ => none

theorem small_alloc_twice :
    ∃ s' s'', buddyAllocPages 0 (boot smallMap (fun _ => zeroPage) smallBump).state = .ok (0x2000, s') ∧
    buddyAllocPages 0 s' = .ok (0x3000, s'') := by
  obtain ⟨s', done⟩ := small_alloc
  have found : allocatedSecond 0 (boot smallMap (fun _ => zeroPage) smallBump).state = some 0x3000 := by decide +kernel
  simp only [allocatedSecond, done] at found
  obtain ⟨s'', second⟩ := alloc_of_addr 0 0x3000 s' found
  exact ⟨s', s'', done, second⟩

def allocatedThird (order : Nat) (s : State) : Option Nat :=
  match buddyAllocPages order s with
  | .ok (_, s') => allocatedSecond order s'
  | .error _ => none

theorem small_alloc_thrice :
    ∃ s1 s2 s3, buddyAllocPages 0 (boot smallMap (fun _ => zeroPage) smallBump).state = .ok (0x2000, s1) ∧
    buddyAllocPages 0 s1 = .ok (0x3000, s2) ∧ buddyAllocPages 0 s2 = .ok (0x4000, s3) := by
  obtain ⟨s1, s2, first, second⟩ := small_alloc_twice
  have found : allocatedThird 0 (boot smallMap (fun _ => zeroPage) smallBump).state = some 0x4000 := by decide +kernel
  simp only [allocatedThird, allocatedSecond, first, second] at found
  obtain ⟨s3, third⟩ := alloc_of_addr 0 0x4000 s2 found
  exact ⟨s1, s2, s3, first, second, third⟩

theorem boot_alloc (memoryMap : MemoryMap) (slack : Nat → Page) (bump : Bump) (order addr : Nat) (s' : State)
    (small : order ≤ maxBuddyOrder) (done : buddyAllocPages order (boot memoryMap slack bump).state = .ok (addr, s')) :
    ReflTransGen Step (boot memoryMap slack bump) ⟨s', [(addr, order)]⟩ :=
  .single (.alloc (initBuddy memoryMap slack bump).1 s' [] order addr small done)

section Boot

variable (memoryMap : MemoryMap) (slack : Nat → Page) (bump : Bump) (bootable : Bootable memoryMap slack)

include bootable

-- Representation invariant: blocks and page map, free lists, counters.
theorem buddy_representation (sys : Config) (run : ReflTransGen Step (boot memoryMap slack bump) sys) :
    sys.state.pageN = pageCount memoryMap ∧
      (∀ p, p < sys.state.pageN → (sys.state.pageMap p).flags ≠ .kernel → ∃! h, InBlock sys.state h p) ∧
      (∀ addr k, (addr, k) ∈ sys.live ↔
        ∃ h, addr = pageMapReal h ∧ h < sys.state.pageN ∧ (sys.state.pageMap h).flags = .used ∧
          (sys.state.pageMap h).order = k) ∧
      (∀ k, k ≤ maxBuddyOrder → ∃ nodes, ListAt sys.state k nodes ∧ ∀ h, h ∈ nodes ↔ FreeBlock sys.state h k) ∧
      sys.state.freePagesCount = blockPages sys.state .free ∧
      sys.state.usedPagesCount = blockPages sys.state .used ∧
      sys.state.freePagesCount + sys.state.usedPagesCount =
        (boot memoryMap slack bump).state.freePagesCount + (boot memoryMap slack bump).state.usedPagesCount := by
  obtain ⟨start, total, ownedStart⟩ := boot_owned memoryMap slack bump bootable
  obtain ⟨tile, owned, sameN⟩ := run_owned _ sys _ start total ownedStart run
  have inv := owned.inv
  refine ⟨?_, ?_, ?_, ?_, ?_, ?_, ?_⟩
  · rw [sameN, boot, init_buddy_count]
  · intro p inside notKernel
    exact one_block inv p ((kernel_iff inv p inside).mp notKernel)
  · intro addr k
    rw [owned.used]
    simp only [head_iff inv _ k .used (by decide), Kind.flag]
  · intro k small
    obtain ⟨nodes, list, members⟩ := inv.rep.lists k small
    exact ⟨nodes, list, fun h => (members h).trans (head_iff inv h k .free (by decide))⟩
  · rw [inv.freeCount]
    exact (block_pages_eq inv .free (by decide)).symm
  · rw [inv.usedCount]
    exact (block_pages_eq inv .used (by decide)).symm
  · rw [inv.freeCount, inv.usedCount, inv.sum, ownedStart.inv.freeCount, ownedStart.inv.usedCount, ownedStart.inv.sum]

omit bootable in
theorem buddy_representation_small :
    ∃ sys : Config, sys.live = [(0x2000, 0)] ∧ sys.state.pageN = 8 ∧
      sys.state.usedPagesCount = blockPages sys.state .used := by
  obtain ⟨s', done⟩ := small_alloc
  have holds := buddy_representation smallMap _ smallBump small_bootable _
    (boot_alloc _ _ _ 0 0x2000 s' (by decide) done)
  exact ⟨_, rfl, holds.1.trans (by decide), holds.2.2.2.2.2.1⟩

-- Exclusive ownership of the pages handed out.
theorem buddy_ownership (sys : Config) (run : ReflTransGen Step (boot memoryMap slack bump) sys) :
    (∀ order addr s', order ≤ maxBuddyOrder → buddyAllocPages order sys.state = .ok (addr, s') →
        0x1000 * 2 ^ order ∣ addr ∧ getPlacementAddr (initBuddy memoryMap slack bump).2 ≤ addr ∧
        addr + 0x1000 * 2 ^ order ≤ (memoryMap 3).addr + (memoryMap 3).size ∧
        (∀ block, block ∈ sys.live → Apart (addr, order) block) ∧
        (∀ p, addr ≤ 0x1000 * p → 0x1000 * p < addr + 0x1000 * 2 ^ order → FreePage sys.state p)) ∧
      sys.live.Pairwise Apart ∧
      (∀ p, UsedPage sys p → p < sys.state.pageN ∧ (sys.state.pageMap p).flags ≠ .kernel) := by
  obtain ⟨start, total, ownedStart⟩ := boot_owned memoryMap slack bump bootable
  obtain ⟨tile, owned, -⟩ := run_owned _ sys _ start total ownedStart run
  have inv := owned.inv
  have stopEq : totalSize memoryMap = (memoryMap 3).addr + (memoryMap 3).size := by
    have := bootable.low
    rw [totalSize, Nat.mod_eq_of_lt (by omega)]
  refine ⟨?_, owned_apart sys _ tile total owned, ?_⟩
  · intro order addr s' small done
    obtain ⟨top, tile', rfl, inv', -, head, used, covered⟩ :=
      buddy_alloc_spec sys.state s' _ tile total order addr inv done
    have positive := Nat.two_pow_pos order
    have aligned : 2 ^ order ∣ top := inv'.rep.tiles.aligned top _ head
    have managed (p : Nat) (low : top ≤ p) (high : p < top + 2 ^ order) :=
      inv'.rep.tiles.inside top _ head p low high
    have first := (managed top (Nat.le_refl top) (by omega)).1
    have last := (managed (top + 2 ^ order - 1) (by omega) (by omega)).2
    refine ⟨Nat.mul_dvd_mul_left _ aligned, first, ?_, ?_, ?_⟩
    · simp only [pageMapReal]
      omega
    · rintro ⟨a, k⟩ member
      obtain ⟨j, rfl, old⟩ := (owned.used a k).mp member
      have sizeJ := Nat.two_pow_pos k
      by_contra overlap
      simp only [Apart, pageMapReal, ← Nat.mul_add] at overlap
      obtain ⟨p, lowTop, highTop, lowJ, highJ⟩ : ∃ p, top ≤ p ∧ p < top + 2 ^ order ∧ j ≤ p ∧ p < j + 2 ^ k :=
        ⟨max top j, by omega, by omega, by omega, by omega⟩
      exact ((covers_free_iff sys.state _ tile total p inv).mp (covered p lowTop highTop)).2 ⟨j, k, old, lowJ, highJ⟩
    · intro p low high
      obtain ⟨lowP, highP⟩ := (in_real_block top p order).mp ⟨low, high⟩
      exact (free_page_iff sys.state _ tile total p inv).mpr (covered p lowP highP)
  · intro p used
    obtain ⟨i, k, head, low, high⟩ := (used_page_iff sys _ tile total p owned).mp used
    have managed := inv.rep.tiles.inside i _ head p low high
    have inside := inv.rep.inMap p managed
    exact ⟨inside, (kernel_iff inv p inside).mpr managed⟩

omit bootable in
theorem buddy_ownership_small :
    ∃ s', buddyAllocPages 0 (boot smallMap (fun _ => zeroPage) smallBump).state = .ok (0x2000, s') ∧
      FreePage (boot smallMap (fun _ => zeroPage) smallBump).state 2 := by
  obtain ⟨s', done⟩ := small_alloc
  have holds := (buddy_ownership smallMap _ smallBump small_bootable _ .refl).1 0 0x2000 s' (by decide) done
  exact ⟨s', done, holds.2.2.2.2 2 (by decide) (by decide)⟩

-- Canonical free state: full coalescing, hence the free pages determine the lists.
theorem buddy_canonical (sys sys' : Config) (run : ReflTransGen Step (boot memoryMap slack bump) sys)
    (run' : ReflTransGen Step (boot memoryMap slack bump) sys') :
    (∀ h k, k < maxBuddyOrder → FreeBlock sys.state h k → ¬ FreeBlock sys.state (h ^^^ (1 <<< k)) k) ∧
      ((∀ p, FreePage sys.state p ↔ FreePage sys'.state p) → SameFreeLists sys.state sys'.state) ∧
      ((∀ p, UsedPage sys p ↔ UsedPage sys' p) → SameFreeLists sys.state sys'.state) ∧
      (sys.live = [] → SameFreeLists sys.state (boot memoryMap slack bump).state) := by
  obtain ⟨start, total, ownedStart⟩ := boot_owned memoryMap slack bump bootable
  obtain ⟨tile, owned, -⟩ := run_owned _ sys _ start total ownedStart run
  obtain ⟨tile', owned', -⟩ := run_owned _ sys' _ start total ownedStart run'
  have sameUsed (other : Config) (tile'' : TileMap Kind)
      (ownedOther : Owned other (Managed memoryMap (initBuddy memoryMap slack bump).2) tile'' total)
      (same : ∀ p, UsedPage sys p ↔ UsedPage other p) : SameFreeLists sys.state other.state := by
    apply same_free_lists _ _ _ tile tile'' total total owned.inv ownedOther.inv
    intro p
    rw [covers_free_iff _ _ tile total p owned.inv, covers_free_iff _ _ tile'' total p ownedOther.inv,
      ← used_page_iff sys _ tile total p owned, ← used_page_iff other _ tile'' total p ownedOther, same p]
  refine ⟨?_, ?_, sameUsed sys' tile' owned', ?_⟩
  · intro h k room free freeBuddy
    have head := (head_iff owned.inv h k .free (by decide)).mpr free
    have headBuddy := (head_iff owned.inv _ k .free (by decide)).mpr freeBuddy
    rw [Nat.shiftLeft_eq, Nat.one_mul] at headBuddy
    exact coalesced_xor _ _ tile .free owned.inv.rep.tiles owned.inv.coalesced h k room head headBuddy
  · intro same
    apply same_free_lists _ _ _ tile tile' total total owned.inv owned'.inv
    intro p
    rw [← free_page_iff _ _ tile total p owned.inv, ← free_page_iff _ _ tile' total p owned'.inv, same p]
  · intro empty
    apply sameUsed (boot memoryMap slack bump) start ownedStart
    intro p
    simp [UsedPage, empty, boot]

omit bootable in
theorem buddy_canonical_small :
    ∃ s', buddyAllocPages 0 (boot smallMap (fun _ => zeroPage) smallBump).state = .ok (0x2000, s') ∧
      SameFreeLists (buddyFreePages 0x2000 s') (boot smallMap (fun _ => zeroPage) smallBump).state := by
  obtain ⟨s', done⟩ := small_alloc
  have run : ReflTransGen Step (boot smallMap (fun _ => zeroPage) smallBump) ⟨buddyFreePages 0x2000 s', []⟩ :=
    .tail (boot_alloc _ _ _ 0 0x2000 s' (by decide) done) (.free s' [] [] 0x2000 0)
  exact ⟨s', done, (buddy_canonical smallMap _ smallBump small_bootable _ _ run .refl).2.2.2 rfl⟩

end Boot

end X86OS.Buddy
