import X86OS.Mm.BuddyProperties

set_option autoImplicit false

namespace X86OS.Buddy

open Function Dll Tiling Relation

theorem search_order_le (s : State) (fuel cur k : Nat) (low : cur ≤ k) (enough : k < cur + fuel)
    (free : s.freeArea k ≠ none) :
    searchOrder s fuel cur ≤ k := by
  induction fuel generalizing cur with
  | zero => omega
  | succ fuel ih =>
      rw [searchOrder]
      by_cases empty : (s.freeArea cur).isNone && decide (cur ≤ maxBuddyOrder)
      · rw [if_pos empty]
        have other : cur ≠ k := by
          rintro rfl
          simp [free] at empty
        exact ih (cur + 1) (by omega) (by omega)
      · rw [if_neg empty]
        exact low

theorem buddy_alloc_served (s : State) (order k : Nat) (low : order ≤ k) (small : k ≤ maxBuddyOrder)
    (free : s.freeArea k ≠ none) :
    ∃ addr s', buddyAllocPages order s = .ok (addr, s') := by
  have bound := search_order_le s (maxBuddyOrder + 1) order k low (by omega) free
  have found := (search_order_spec s (maxBuddyOrder + 1) order (by omega)).2 (by omega)
  obtain ⟨top, head⟩ := Option.ne_none_iff_exists'.mp found
  rw [buddyAllocPages, if_neg (by omega), pop_eq_remove s _ top head]
  exact ⟨_, _, rfl⟩

theorem buddy_alloc_answers (s : State) (order : Nat) :
    (∃ addr s', buddyAllocPages order s = .ok (addr, s')) ∨ buddyAllocPages order s = .error "PMM Out of memory" := by
  by_cases exhausted : searchOrder s (maxBuddyOrder + 1) order > maxBuddyOrder
  · right
    rw [buddyAllocPages, if_pos exhausted]
  · left
    have search := search_order_spec s (maxBuddyOrder + 1) order (by omega)
    exact buddy_alloc_served s order _ search.1 (by omega) (search.2 (by omega))

-- A page the allocator manages and nobody holds: neither P_KERNEL nor part of a live block.
def AvailablePage (sys : Config) (p : Nat) : Prop :=
  p < sys.state.pageN ∧ (sys.state.pageMap p).flags ≠ .kernel ∧ ¬ UsedPage sys p

def AvailableRun (sys : Config) (order start : Nat) : Prop :=
  2 ^ order ∣ start ∧ ∀ p, start ≤ p → p < start + 2 ^ order → AvailablePage sys p

theorem available_page_iff (sys : Config) (region : Nat → Prop) (tile : TileMap Kind) (total p : Nat)
    (owned : Owned sys region tile total) : AvailablePage sys p ↔ Covers .free tile p := by
  rw [AvailablePage, covers_free_iff sys.state region tile total p owned.inv,
    used_page_iff sys region tile total p owned]
  constructor
  · rintro ⟨inside, managed, unused⟩
    exact ⟨(kernel_iff owned.inv p inside).mp managed, unused⟩
  · rintro ⟨managed, unused⟩
    have inside := owned.inv.rep.inMap p managed
    exact ⟨inside, (kernel_iff owned.inv p inside).mpr managed, unused⟩

-- Full coalescing puts an available run inside one free block, which some list holds.
theorem available_served (sys : Config) (region : Nat → Prop) (tile : TileMap Kind) (total order start : Nat)
    (owned : Owned sys region tile total) (small : order ≤ maxBuddyOrder) (available : AvailableRun sys order start) :
    ∃ addr s', buddyAllocPages order sys.state = .ok (addr, s') := by
  have inv := owned.inv
  obtain ⟨i, m, larger, head, -, -⟩ :=
    coalesced_stretch maxBuddyOrder region tile .free inv.rep.tiles inv.coalesced order start
    small available.1 (fun p low high => (available_page_iff sys region tile total p owned).mp (available.2 p low high))
  have bound : m ≤ maxBuddyOrder := inv.rep.tiles.bounded i _ head
  obtain ⟨nodes, ⟨-, first⟩, members⟩ := inv.rep.lists m bound
  refine buddy_alloc_served sys.state order m larger bound ?_
  rw [first, Ne, List.head?_eq_none_iff]
  exact List.ne_nil_of_mem ((members i).mpr head)

theorem served_available (sys : Config) (region : Nat → Prop) (tile : TileMap Kind) (total order addr : Nat)
    (s' : State) (owned : Owned sys region tile total) (done : buddyAllocPages order sys.state = .ok (addr, s')) :
    ∃ start, AvailableRun sys order start := by
  obtain ⟨top, tile', -, inv', -, head, -, covered⟩ :=
    buddy_alloc_spec sys.state s' region tile total order addr owned.inv done
  refine ⟨top, inv'.rep.tiles.aligned top _ head, ?_⟩
  intro p low high
  exact (available_page_iff sys region tile total p owned).mpr (covered p low high)

theorem buddy_panics_iff (memoryMap : MemoryMap) (slack : Nat → Page) (bump : Bump)
    (bootable : Bootable memoryMap slack) (sys : Config) (run : ReflTransGen Step (boot memoryMap slack bump) sys)
    (order : Nat) (small : order ≤ maxBuddyOrder) :
    (buddyAllocPages order sys.state = .error "PMM Out of memory" ↔ ¬ ∃ start, AvailableRun sys order start) ∧
      ((∃ addr s', buddyAllocPages order sys.state = .ok (addr, s')) ↔ ∃ start, AvailableRun sys order start) := by
  obtain ⟨first, total, ownedFirst⟩ := boot_owned memoryMap slack bump bootable
  obtain ⟨tile, owned, -⟩ := run_owned _ sys _ first total ownedFirst run
  have served : (∃ addr s', buddyAllocPages order sys.state = .ok (addr, s')) ↔ ∃ start, AvailableRun sys order start :=
    ⟨fun ⟨addr, s', done⟩ => served_available sys _ tile total order addr s' owned done,
      fun ⟨start, available⟩ => available_served sys _ tile total order start owned small available⟩
  refine ⟨?_, served⟩
  rw [← served]
  rcases buddy_alloc_answers sys.state order with ⟨addr, s', done⟩ | panicked
  · simp [done]
  · simp [panicked]

theorem buddy_panics_small :
    buddyAllocPages 3 (boot smallMap (fun _ => zeroPage) smallBump).state = .error "PMM Out of memory" ∧
      ¬ ∃ start, AvailableRun (boot smallMap (fun _ => zeroPage) smallBump) 3 start := by
  have answer : allocatedAddr 3 (boot smallMap (fun _ => zeroPage) smallBump).state = none := by decide +kernel
  have panicked :
      buddyAllocPages 3 (boot smallMap (fun _ => zeroPage) smallBump).state = .error "PMM Out of memory" := by
    rcases buddy_alloc_answers (boot smallMap (fun _ => zeroPage) smallBump).state 3 with ⟨addr, s', done⟩ | stopped
    · rw [allocatedAddr, done] at answer
      cases answer
    · exact stopped
  exact ⟨panicked, (buddy_panics_iff smallMap _ smallBump small_bootable _ .refl 3 (by decide)).1.mp panicked⟩

-- The indices the search reads `free_area` at. The last test reads the list before it
-- looks at the bound, which is one iteration more than `searchOrder` needs.
def searchReads (s : State) : Nat → Nat → List Nat
  | 0, _ => []
  | fuel + 1, curOrder =>
      curOrder ::
        if (s.freeArea curOrder).isNone && curOrder ≤ maxBuddyOrder then searchReads s fuel (curOrder + 1) else []

-- All reads of `buddy_alloc_pages`: those of the search and, unless it panics, `pop_node`'s
-- and one for each `push_node` of the split.
def allocReads (order : Nat) (s : State) : List Nat :=
  let curOrder := searchOrder s (maxBuddyOrder + 1) order
  searchReads s (maxBuddyOrder + 2) order ++
    if curOrder > maxBuddyOrder then [] else curOrder :: (List.range' order (curOrder - order)).reverse

theorem search_reads_eq (s : State) (fuel cur : Nat) (enough : maxBuddyOrder + 1 ≤ cur + fuel) :
    searchReads s (fuel + 1) cur = List.range' cur (searchOrder s fuel cur - cur + 1) := by
  induction fuel generalizing cur with
  | zero => simp [searchReads, searchOrder]
  | succ fuel ih =>
      rw [searchReads, searchOrder]
      by_cases further : (s.freeArea cur).isNone && decide (cur ≤ maxBuddyOrder)
      · have beyond : cur + 1 ≤ searchOrder s fuel (cur + 1) := (search_order_spec s fuel (cur + 1) (by omega)).1
        have count : searchOrder s fuel (cur + 1) - cur = searchOrder s fuel (cur + 1) - (cur + 1) + 1 := by omega
        rw [if_pos further, if_pos further, ih (cur + 1) (by omega), count]
        rfl
      · rw [if_neg further, if_neg further]
        simp

theorem mem_alloc_reads (order i : Nat) (s : State) :
    i ∈ allocReads order s ↔ order ≤ i ∧ i ≤ searchOrder s (maxBuddyOrder + 1) order := by
  have start := (search_order_spec s (maxBuddyOrder + 1) order (by omega)).1
  rw [allocReads, search_reads_eq s _ order (by omega), List.mem_append, List.mem_range'_1]
  by_cases panics : searchOrder s (maxBuddyOrder + 1) order > maxBuddyOrder
  · rw [if_pos panics]
    simp only [List.not_mem_nil, or_false]
    omega
  · rw [if_neg panics]
    simp only [List.mem_cons, List.mem_reverse, List.mem_range'_1]
    omega

theorem free_area_reads (s : State) (order : Nat) :
    (∀ i ∈ allocReads order s, i ≤ maxBuddyOrder) ↔ ∃ k, order ≤ k ∧ k ≤ maxBuddyOrder ∧ s.freeArea k ≠ none := by
  have search := search_order_spec s (maxBuddyOrder + 1) order (by omega)
  constructor
  · intro inside
    have found : searchOrder s (maxBuddyOrder + 1) order ≤ maxBuddyOrder :=
      inside _ ((mem_alloc_reads order _ s).mpr ⟨search.1, Nat.le_refl _⟩)
    exact ⟨_, search.1, found, search.2 found⟩
  · rintro ⟨k, low, small, free⟩ i read
    have bound := search_order_le s (maxBuddyOrder + 1) order k low (by omega) free
    have last := ((mem_alloc_reads order i s).mp read).2
    omega

theorem free_area_read_past :
    ReflTransGen Step (boot smallMap (fun _ => zeroPage) smallBump) (boot smallMap (fun _ => zeroPage) smallBump) ∧
      allocReads 3 (boot smallMap (fun _ => zeroPage) smallBump).state = [3, 4, 5, 6, 7, 8, 9, 10, 11] ∧
      allocReads 20 (boot smallMap (fun _ => zeroPage) smallBump).state = [20] ∧
      ¬ ∀ i ∈ allocReads 3 (boot smallMap (fun _ => zeroPage) smallBump).state, i ≤ maxBuddyOrder := by
  have reads : allocReads 3 (boot smallMap (fun _ => zeroPage) smallBump).state = [3, 4, 5, 6, 7, 8, 9, 10, 11] := by
    decide +kernel
  refine ⟨.refl, reads, by decide +kernel, ?_⟩
  intro inside
  exact absurd (inside 11 (by simp [reads])) (by decide)

end X86OS.Buddy
