import X86OS.Mm.BuddyProperties

set_option autoImplicit false

namespace X86OS.Buddy

open Function Dll Tiling Relation

-- The page map indices the merge loop looks a buddy up at, in order.
def mergeLookups : Nat → Nat → Nat → State → List Nat
  | 0, _, _, _ => []
  | fuel + 1, top, curOrder, s =>
      if curOrder < maxBuddyOrder then
        let buddy := buddyIndex s top
        if (s.pageMap buddy).flags = .free ∧ (s.pageMap buddy).order = curOrder then
          let (top, s) := mergeStep top buddy curOrder s
          buddy :: mergeLookups fuel top (curOrder + 1) s
        else [buddy]
      else []

def buddyLookups (addr : Nat) (s : State) : List Nat :=
  let index := realPageIndex addr
  let curOrder := (s.pageMap index).order
  let s := { s with usedPagesCount := Word.sub s.usedPagesCount (1 <<< curOrder),
                    freePagesCount := Word.add s.freePagesCount (1 <<< curOrder) }
  mergeLookups maxBuddyOrder index curOrder s

-- What staying inside RAM asks of one state: freeing any live block looks only at
-- entries of the map, and every listed block ends by the end of the map.
structure InRange (sys : Config) : Prop where
  lookups : ∀ addr k, (addr, k) ∈ sys.live → ∀ i ∈ buddyLookups addr sys.state, i < sys.state.pageN
  blocks : ∀ k, k ≤ maxBuddyOrder → ∃ nodes, ListAt sys.state k nodes ∧ ∀ h ∈ nodes, h + 2 ^ k ≤ sys.state.pageN

structure PageAligned (memoryMap : MemoryMap) : Prop where
  addr : 0x1000 ∣ (memoryMap 3).addr
  size : 0x1000 ∣ (memoryMap 3).size
  low : (memoryMap 3).addr + (memoryMap 3).size ≤ 2 ^ 30

-- The first page behind the page map, where `add_pages` starts.
def firstPage (memoryMap : MemoryMap) (bump : Bump) : Nat :=
  (bump.placementAddr + 0x1000 * ((pageCount memoryMap * sizeofPage + 0xFFF) / 0x1000)) % 2 ^ 32 / 0x1000

-- The last aligned block of the largest order below 10 that ends with the map is not managed.
def Enclosed (n lo : Nat) : Prop := ∀ k, k < maxBuddyOrder → 2 ^ k ∣ n → ¬ 2 ^ (k + 1) ∣ n → n < lo + 2 ^ k

theorem enclosed_buddy (n lo i k : Nat) (enclosed : Enclosed n lo) (room : k < maxBuddyOrder) (aligned : 2 ^ k ∣ i)
    (managed : lo ≤ i) (inMap : i + 2 ^ k ≤ n) : i ^^^ 2 ^ k < n := by
  have positive := Nat.two_pow_pos k
  rcases Word.half_of_parent i k aligned with isLower | ⟨lower, lowerAligned, rfl⟩
  · rw [Word.xor_two_pow_lower i k isLower]
    refine Nat.lt_of_le_of_ne inMap ?_
    intro atEnd
    have whole : 2 ^ k ∣ n := atEnd ▸ (Nat.dvd_add_right aligned).mpr (Nat.dvd_refl _)
    have half : ¬ 2 ^ (k + 1) ∣ n := by
      intro parent
      rw [← atEnd, Nat.dvd_add_right isLower] at parent
      exact absurd (Nat.le_of_dvd positive parent) (Nat.not_le.mpr (Nat.pow_lt_pow_right (by decide) (by omega)))
    have := enclosed k room whole half
    omega
  · rw [Word.xor_two_pow_upper lower k lowerAligned]
    omega

theorem merge_lookups_in_range (fuel : Nat) (s : State) (region : Nat → Prop) (tile : TileMap Kind) (top k lo : Nat)
    (held : Held s region tile top k) (order : (s.pageMap top).order = k) (managed : ∀ p, region p → lo ≤ p)
    (enclosed : Enclosed s.pageN lo) : ∀ i ∈ mergeLookups fuel top k s, i < s.pageN := by
  induction fuel generalizing s tile top k with
  | zero => simp [mergeLookups]
  | succ fuel ih =>
      by_cases room : k < maxBuddyOrder
      · have inside : buddyIndex s top < s.pageN := by
          have positive := Nat.two_pow_pos k
          rw [buddyIndex, order, Nat.shiftLeft_eq, Nat.one_mul]
          exact enclosed_buddy s.pageN lo top k enclosed room (held.rep.tiles.aligned top _ held.head)
            (managed top (held.rep.tiles.inside top _ held.head top (Nat.le_refl _) (by simp only; omega)))
            (rep_head_in_map s region tile held.rep top _ held.head)
        rw [mergeLookups, if_pos room]
        by_cases merge : (s.pageMap (buddyIndex s top)).flags = .free ∧ (s.pageMap (buddyIndex s top)).order = k
        · obtain ⟨lower, halves, test⟩ := buddy_test_iff s region tile top k held order
          obtain ⟨middle, heldMiddle, -⟩ :=
            merge_step_held s region tile lower top (buddyIndex s top) k held halves room (test.mp merge)
          have counters := merge_step_counters top (buddyIndex s top) k s
          have stepEq := merge_step_eq (s := s) lower top (buddyIndex s top) k halves
          have first : (mergeStep top (buddyIndex s top) k s).1 = lower := by rw [stepEq]
          have orderMiddle : ((mergeStep top (buddyIndex s top) k s).2.pageMap lower).order = k + 1 := by
            rw [stepEq, (set_flags_page _ _ lower _).2, (set_head_page _ _ _ lower _).2, if_pos rfl]
          have rest := ih _ middle lower (k + 1) heldMiddle orderMiddle (counters.1 ▸ enclosed)
          simp only [if_pos merge, first, List.mem_cons]
          rintro i (rfl | member)
          · exact inside
          · exact counters.1 ▸ rest i member
        · simp only [if_neg merge, List.mem_singleton]
          rintro i rfl
          exact inside
      · rw [mergeLookups, if_neg room]
        simp

theorem owned_in_range (sys : Config) (region : Nat → Prop) (tile : TileMap Kind) (total lo : Nat)
    (owned : Owned sys region tile total) (managed : ∀ p, region p → lo ≤ p) (enclosed : Enclosed sys.state.pageN lo) :
    InRange sys := by
  constructor
  · intro addr k live
    obtain ⟨index, rfl, used⟩ := (owned.used addr k).mp live
    have order := (rep_head_page sys.state region tile owned.inv.rep index k .used (by decide) used).2.2
    rw [buddyLookups, real_page_index, order]
    exact merge_lookups_in_range maxBuddyOrder _ region _ index k lo
      (release_held sys.state region tile total index k owned.inv used) order managed enclosed
  · intro k small
    obtain ⟨nodes, list, members⟩ := owned.inv.rep.lists k small
    refine ⟨nodes, list, ?_⟩
    intro h member
    exact rep_head_in_map sys.state region tile owned.inv.rep h _ ((members h).mp member)

theorem bump_pages_placement (m : Nat) (bump : Bump) :
    ((fun b => (bumpAlloc 1 b).2)^[m] bump).placementAddr = (bump.placementAddr + 0x1000 * m) % 2 ^ 32 := by
  induction m generalizing bump with
  | zero => exact (Nat.mod_eq_of_lt bump.bounded).symm
  | succ m ih =>
      rw [iterate_succ_apply, ih, bumpAlloc]
      simp only
      omega

theorem aligned_total (memoryMap : MemoryMap) (aligned : PageAligned memoryMap) :
    totalSize memoryMap = 0x1000 * pageCount memoryMap ∧ pageCount memoryMap ≤ 2 ^ 18 := by
  obtain ⟨addr, size, low⟩ := aligned
  rw [pageCount, totalSize, Nat.shiftRight_eq_div_pow]
  omega

theorem make_pages_placement (memoryMap : MemoryMap) (slack : Nat → Page) (bump : Bump)
    (aligned : PageAligned memoryMap) :
    getPlacementAddr (makePages memoryMap slack bump).2 = 0x1000 * firstPage memoryMap bump := by
  have small := (aligned_total memoryMap aligned).2
  have placed := bump.aligned
  rw [getPlacementAddr, makePages, bump_pages_placement, bumpAlloc, firstPage]
  simp only [sizeofPage, Nat.shiftRight_eq_div_pow, Word.sub]
  have needed : (pageCount memoryMap * 12 % 2 ^ 32 + (0x1000 - 1)) % 2 ^ 32 / 2 ^ 12 =
      (pageCount memoryMap * 12 + 0xFFF) / 0x1000 := by
    omega
  have few : (pageCount memoryMap * 12 + 0xFFF) / 0x1000 ≤ 2 ^ 10 := by omega
  rw [needed]
  generalize (pageCount memoryMap * 12 + 0xFFF) / 0x1000 = pages at few
  omega

theorem last_is_lower (q k : Nat) (whole : 2 ^ k ∣ q + 2 ^ k) (half : ¬ 2 ^ (k + 1) ∣ q + 2 ^ k) : 2 ^ (k + 1) ∣ q := by
  rcases Word.half_of_parent q k ((Nat.dvd_add_left (Nat.dvd_refl _)).mp whole) with isLower | ⟨lower, aligned, rfl⟩
  · exact isLower
  · refine absurd ?_ half
    rw [Nat.add_assoc, ← Nat.two_mul, ← Nat.pow_succ']
    exact (Nat.dvd_add_left (Nat.dvd_refl _)).mpr aligned

-- The greedy placing never runs past the start of the last block, because that
-- start is a multiple of twice the block's size.
theorem placed_before_last (p q i k : Nat) (before : p < q) (last : 2 ^ (k + 1) ∣ q) (aligned : 2 ^ i ∣ p)
    (fits : p + 2 ^ i ≤ q + 2 ^ k) : p + 2 ^ i ≤ q := by
  have positive := Nat.two_pow_pos k
  rcases Nat.lt_or_ge (k + 1) i with large | small
  · have coarse : 2 ^ (k + 1) ∣ p + 2 ^ i :=
      (Nat.dvd_add_right ((Nat.pow_dvd_pow 2 (by omega)).trans aligned)).mpr (Nat.pow_dvd_pow 2 (by omega))
    by_contra past
    have gap := Nat.le_of_dvd (by omega) (Nat.dvd_sub coarse last)
    have double : 2 ^ (k + 1) = 2 * 2 ^ k := by rw [pow_succ]; ring
    omega
  · have fine : 2 ^ i ∣ q := (Nat.pow_dvd_pow 2 small).trans last
    have gap := Nat.le_of_dvd (by omega) (Nat.dvd_sub fine aligned)
    omega

theorem add_loop_done (stop fuel : Nat) (s : State) : addLoop stop fuel stop s = s := by
  cases fuel with
  | zero => rfl
  | succ fuel => rw [addLoop, if_neg (Nat.lt_irrefl stop)]

theorem add_loop_last (fuel : Nat) (s : State) (n p k : Nat) (low : n ≤ 2 ^ 18) (small : k ≤ maxBuddyOrder)
    (whole : 2 ^ k ∣ n) (half : ¬ 2 ^ (k + 1) ∣ n) (before : p + 2 ^ k ≤ n) (enough : n < p + fuel) :
    (addLoop (0x1000 * n) fuel (0x1000 * p) s).freeArea k = some (n - 2 ^ k) := by
  have positive := Nat.two_pow_pos k
  induction fuel generalizing s p with
  | zero => omega
  | succ fuel ih =>
      have start : realPageIndex (0x1000 * p) = p := real_page_index p
      have spec := fit_order_spec (0x1000 * p) (0x1000 * n) maxBuddyOrder (Nat.le_refl _) (by omega)
      rw [addLoop, if_pos (by omega)]
      cases found : fitOrder (0x1000 * p) (0x1000 * n) maxBuddyOrder with
      | none => exact absurd ((page_fits p _ 0).mpr ⟨one_dvd _, by omega⟩) (spec.2 found)
      | some i =>
          obtain ⟨smallI, fits, maximal⟩ := spec.1 i found
          obtain ⟨alignedI, endI⟩ := (page_fits p _ i).mp fits
          have next : (0x1000 * p + (baseSize <<< i)) % 2 ^ 32 = 0x1000 * (p + 2 ^ i) := by
            rw [baseSize, Nat.shiftLeft_eq, Nat.shiftLeft_eq, Nat.one_mul, show 2 ^ 12 = 0x1000 by rfl, ← Nat.mul_add]
            exact Nat.mod_eq_of_lt (by omega)
          simp only [start, next]
          by_cases atLast : p + 2 ^ k = n
          · -- The block itself fits and nothing larger does, so it is placed and the loop ends.
            have fitsK : Fits (0x1000 * p) (0x1000 * n) k :=
              (page_fits p _ k).mpr ⟨(Nat.dvd_add_left (Nat.dvd_refl _)).mp (atLast ▸ whole), by omega⟩
            have sameOrder : i = k := by
              rcases Nat.lt_trichotomy i k with below | same | above
              · exact absurd fitsK (maximal k below small)
              · exact same
              · have larger := Nat.pow_lt_pow_right (by decide : 1 < 2) above
                omega
            subst sameOrder
            rw [atLast, add_loop_done, placeBlock, (by omega : n - 2 ^ i = p)]
            exact push_node_load (free_area_apart i) _ p
          · obtain ⟨q, rfl⟩ : ∃ q, n = q + 2 ^ k := ⟨n - 2 ^ k, by omega⟩
            have stops := placed_before_last p q i k (by omega) (last_is_lower q k whole half) alignedI (by omega)
            have size := Nat.two_pow_pos i
            exact ih _ (p + 2 ^ i) (by omega) (by omega)

theorem head_lookup (s : State) (k top : Nat) (small : k < maxBuddyOrder) (head : s.freeArea k = some top) :
    ∃ s', buddyAllocPages k s = .ok (pageMapReal top, s') ∧ s'.pageN = s.pageN ∧
      top ^^^ 2 ^ k ∈ buddyLookups (pageMapReal top) s' := by
  have found : searchOrder s (maxBuddyOrder + 1) k = k := by
    rw [searchOrder, head]
    rfl
  refine ⟨_, by rw [buddyAllocPages, found, if_neg (by omega), pop_eq_remove s k top head, Nat.sub_self], ?_, ?_⟩
  · exact (remove_page s k top top).2.2
  · simp only [splitLoop, buddyLookups, real_page_index, (set_head_page _ _ _ top _).2, if_true]
    rw [show maxBuddyOrder = 9 + 1 by rfl, mergeLookups, if_pos small]
    simp only [buddyIndex, (set_head_page _ _ _ top _).2, if_true, Nat.shiftLeft_eq, Nat.one_mul]
    split
    · exact List.mem_cons_self
    · exact List.mem_singleton_self _

section Map

variable (memoryMap : MemoryMap) (slack : Nat → Page) (bump : Bump) (aligned : PageAligned memoryMap)

include aligned

theorem add_pages_eq :
    (boot memoryMap slack bump).state = addLoop (0x1000 * pageCount memoryMap) (pageCount memoryMap + 1)
    (0x1000 * firstPage memoryMap bump) (makePages memoryMap slack bump).1 := by
  rw [boot, (init_buddy_eq memoryMap slack bump).1, addPages, make_pages_placement memoryMap slack bump aligned,
    (aligned_total memoryMap aligned).1, Nat.mul_div_cancel_left _ (by decide)]

theorem exposed_not_in_range (exposed : ¬ Enclosed (pageCount memoryMap) (firstPage memoryMap bump)) :
    ∃ sys, ReflTransGen Step (boot memoryMap slack bump) sys ∧ ¬ InRange sys := by
  simp only [Enclosed, not_forall, Nat.not_lt] at exposed
  obtain ⟨k, room, whole, half, managed⟩ := exposed
  have start := add_pages_eq memoryMap slack bump aligned
  have head := add_loop_last (pageCount memoryMap + 1) (makePages memoryMap slack bump).1 (pageCount memoryMap)
    (firstPage memoryMap bump) k (aligned_total memoryMap aligned).2 (Nat.le_of_lt room) whole half managed (by omega)
  rw [← start] at head
  obtain ⟨s', done, sameN, lookup⟩ := head_lookup _ k _ room head
  refine ⟨⟨s', [(_, k)]⟩, boot_alloc memoryMap slack bump k _ s' (Nat.le_of_lt room) done, ?_⟩
  intro inRange
  obtain ⟨q, last⟩ : ∃ q, pageCount memoryMap = q + 2 ^ k := ⟨pageCount memoryMap - 2 ^ k, by omega⟩
  have inside := inRange.lookups _ k (List.mem_singleton_self _) _ lookup
  have count : s'.pageN = pageCount memoryMap := sameN.trans (init_buddy_count memoryMap slack bump)
  rw [last] at whole half
  rw [count, last, Nat.add_sub_cancel, Word.xor_two_pow_lower q k (last_is_lower q k whole half)] at inside
  exact Nat.lt_irrefl _ inside

theorem odd_unmanaged (odd : ¬ 2 ∣ pageCount memoryMap)
    (enclosed : Enclosed (pageCount memoryMap) (firstPage memoryMap bump)) :
    (boot memoryMap slack bump).state = (makePages memoryMap slack bump).1 := by
  have last := enclosed 0 (by decide) (one_dvd _) odd
  rw [add_pages_eq memoryMap slack bump aligned, addLoop, if_neg (by omega)]

end Map

theorem empty_lists_alloc (s : State) (order : Nat) (empty : ∀ k, s.freeArea k = none) :
    buddyAllocPages order s = .error "PMM Out of memory" := by
  have search := (search_order_spec s (maxBuddyOrder + 1) order (by omega)).2
  rw [buddyAllocPages, if_pos]
  by_contra found
  exact search (by omega) (empty _)

theorem empty_run (s : State) (sys : Config) (empty : ∀ k, s.freeArea k = none) (run : ReflTransGen Step ⟨s, []⟩ sys) :
    sys = ⟨s, []⟩ := by
  have stuck (sys : Config) (step : Step ⟨s, []⟩ sys) : False := by
    generalize start : (⟨s, []⟩ : Config) = before at step
    cases step with
    | alloc s₁ s₂ live order addr small done =>
        cases start
        rw [empty_lists_alloc s order empty] at done
        cases done
    | free s₁ front back addr order =>
        have noLive := congrArg (fun c => c.live.length) start
        simp at noLive
  rcases run.cases_head with same | ⟨next, step, -⟩
  · exact same.symm
  · exact (stuck next step).elim

theorem empty_in_range (s : State) (empty : ∀ k, s.freeArea k = none) : InRange ⟨s, []⟩ where
  lookups := by simp
  blocks k _ := ⟨[], ⟨is_dll_nil _ _, empty k⟩, by simp⟩

theorem buddy_in_range (memoryMap : MemoryMap) (slack : Nat → Page) (bump : Bump) (aligned : PageAligned memoryMap)
    (zeroed : ∀ i, pageCount memoryMap ≤ i → slack i = zeroPage) :
    (∀ sys, ReflTransGen Step (boot memoryMap slack bump) sys → InRange sys) ↔
      Enclosed (pageCount memoryMap) (firstPage memoryMap bump) := by
  constructor
  · intro inRange
    by_contra exposed
    obtain ⟨sys, run, outside⟩ := exposed_not_in_range memoryMap slack bump aligned exposed
    exact outside (inRange sys run)
  · intro enclosed sys run
    by_cases even : 2 ∣ pageCount memoryMap
    · obtain ⟨tile, total, owned⟩ := boot_owned memoryMap slack bump ⟨aligned.low, even, zeroed _ (Nat.le_refl _)⟩
      obtain ⟨tile', owned', sameN⟩ := run_owned _ sys _ tile total owned run
      have count : sys.state.pageN = pageCount memoryMap := sameN.trans (init_buddy_count memoryMap slack bump)
      refine owned_in_range sys _ tile' total (firstPage memoryMap bump) owned' ?_ (count ▸ enclosed)
      rintro p ⟨start, -⟩
      rw [(init_buddy_eq memoryMap slack bump).2, make_pages_placement memoryMap slack bump aligned] at start
      omega
    · have start := odd_unmanaged memoryMap slack bump aligned even enclosed
      have empty (k : Nat) : (boot memoryMap slack bump).state.freeArea k = none := by
        rw [start]
        rfl
      rw [empty_run _ sys empty run]
      exact empty_in_range _ empty

-- With 1024 pages the whole map is one parent of the largest order.
def wholeMap : MemoryMap := fun i => if i = 3 then ⟨0, 0x400000⟩ else ⟨0, 0⟩

theorem buddy_in_range_whole :
    PageAligned wholeMap ∧
      ∀ sys, ReflTransGen Step (boot wholeMap (fun _ => zeroPage) smallBump) sys → InRange sys := by
  have aligned : PageAligned wholeMap := ⟨by decide, by decide, by decide⟩
  refine ⟨aligned, (buddy_in_range wholeMap _ smallBump aligned (fun _ _ => rfl)).mpr ?_⟩
  intro k room
  revert k
  decide

-- Seven pages, of which the last is free on its own.
def oddMap : MemoryMap := fun i => if i = 3 then ⟨0, 0x7000⟩ else ⟨0, 0⟩

def freedLookups (order : Nat) (s : State) : Option (Nat × List Nat × Option Nat) :=
  match buddyAllocPages order s with
  | .ok (addr, s') => some (addr, buddyLookups addr s', (buddyFreePages addr s').freeArea 2)
  | .error _ => none

theorem buddy_past_end :
    PageAligned oddMap ∧ pageCount oddMap = 7 ∧
      freedLookups 0 (boot oddMap (fun _ => zeroPage) smallBump).state = some (0x6000, [7, 4, 0], some 4) ∧
      ¬ ∀ sys, ReflTransGen Step (boot oddMap (fun _ => zeroPage) smallBump) sys → InRange sys := by
  have aligned : PageAligned oddMap := ⟨by decide, by decide, by decide⟩
  refine ⟨aligned, by decide, by decide +kernel, ?_⟩
  intro inRange
  obtain ⟨sys, run, outside⟩ := exposed_not_in_range oddMap (fun _ => zeroPage) smallBump aligned (by
    intro enclosed
    exact absurd (enclosed 0 (by decide) (by decide) (by decide)) (by decide))
  exact outside (inRange sys run)

end X86OS.Buddy
