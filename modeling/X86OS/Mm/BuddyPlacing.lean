import X86OS.Mm.BuddyUndo
import Mathlib.Data.Set.Card

set_option autoImplicit false

namespace X86OS.Buddy

open Function Dll Tiling

-- The states agree in everything but the page count and the entries from index n on.
structure SameBelow (n : Nat) (s s' : State) : Prop where
  area : s'.freeArea = s.freeArea
  heads : ∀ k top, s.freeArea k = some top → top < n
  pages : ∀ p, p < n → s'.pageMap p = s.pageMap p
  freeCount : s'.freePagesCount = s.freePagesCount

theorem page_eq (page : Page) (next prev : Option Nat) (order : Nat) (flags : PageFlag) (sameNext : page.next = next)
    (samePrev : page.prev = prev) (sameOrder : page.order = order) (sameFlags : page.flags = flags) :
    page = ⟨next, prev, order, flags⟩ := by
  subst sameNext samePrev sameOrder sameFlags
  rfl

theorem place_block_page (idx i p : Nat) (s : State) :
    (placeBlock idx i s).pageMap p =
      { next := if p = idx then s.freeArea i else (s.pageMap p).next
        prev := if s.freeArea i = some p then some idx else if p = idx then none else (s.pageMap p).prev
        order := if p = idx then i else (s.pageMap p).order
        flags := if p = idx then .free else if idx < p ∧ p < idx + 2 ^ i then .tail else (s.pageMap p).flags } := by
  have next :=
    push_node_next links_apart (free_area_apart i) (writeBlock idx i s) idx p trivial trivial (fun _ _ => trivial)
  have prev :=
    push_node_prev links_apart (free_area_apart i) (writeBlock idx i s) idx p trivial trivial (fun _ _ => trivial)
  have page := push_page (writeBlock idx i s) i idx p
  have written := write_block_page idx i p s
  rw [(write_block_links idx i p s).1] at next
  rw [(write_block_links idx i p s).2] at prev
  rw [place_block_eq]
  exact page_eq _ _ _ _ _ next prev (page.2.1.trans written.2) (page.1.trans written.1)

theorem place_block_below (n idx i : Nat) (s s' : State) (same : SameBelow n s s') (inside : idx < n) :
    SameBelow n (placeBlock idx i s) (placeBlock idx i s') := by
  have area (t : State) : (placeBlock idx i t).freeArea = update t.freeArea i (some idx) := by
    funext k
    by_cases sameOrder : k = i
    · rw [sameOrder, update_self]
      exact push_node_load (free_area_apart i) (writeBlock idx i t) idx
    · rw [update_of_ne sameOrder]
      exact other_area_push i k idx (writeBlock idx i t) sameOrder
  have count (t : State) : (placeBlock idx i t).freePagesCount = Word.add t.freePagesCount (1 <<< i) :=
    (same_counters_of_contents _ _ (contents_push i idx (writeBlock idx i t))).2.1
  refine ⟨by rw [area, area, same.area], ?_, ?_, by rw [count, count, same.freeCount]⟩
  · intro k top head
    rw [area] at head
    by_cases sameOrder : k = i
    · rw [sameOrder, update_self] at head
      exact Option.some.inj head ▸ inside
    · rw [update_of_ne sameOrder] at head
      exact same.heads k top head
  · intro p below
    rw [place_block_page, place_block_page, same.area, same.pages p below]

theorem add_loop_below (fuel stop n cur : Nat) (s s' : State) (low : stop ≤ 2 ^ 30) (inside : stop ≤ 0x1000 * n)
    (same : SameBelow n s s') :
    SameBelow n (addLoop stop fuel (0x1000 * cur) s) (addLoop stop fuel (0x1000 * cur) s') := by
  induction fuel generalizing s s' cur with
  | zero => exact same
  | succ fuel ih =>
      by_cases more : 0x1000 * cur < stop
      · cases fit : fitOrder (0x1000 * cur) stop maxBuddyOrder with
        | none =>
            rw [addLoop, addLoop, if_pos more, if_pos more, fit]
            exact same
        | some i =>
            obtain ⟨-, round⟩ := add_loop_round stop fuel cur i s low more fit
            obtain ⟨-, round'⟩ := add_loop_round stop fuel cur i s' low more fit
            rw [round, round']
            exact ih (cur + 2 ^ i) _ _ (place_block_below n cur i s s' same (by omega))
      · rw [addLoop, addLoop, if_neg more, if_neg more]
        exact same

-- Every round moves `start` up by a page or more, so the loop ends by itself.
theorem add_loop_ends (fuel extra stop cur : Nat) (s : State) (low : stop ≤ 2 ^ 30)
    (enough : stop / 0x1000 < cur + fuel) :
    addLoop stop (fuel + extra) (0x1000 * cur) s = addLoop stop fuel (0x1000 * cur) s := by
  induction fuel generalizing s cur with
  | zero =>
      cases extra with
      | zero => rfl
      | succ extra =>
          rw [Nat.zero_add]
          exact if_neg (by omega)
  | succ fuel ih =>
      rw [Nat.add_right_comm]
      by_cases more : 0x1000 * cur < stop
      · cases fit : fitOrder (0x1000 * cur) stop maxBuddyOrder with
        | none => rw [addLoop, addLoop, if_pos more, if_pos more, fit]
        | some i =>
            have positive := Nat.two_pow_pos i
            rw [(add_loop_round stop (fuel + extra) cur i s low more fit).2,
              (add_loop_round stop fuel cur i s low more fit).2]
            exact ih (cur + 2 ^ i) _ (by omega)
      · rw [addLoop, addLoop, if_neg more, if_neg more]

-- The page map of `make_pages` with the count rounded up to twice as many entries, so
-- that nothing behind the map is ever looked at.
def padded (memoryMap : MemoryMap) (s : State) : State :=
  { s with
    pageN := 2 * pageCount memoryMap
    pageMap := fun p => if p < 2 * pageCount memoryMap then ⟨none, none, 0, .kernel⟩ else zeroPage }

theorem padded_placed (memoryMap : MemoryMap) (slack : Nat → Page) (bump : Bump) (lo : Nat) :
    Placed (padded memoryMap (makePages memoryMap slack bump).1) (fun _ => none) lo lo (totalSize memoryMap) := by
  refine ⟨?_, by simp, by simp, ?_, rfl, ?_, Nat.le_refl lo, .inl rfl⟩
  · refine rep_no_blocks _ lo (fun p inside => congrArg Page.flags (if_pos inside)) ?_ (Dvd.intro _ rfl) (fun _ => rfl)
    have slot : (padded memoryMap (makePages memoryMap slack bump).1).pageMap (2 * pageCount memoryMap) = zeroPage :=
      if_neg (Nat.lt_irrefl _)
    exact slot ▸ ⟨rfl, rfl⟩
  · simp [pagesOf, weight, makePages, padded]
  · simp [pagesOf, weight]

theorem padded_below (memoryMap : MemoryMap) (slack : Nat → Page) (bump : Bump) :
    SameBelow (pageCount memoryMap) (padded memoryMap (makePages memoryMap slack bump).1)
      (makePages memoryMap slack bump).1 where
  area := rfl
  heads := by
    intro k top found
    cases found
  pages p below := (if_pos below).trans (if_pos (by omega)).symm
  freeCount := rfl

-- A block of some list of `free_area`.
def Listed (s : State) (h k : Nat) : Prop := k ≤ maxBuddyOrder ∧ ∃ nodes, ListAt s k nodes ∧ h ∈ nodes

theorem same_below_list (n : Nat) (s s' : State) (tile : TileMap Kind) (same : SameBelow n s s')
    (lists : FreeLists s tile) (inside : ∀ i b, tile i = some b → i < n) (k : Nat) (small : k ≤ maxBuddyOrder) :
    ∃ nodes, ListAt s' k nodes ∧ ∀ i, i ∈ nodes ↔ tile i = some ⟨k, .free⟩ := by
  obtain ⟨nodes, list, members⟩ := lists k small
  refine ⟨nodes, list_kept s s' tile k nodes lists small (congrFun same.area k) ?_ list, members⟩
  intro i isFree
  have page := same.pages i (inside i _ isFree)
  exact ⟨congrArg Page.next page, congrArg Page.prev page⟩

-- What `add_pages` leaves: lists of blocks that tile the whole pages of the region.
structure TilesRam (memoryMap : MemoryMap) (bump : Bump) (s : State) : Prop where
  lists : ∀ k, k ≤ maxBuddyOrder → ∃ nodes, ListAt s k nodes
  aligned : ∀ h k, Listed s h k → 2 ^ k ∣ h
  disjoint : ∀ h k h' k', Listed s h k → Listed s h' k' → (h, k) = (h', k') ∨ h + 2 ^ k ≤ h' ∨ h' + 2 ^ k' ≤ h
  union : ∀ p, (∃ h k, Listed s h k ∧ h ≤ p ∧ p < h + 2 ^ k) ↔ Managed memoryMap bump p
  kernel : ∀ p, p < s.pageN → ¬ Managed memoryMap bump p → (s.pageMap p).flags = .kernel
  count : s.freePagesCount = Set.ncard {p | Managed memoryMap bump p}
  maximal : ∀ h k, k < maxBuddyOrder → Listed s h k → ¬ Listed s (h ^^^ 2 ^ k) k

theorem managed_count (memoryMap : MemoryMap) (bump : Bump) (lo : Nat) (start : getPlacementAddr bump = 0x1000 * lo) :
    Set.ncard {p | Managed memoryMap bump p} = totalSize memoryMap / 0x1000 - lo := by
  have pages : {p | Managed memoryMap bump p} = ↑(Finset.Ico lo (totalSize memoryMap / 0x1000)) := by
    ext p
    simp only [Set.mem_ofPred_eq, Managed, start, Finset.coe_Ico, Set.mem_Ico]
    omega
  rw [pages, Set.ncard_coe_finset, Nat.card_Ico]

-- `add_pages` ends, and its blocks tile the whole pages between the placement address
-- and the end of region 3, for every such pair of boundaries and whatever lies behind the map.
theorem add_pages_tiles (memoryMap : MemoryMap) (slack : Nat → Page) (mapBump bump : Bump)
    (before : getPlacementAddr bump < totalSize memoryMap) (low : totalSize memoryMap ≤ 2 ^ 30) :
    (∀ fuel, totalSize memoryMap / 0x1000 < fuel →
        addLoop (totalSize memoryMap) fuel (getPlacementAddr bump) (makePages memoryMap slack mapBump).1 =
          addPages memoryMap bump (makePages memoryMap slack mapBump).1) ∧
      TilesRam memoryMap bump (addPages memoryMap bump (makePages memoryMap slack mapBump).1) := by
  obtain ⟨lo, start⟩ : 0x1000 ∣ getPlacementAddr bump := bump.aligned
  have count : pageCount memoryMap = (totalSize memoryMap + 0xFFF) / 0x1000 := by
    rw [pageCount, Nat.shiftRight_eq_div_pow, Nat.mod_eq_of_lt (by omega)]
  have ends (fuel : Nat) (enough : totalSize memoryMap / 0x1000 < fuel) :
      addLoop (totalSize memoryMap) fuel (getPlacementAddr bump) (makePages memoryMap slack mapBump).1 =
        addPages memoryMap bump (makePages memoryMap slack mapBump).1 := by
    obtain ⟨extra, rfl⟩ := Nat.exists_eq_add_of_le (Nat.succ_le_of_lt enough)
    rw [addPages, start]
    exact add_loop_ends _ extra _ lo _ low (by omega)
  refine ⟨ends, ?_⟩
  obtain ⟨tile, placed⟩ :=
    add_loop_placed (totalSize memoryMap / 0x1000 + 1) _ _ lo lo _ (padded_placed memoryMap slack mapBump lo) low
    (by simp only [padded]; omega) (by omega)
  rw [Nat.max_eq_right (by omega)] at placed
  have same :=
    add_loop_below (totalSize memoryMap / 0x1000 + 1) (totalSize memoryMap) (pageCount memoryMap) lo _ _ low (by omega)
    (padded_below memoryMap slack mapBump)
  have stateEq : addPages memoryMap bump (makePages memoryMap slack mapBump).1 =
      addLoop (totalSize memoryMap) (totalSize memoryMap / 0x1000 + 1) (0x1000 * lo)
        (makePages memoryMap slack mapBump).1 := by
    rw [addPages, start]
  have sameN :
      (addPages memoryMap bump (makePages memoryMap slack mapBump).1).pageN = pageCount memoryMap := add_loop_count ..
  have paddedN : (addLoop (totalSize memoryMap) (totalSize memoryMap / 0x1000 + 1) (0x1000 * lo)
    (padded memoryMap (makePages memoryMap slack mapBump).1)).pageN = 2 * pageCount memoryMap := add_loop_count ..
  rw [← stateEq] at same
  generalize addPages memoryMap bump (makePages memoryMap slack mapBump).1 = s' at same sameN
  generalize addLoop (totalSize memoryMap) (totalSize memoryMap / 0x1000 + 1) (0x1000 * lo)
    (padded memoryMap (makePages memoryMap slack mapBump).1) = s at placed same paddedN
  have tiles := placed.rep.tiles
  have managed (p : Nat) : Managed memoryMap bump p ↔ lo ≤ p ∧ p < totalSize memoryMap / 0x1000 := by
    rw [Managed, start]
    omega
  have inMap (i : Nat) (b : Block Kind) (head : tile i = some b) : i < pageCount memoryMap := by
    have size := Nat.two_pow_pos b.order
    have := tiles.inside i b head i (Nat.le_refl i) (by omega)
    omega
  have list := same_below_list (pageCount memoryMap) s s' tile same placed.rep.lists inMap
  have listed (h k : Nat) : Listed s' h k ↔ tile h = some ⟨k, .free⟩ := by
    constructor
    · rintro ⟨small, nodes, listAt, member⟩
      obtain ⟨nodes', listAt', members⟩ := list k small
      rw [list_at_unique s' k nodes nodes' listAt listAt'] at member
      exact (members h).mp member
    · intro head
      obtain ⟨nodes, listAt, members⟩ := list k (tiles.bounded h _ head)
      exact ⟨tiles.bounded h _ head, nodes, listAt, (members h).mpr head⟩
  constructor
  · intro k small
    obtain ⟨nodes, listAt, -⟩ := list k small
    exact ⟨nodes, listAt⟩
  · intro h k inList
    exact tiles.aligned h _ ((listed h k).mp inList)
  · intro h k h' k' inList inList'
    have head := (listed h k).mp inList
    have head' := (listed h' k').mp inList'
    by_contra overlap
    simp only [not_or, Nat.not_le] at overlap
    have size := Nat.two_pow_pos k
    have size' := Nat.two_pow_pos k'
    -- Overlapping blocks share the page where the later one starts.
    obtain rfl := tiles_unique tiles h h' (max h h') _ _ head head' (by omega) (by simp only; omega) (by omega)
      (by simp only; omega)
    obtain rfl : k = k' := by simpa using head.symm.trans head'
    exact overlap.1 rfl
  · intro p
    rw [managed]
    constructor
    · rintro ⟨h, k, inList, first, last⟩
      exact tiles.inside h _ ((listed h k).mp inList) p first last
    · intro inside
      obtain ⟨h, ⟨k, kind⟩, head, first, last⟩ := tiles.cover p inside
      obtain rfl := placed.allFree h k kind head
      exact ⟨h, k, (listed h k).mpr head, first, last⟩
  · intro p inside outside
    rw [sameN] at inside
    rw [managed] at outside
    have page := placed.rep.pages p (by omega)
    have empty : tile p = none := by
      cases found : tile p with
      | none => rfl
      | some b =>
          have size := Nat.two_pow_pos b.order
          exact absurd (tiles.inside p b found p (Nat.le_refl p) (by omega)) outside
    rw [empty] at page
    rw [same.pages p inside]
    exact page.2 outside
  · rw [same.freeCount, placed.freeCount, placed.pages, managed_count memoryMap bump lo start]
  · intro h k room inList buddy
    exact coalesced_xor _ _ tile .free tiles (placed_coalesced s tile lo _ _ placed) h k room ((listed h k).mp inList)
      ((listed _ k).mp buddy)

-- Region 3 ends in the middle of the last of seven pages.
def oddEnd : MemoryMap := fun i => if i = 3 then ⟨0, 0x6800⟩ else ⟨0, 0⟩

theorem add_pages_tiles_odd :
    getPlacementAddr smallBump = 0x1000 ∧ totalSize oddEnd = 0x6800 ∧
      TilesRam oddEnd smallBump (addPages oddEnd smallBump (makePages oddEnd (fun _ => zeroPage) smallBump).1) :=
  ⟨rfl, by decide, (add_pages_tiles oddEnd _ smallBump smallBump (by decide) (by decide)).2⟩

end X86OS.Buddy
