import X86OS.Mm.BuddyInvariant

set_option autoImplicit false

namespace X86OS.Buddy

open Function Dll Tiling

theorem rep_no_blocks (s : State) (lo : Nat) (kernel : ∀ p, p < s.pageN → (s.pageMap p).flags = .kernel)
    (slack : (s.pageMap s.pageN).flags = .free ∧ (s.pageMap s.pageN).order = 0) (even : 2 ∣ s.pageN)
    (empty : ∀ k, s.freeArea k = none) : Rep s (fun p => lo ≤ p ∧ p < lo) (fun _ => none) := by
  refine ⟨⟨?_, ?_, ?_, ?_, ?_⟩, ?_, ?_, slack, even, ?_⟩
  · intro i b found
    cases found
  · intro i b found
    cases found
  · intro i b found
    cases found
  · intro i b found
    cases found
  · intro p managed
    omega
  · intro p managed
    omega
  · intro p inside
    exact ⟨fun managed => absurd managed (by omega), fun _ => kernel p inside⟩
  · intro k _
    exact ⟨[], ⟨is_dll_nil _ _, empty k⟩, by simp⟩

def writeBlock (idx i : Nat) (s : State) : State :=
  let s := { s with freePagesCount := Word.add s.freePagesCount (1 <<< i) }
  let s := s.setHead idx i .free
  { s with
    pageMap := fun p => if idx < p ∧ p < idx + 1 <<< i then { s.pageMap p with flags := .tail } else s.pageMap p }

theorem place_block_eq (idx i : Nat) (s : State) :
    placeBlock idx i s = pushNode links (freeAreaRef i) idx (writeBlock idx i s) := rfl

theorem write_block_page (idx i p : Nat) (s : State) :
    ((writeBlock idx i s).pageMap p).flags =
        (if p = idx then .free else if idx < p ∧ p < idx + 2 ^ i then .tail else (s.pageMap p).flags) ∧
      ((writeBlock idx i s).pageMap p).order = (if p = idx then i else (s.pageMap p).order) := by
  have head := set_head_page { s with freePagesCount := Word.add s.freePagesCount (1 <<< i) } idx i p .free
  simp only [writeBlock, Nat.shiftLeft_eq, Nat.one_mul] at head ⊢
  by_cases inside : idx < p ∧ p < idx + 2 ^ i
  · rw [if_pos inside, if_pos inside, if_neg (by omega)]
    exact ⟨rfl, head.2⟩
  · rw [if_neg inside, if_neg inside]
    exact head

theorem write_block_links (idx i p : Nat) (s : State) :
    links.next (writeBlock idx i s) p = links.next s p ∧ links.prev (writeBlock idx i s) p = links.prev s p := by
  have head := set_head_links { s with freePagesCount := Word.add s.freePagesCount (1 <<< i) } idx i p .free
  simp only [writeBlock, links] at head ⊢
  split <;> exact head

theorem rep_place (s : State) (region : Nat → Prop) (tile : TileMap Kind) (rep : Rep s region tile) (idx i : Nat)
    (small : i ≤ maxBuddyOrder) (aligned : 2 ^ i ∣ idx) (inside : idx + 2 ^ i ≤ s.pageN)
    (outside : ∀ p, idx ≤ p → p < idx + 2 ^ i → ¬ region p) :
    Rep (placeBlock idx i s) (fun p => region p ∨ (idx ≤ p ∧ p < idx + 2 ^ i)) (update tile idx (some ⟨i, .free⟩)) := by
  have positive := Nat.two_pow_pos i
  have vacant (p : Nat) (low : idx ≤ p) (high : p < idx + 2 ^ i) : tile p = none := by
    cases found : tile p with
    | none => rfl
    | some b =>
        have size := Nat.two_pow_pos b.order
        exact absurd (rep.tiles.inside p b found p (Nat.le_refl p) (by omega)) (outside p low high)
  have page (p : Nat) := push_page (writeBlock idx i s) i idx p
  have sameN : (placeBlock idx i s).pageN = s.pageN := (page 0).2.2
  rw [place_block_eq] at sameN ⊢
  refine ⟨tiles_extend rep.tiles idx ⟨i, .free⟩ small aligned outside, ?_, ?_, ?_, ?_, ?_⟩
  · rintro p (managed | ⟨-, high⟩)
    · rw [sameN]
      exact rep.inMap p managed
    · omega
  · intro p bound
    rw [sameN] at bound
    rw [(page p).1, (page p).2.1, (write_block_page idx i p s).1, (write_block_page idx i p s).2]
    by_cases head : p = idx
    · subst head
      rw [update_self, if_pos rfl, if_pos rfl]
      exact ⟨rfl, rfl⟩
    · rw [update_of_ne head, if_neg head, if_neg head]
      by_cases body : idx < p ∧ p < idx + 2 ^ i
      · rw [if_pos body, vacant p (by omega) body.2]
        exact ⟨fun _ => rfl, fun unmanaged => absurd (.inr ⟨by omega, body.2⟩) unmanaged⟩
      · have sameRegion : (region p ∨ (idx ≤ p ∧ p < idx + 2 ^ i)) = region p := by
          simp only [eq_iff_iff, or_iff_left_iff_imp]
          omega
        rw [if_neg body, sameRegion]
        exact rep.pages p bound
  · rw [sameN, (page _).1, (page _).2.1, (write_block_page idx i _ s).1, (write_block_page idx i _ s).2,
      if_neg (by omega), if_neg (by omega), if_neg (by omega)]
    exact rep.slack
  · rw [sameN]
    exact rep.even
  · apply free_lists_push _ tile i idx _ _ small
    · exact free_lists_congr s _ tile tile rep.lists (fun p => (write_block_links idx i p s).1)
        (fun p => (write_block_links idx i p s).2) rfl (fun _ _ => Iff.rfl)
    · intro k
      rw [vacant idx (Nat.le_refl idx) (by omega)]
      simp

-- A block of order j fits at `start`.
def Fits (start stop j : Nat) : Prop := 2 ^ (12 + j) ∣ start ∧ start + 2 ^ (12 + j) ≤ stop

theorem fit_test (start stop j : Nat) (low : start + 2 ^ (12 + j) < 2 ^ 32) :
    (isAligned start (baseSize <<< j) && (start + (baseSize <<< j)) % 2 ^ 32 ≤ stop) = true ↔ Fits start stop j := by
  have size : baseSize <<< j = 2 ^ (12 + j) := by
    rw [baseSize, Nat.shiftLeft_eq, Nat.shiftLeft_eq, Nat.one_mul, ← pow_add]
  rw [size, Nat.mod_eq_of_lt low, Bool.and_eq_true, is_aligned_iff, decide_eq_true_iff]
  exact Iff.rfl

theorem fit_order_spec (start stop n : Nat) (small : n ≤ maxBuddyOrder) (low : start < 0xFFC00000) :
    (∀ i, fitOrder start stop n = some i → i ≤ n ∧ Fits start stop i ∧ ∀ j, i < j → j ≤ n → ¬ Fits start stop j) ∧
      (fitOrder start stop n = none → ¬ Fits start stop 0) := by
  have room (j : Nat) (smallJ : j ≤ maxBuddyOrder) : start + 2 ^ (12 + j) < 2 ^ 32 := by
    have size : 2 ^ (12 + j) ≤ 2 ^ 22 :=
      Nat.pow_le_pow_right (by decide) (by simp only [maxBuddyOrder] at smallJ; omega)
    omega
  induction n with
  | zero =>
      have test := fit_test start stop 0 (room 0 small)
      simp only [Nat.shiftLeft_zero] at test
      by_cases fits : Fits start stop 0
      · rw [fitOrder, if_pos (test.mpr fits)]
        refine ⟨?_, by simp⟩
        intro i found
        cases found
        exact ⟨Nat.le_refl 0, fits, fun j above below => absurd below (by omega)⟩
      · rw [fitOrder, if_neg (fun holds => fits (test.mp holds))]
        exact ⟨by simp, fun _ => fits⟩
  | succ n ih =>
      have test := fit_test start stop (n + 1) (room (n + 1) small)
      by_cases fits : Fits start stop (n + 1)
      · rw [fitOrder, if_pos (test.mpr fits)]
        refine ⟨?_, by simp⟩
        intro i found
        cases found
        exact ⟨Nat.le_refl _, fits, fun j above below => absurd below (by omega)⟩
      · rw [fitOrder, if_neg (fun holds => fits (test.mp holds))]
        obtain ⟨found, nothing⟩ := ih (by omega)
        refine ⟨?_, nothing⟩
        intro i eq
        obtain ⟨bound, fitsI, maximal⟩ := found i eq
        refine ⟨by omega, fitsI, ?_⟩
        intro j above below
        by_cases last : j = n + 1
        · exact last ▸ fits
        · exact maximal j above (by omega)

-- The state of the placing loop: the pages from `lo` up to `cur` are tiled by free
-- blocks, each of which could not have been placed larger.
structure Placed (s : State) (tile : TileMap Kind) (lo cur stop : Nat) : Prop where
  rep : Rep s (fun p => lo ≤ p ∧ p < cur) tile
  allFree : ∀ i k kind, tile i = some ⟨k, kind⟩ → kind = .free
  grown : ∀ a k, tile a = some ⟨k, .free⟩ → k < maxBuddyOrder → ¬ Fits (0x1000 * a) stop (k + 1)
  freeCount : s.freePagesCount = pagesOf s.pageN .free tile
  usedCount : s.usedPagesCount = 0
  pages : pagesOf s.pageN .free tile = cur - lo
  started : lo ≤ cur
  ends : cur = lo ∨ 0x1000 * cur ≤ stop

theorem page_fits (p stop j : Nat) : Fits (0x1000 * p) stop j ↔ 2 ^ j ∣ p ∧ 0x1000 * (p + 2 ^ j) ≤ stop := by
  have size : 2 ^ (12 + j) = 0x1000 * 2 ^ j := by rw [pow_add]; norm_num
  rw [Fits, size, Nat.mul_dvd_mul_iff_left (by decide), Nat.mul_add]

theorem place_block_placed (s : State) (tile : TileMap Kind) (lo cur stop i : Nat) (placed : Placed s tile lo cur stop)
    (low : stop ≤ 2 ^ 30) (inMap : stop / 0x1000 ≤ s.pageN) (small : i ≤ maxBuddyOrder)
    (fits : Fits (0x1000 * cur) stop i) (maximal : ∀ j, i < j → j ≤ maxBuddyOrder → ¬ Fits (0x1000 * cur) stop j) :
    Placed (placeBlock cur i s) (update tile cur (some ⟨i, .free⟩)) lo (cur + 2 ^ i) stop := by
  have positive := Nat.two_pow_pos i
  obtain ⟨aligned, room⟩ := (page_fits cur stop i).mp fits
  have started := placed.started
  have empty : tile cur = none := by
    cases found : tile cur with
    | none => rfl
    | some b =>
        have size := Nat.two_pow_pos b.order
        have := placed.rep.tiles.inside cur b found cur (Nat.le_refl cur) (by omega)
        omega
  have counters := same_counters_of_contents _ _ (contents_push i cur (writeBlock cur i s))
  have sameN : (placeBlock cur i s).pageN = s.pageN := counters.1
  have pages := pages_update s.pageN cur Kind.free tile (some ⟨i, .free⟩) (by omega)
  rw [empty] at pages
  simp only [weight, if_true, Nat.add_zero] at pages
  have count := placed.pages
  refine ⟨?_, ?_, ?_, ?_, ?_, ?_, by omega, .inr room⟩
  · have rep := rep_place s _ tile placed.rep cur i small aligned (by omega) (by omega)
    have region :
        (fun p => lo ≤ p ∧ p < cur + 2 ^ i) = (fun p => (lo ≤ p ∧ p < cur) ∨ (cur ≤ p ∧ p < cur + 2 ^ i)) := by
      funext p
      rw [eq_iff_iff]
      omega
    rw [region]
    exact rep
  · intro a k kind found
    by_cases same : a = cur
    · rw [same, update_self] at found
      exact (congrArg Block.kind (Option.some.inj found)).symm
    · rw [update_of_ne same] at found
      exact placed.allFree a k kind found
  · intro a k found room
    by_cases same : a = cur
    · rw [same, update_self] at found
      obtain rfl : i = k := congrArg Block.order (Option.some.inj found)
      rw [same]
      exact maximal (i + 1) (by omega) (by omega)
    · rw [update_of_ne same] at found
      exact placed.grown a k found room
  · rw [sameN, pages]
    calc (placeBlock cur i s).freePagesCount = Word.add s.freePagesCount (1 <<< i) := counters.2.1
      _ = pagesOf s.pageN .free tile + 2 ^ i := by
          rw [Nat.shiftLeft_eq, Nat.one_mul, Word.add_exact _ _ (by rw [placed.freeCount]; omega), placed.freeCount]
  · exact counters.2.2.trans placed.usedCount
  · rw [sameN, pages]
    omega

theorem add_loop_round (stop fuel cur i : Nat) (s : State) (low : stop ≤ 2 ^ 30) (more : 0x1000 * cur < stop)
    (fit : fitOrder (0x1000 * cur) stop maxBuddyOrder = some i) :
    0x1000 * (cur + 2 ^ i) ≤ stop ∧
      addLoop stop (fuel + 1) (0x1000 * cur) s = addLoop stop fuel (0x1000 * (cur + 2 ^ i)) (placeBlock cur i s) := by
  obtain ⟨-, fits, -⟩ := (fit_order_spec (0x1000 * cur) stop maxBuddyOrder (Nat.le_refl _) (by omega)).1 i fit
  have room := ((page_fits cur stop i).mp fits).2
  have index : realPageIndex (0x1000 * cur) = cur := real_page_index cur
  have next : (0x1000 * cur + baseSize <<< i) % 2 ^ 32 = 0x1000 * (cur + 2 ^ i) := by
    rw [baseSize, Nat.shiftLeft_eq, Nat.shiftLeft_eq, Nat.one_mul, show 2 ^ 12 = 0x1000 by rfl, ← Nat.mul_add]
    exact Nat.mod_eq_of_lt (by omega)
  refine ⟨room, ?_⟩
  rw [addLoop, if_pos more, fit]
  simp only [index, next]

theorem add_loop_placed (fuel : Nat) (s : State) (tile : TileMap Kind) (lo cur stop : Nat)
    (placed : Placed s tile lo cur stop) (low : stop ≤ 2 ^ 30) (inMap : stop / 0x1000 ≤ s.pageN)
    (enough : stop / 0x1000 + 1 ≤ cur + fuel) :
    ∃ tile', Placed (addLoop stop fuel (0x1000 * cur) s) tile' lo (max cur (stop / 0x1000)) stop := by
  induction fuel generalizing s tile cur with
  | zero =>
      refine ⟨tile, ?_⟩
      rw [Nat.max_eq_left (by omega)]
      exact placed
  | succ fuel ih =>
      by_cases more : 0x1000 * cur < stop
      · obtain ⟨found, nothing⟩ := fit_order_spec (0x1000 * cur) stop maxBuddyOrder (Nat.le_refl _) (by omega)
        cases fit : fitOrder (0x1000 * cur) stop maxBuddyOrder with
        | none =>
            have full := nothing fit
            rw [page_fits] at full
            refine ⟨tile, ?_⟩
            rw [addLoop, if_pos more, fit, Nat.max_eq_left (by omega)]
            exact placed
        | some i =>
            obtain ⟨small, fits, maximal⟩ := found i fit
            have step := place_block_placed s tile lo cur stop i placed low inMap small fits maximal
            have sameN : (placeBlock cur i s).pageN = s.pageN :=
              (same_counters_of_contents _ _ (contents_push i cur (writeBlock cur i s))).1
            have positive := Nat.two_pow_pos i
            obtain ⟨room, round⟩ := add_loop_round stop fuel cur i s low more fit
            obtain ⟨tile', placedEnd⟩ :=
              ih (placeBlock cur i s) _ (cur + 2 ^ i) step (by rw [sameN]; exact inMap) (by omega)
            rw [Nat.max_eq_right (by omega)] at placedEnd ⊢
            rw [round]
            exact ⟨tile', placedEnd⟩
      · rw [addLoop, if_neg more]
        refine ⟨tile, ?_⟩
        rw [Nat.max_eq_left (by omega)]
        exact placed

-- Two free buddies would make the lower one a block that could have been placed larger.
theorem placed_coalesced (s : State) (tile : TileMap Kind) (lo cur stop : Nat) (placed : Placed s tile lo cur stop) :
    Coalesced maxBuddyOrder .free tile := by
  intro a k room aligned lower upper
  have positive := Nat.two_pow_pos k
  have double : 2 ^ (k + 1) = 2 * 2 ^ k := by rw [pow_succ]; ring
  have last := placed.rep.tiles.inside _ _ upper (a + 2 ^ k + 2 ^ k - 1) (by omega) (by simp only; omega)
  apply placed.grown a k lower room
  rw [page_fits]
  refine ⟨aligned, ?_⟩
  rcases placed.ends with none | bound <;> omega

-- The pages given to the allocator: whole pages from the bump placement address to
-- the end of memory region 3.
def Managed (memoryMap : MemoryMap) (bump : Bump) (p : Nat) : Prop :=
  getPlacementAddr bump ≤ 0x1000 * p ∧ 0x1000 * p + 0x1000 ≤ totalSize memoryMap

-- Region 3 ends at or below 1 GiB, the page count is even, and the slot behind the
-- page map reads as the zeros `bump_alloc` left there.
structure Bootable (memoryMap : MemoryMap) (slack : Nat → Page) : Prop where
  low : (memoryMap 3).addr + (memoryMap 3).size ≤ 2 ^ 30
  even : 2 ∣ pageCount memoryMap
  zeroSlot : slack (pageCount memoryMap) = zeroPage

theorem place_block_flags (idx i p : Nat) (s : State) (outside : p < idx ∨ idx + 2 ^ i ≤ p) :
    ((placeBlock idx i s).pageMap p).flags = (s.pageMap p).flags := by
  have positive := Nat.two_pow_pos i
  rw [place_block_eq, (push_page _ i idx p).1, (write_block_page idx i p s).1, if_neg (by omega), if_neg (by omega)]

-- Below the last 4 MiB of the address space `start` never wraps, so the loop only goes up.
theorem add_loop_pages (stop fuel start p : Nat) (s : State) (low : stop ≤ 0xFFC00000)
    (changed : ((addLoop stop fuel start s).pageMap p).flags ≠ (s.pageMap p).flags) :
    start ≤ 0x1000 * p ∧ 0x1000 * p + 0x1000 ≤ stop := by
  induction fuel generalizing start s with
  | zero => exact absurd rfl changed
  | succ fuel ih =>
      rw [addLoop] at changed
      by_cases more : start < stop
      · rw [if_pos more] at changed
        have search := fit_order_spec start stop maxBuddyOrder (Nat.le_refl _) (by omega)
        cases found : fitOrder start stop maxBuddyOrder with
        | none =>
            rw [found] at changed
            exact absurd rfl changed
        | some i =>
            rw [found] at changed
            obtain ⟨-, ⟨⟨q, aligned⟩, room⟩, -⟩ := search.1 i found
            have size : baseSize <<< i = 0x1000 * 2 ^ i := by
              rw [baseSize, Nat.shiftLeft_eq, Nat.shiftLeft_eq]
            have base : start = 0x1000 * (2 ^ i * q) := by
              rw [aligned, pow_add]
              ring
            rw [pow_add, show 2 ^ 12 = 0x1000 by rfl] at room
            simp only [size, Nat.mod_eq_of_lt (show start + 0x1000 * 2 ^ i < 2 ^ 32 by omega)] at changed
            by_cases later : ((addLoop stop fuel (start + 0x1000 * 2 ^ i)
              (placeBlock (realPageIndex start) i s)).pageMap p).flags =
                ((placeBlock (realPageIndex start) i s).pageMap p).flags
            · rw [later, base, show realPageIndex (0x1000 * (2 ^ i * q)) = 2 ^ i * q from real_page_index _] at changed
              have inside : ¬ (p < 2 ^ i * q ∨ 2 ^ i * q + 2 ^ i ≤ p) :=
                fun outside => changed (place_block_flags _ i p s outside)
              omega
            · have := ih _ _ later
              omega
      · rw [if_neg more] at changed
        exact absurd rfl changed

theorem add_pages_managed (memoryMap : MemoryMap) (bump : Bump) (s : State) (p : Nat)
    (low : totalSize memoryMap ≤ 0xFFC00000)
    (changed : ((addPages memoryMap bump s).pageMap p).flags ≠ (s.pageMap p).flags) : Managed memoryMap bump p :=
  add_loop_pages _ _ _ p s low changed

theorem make_pages_count (memoryMap : MemoryMap) (slack : Nat → Page) (bump : Bump) :
    (makePages memoryMap slack bump).1.pageN = pageCount memoryMap := rfl

theorem make_pages_placed (memoryMap : MemoryMap) (slack : Nat → Page) (bump : Bump) (boot : Bootable memoryMap slack)
    (lo : Nat) : Placed (makePages memoryMap slack bump).1 (fun _ => none) lo lo (totalSize memoryMap) := by
  have slot : (makePages memoryMap slack bump).1.pageMap (pageCount memoryMap) = zeroPage :=
    (if_neg (Nat.lt_irrefl _)).trans boot.zeroSlot
  refine ⟨?_, by simp, by simp, ?_, rfl, ?_, Nat.le_refl lo, .inl rfl⟩
  · refine rep_no_blocks _ lo (fun p inside => congrArg Page.flags (if_pos inside)) ?_ boot.even (fun _ => rfl)
    exact slot ▸ ⟨rfl, rfl⟩
  · simp [pagesOf, weight, makePages]
  · simp [pagesOf, weight]

theorem init_buddy_eq (memoryMap : MemoryMap) (slack : Nat → Page) (bump : Bump) :
    (initBuddy memoryMap slack bump).1 =
      addPages memoryMap (makePages memoryMap slack bump).2 (makePages memoryMap slack bump).1 ∧
      (initBuddy memoryMap slack bump).2 = (makePages memoryMap slack bump).2 := by
  simp only [initBuddy, and_self]

theorem add_loop_count (stop fuel start : Nat) (s : State) : (addLoop stop fuel start s).pageN = s.pageN := by
  induction fuel generalizing start s with
  | zero => rfl
  | succ fuel ih =>
      rw [addLoop]
      split
      · split
        · rw [ih]
          exact (same_counters_of_contents _ _ (contents_push _ _ (writeBlock _ _ s))).1
        · rfl
      · rfl

theorem init_buddy_count (memoryMap : MemoryMap) (slack : Nat → Page) (bump : Bump) :
    (initBuddy memoryMap slack bump).1.pageN = pageCount memoryMap := by
  rw [(init_buddy_eq memoryMap slack bump).1, addPages, add_loop_count, make_pages_count]

theorem placed_inv (s : State) (tile : TileMap Kind) (lo cur stop : Nat) (placed : Placed s tile lo cur stop)
    (low : stop ≤ 2 ^ 30) : Inv s (fun p => lo ≤ p ∧ p < cur) tile (cur - lo) := by
  have usedPages : pagesOf s.pageN .used tile = 0 := by
    apply Finset.sum_eq_zero
    intro i _
    cases found : tile i with
    | none => rfl
    | some b =>
        have free := placed.allFree i b.order b.kind found
        rw [weight, free, if_neg (by decide)]
  refine ⟨placed.rep, ?_, placed_coalesced s tile lo cur stop placed, placed.freeCount, ?_, ?_, ?_⟩
  · intro i k hand
    cases placed.allFree i k _ hand
  · rw [usedPages]
    exact placed.usedCount
  · rw [usedPages, placed.pages, Nat.add_zero]
  · rcases placed.ends with none | bound <;> omega

theorem add_pages_inv (memoryMap : MemoryMap) (bump : Bump) (s : State) (low : totalSize memoryMap ≤ 2 ^ 30)
    (inMap : totalSize memoryMap / 0x1000 ≤ s.pageN)
    (start : ∀ lo, Placed s (fun _ => none) lo lo (totalSize memoryMap)) :
    ∃ tile total, Inv (addPages memoryMap bump s) (Managed memoryMap bump) tile total ∧
      ∀ i k, tile i ≠ some ⟨k, .used⟩ := by
  obtain ⟨lo, loEq⟩ : 0x1000 ∣ getPlacementAddr bump := bump.aligned
  obtain ⟨tile, placed⟩ :=
    add_loop_placed (totalSize memoryMap / 0x1000 + 1) s _ lo lo _ (start lo) low inMap (by omega)
  have region : (fun p => lo ≤ p ∧ p < max lo (totalSize memoryMap / 0x1000)) = Managed memoryMap bump := by
    funext p
    rw [eq_iff_iff, Managed, loEq]
    omega
  have inv := placed_inv _ tile lo _ _ placed low
  rw [region, ← loEq] at inv
  refine ⟨tile, _, inv, ?_⟩
  intro i k used
  cases placed.allFree i k _ used

theorem init_buddy_inv (memoryMap : MemoryMap) (slack : Nat → Page) (bump : Bump) (boot : Bootable memoryMap slack) :
    ∃ tile total,
      Inv (initBuddy memoryMap slack bump).1 (Managed memoryMap (initBuddy memoryMap slack bump).2) tile total ∧
      ∀ i k, tile i ≠ some ⟨k, .used⟩ := by
  have low := boot.low
  have stopEq : totalSize memoryMap = (memoryMap 3).addr + (memoryMap 3).size := by
    rw [totalSize, Nat.mod_eq_of_lt (by omega)]
  have count : pageCount memoryMap = (totalSize memoryMap + 0xFFF) / 0x1000 := by
    rw [pageCount, Nat.shiftRight_eq_div_pow, Nat.mod_eq_of_lt (by omega)]
  rw [(init_buddy_eq memoryMap slack bump).1, (init_buddy_eq memoryMap slack bump).2]
  exact add_pages_inv memoryMap (makePages memoryMap slack bump).2 (makePages memoryMap slack bump).1 (by omega)
    (by rw [make_pages_count]; omega) (make_pages_placed memoryMap slack bump boot)

end X86OS.Buddy
