import X86OS.Mm.BuddyLoops

set_option autoImplicit false

namespace X86OS.Buddy

open Function Dll Tiling

-- The state between two calls: no block in hand, free blocks coalesced, and both
-- counters equal to the pages of the blocks they count.
structure Inv (s : State) (region : Nat → Prop) (tile : TileMap Kind) (total : Nat) : Prop where
  rep : Rep s region tile
  quiet : ∀ i k, tile i ≠ some ⟨k, .hand⟩
  coalesced : Coalesced maxBuddyOrder .free tile
  freeCount : s.freePagesCount = pagesOf s.pageN .free tile
  usedCount : s.usedPagesCount = pagesOf s.pageN .used tile
  sum : pagesOf s.pageN .free tile + pagesOf s.pageN .used tile = total
  small : total < 2 ^ 32

theorem search_order_spec (s : State) (fuel cur : Nat) (enough : maxBuddyOrder + 1 ≤ cur + fuel) :
    cur ≤ searchOrder s fuel cur ∧
      (searchOrder s fuel cur ≤ maxBuddyOrder → s.freeArea (searchOrder s fuel cur) ≠ none) := by
  induction fuel generalizing cur with
  | zero =>
      refine ⟨Nat.le_refl cur, ?_⟩
      intro small
      simp only [searchOrder] at small
      omega
  | succ fuel ih =>
      rw [searchOrder]
      by_cases empty : (s.freeArea cur).isNone && decide (cur ≤ maxBuddyOrder)
      · rw [if_pos empty]
        obtain ⟨low, found⟩ := ih (cur + 1) (by omega)
        exact ⟨by omega, found⟩
      · rw [if_neg empty]
        refine ⟨Nat.le_refl cur, ?_⟩
        intro small none
        simp [none, small] at empty

theorem free_area_head (s : State) (region : Nat → Prop) (tile : TileMap Kind) (rep : Rep s region tile) (k top : Nat)
    (small : k ≤ maxBuddyOrder) (head : s.freeArea k = some top) : tile top = some ⟨k, .free⟩ := by
  obtain ⟨nodes, ⟨-, headEq⟩, members⟩ := rep.lists k small
  rw [head] at headEq
  exact (members top).mp (List.mem_of_mem_head? headEq.symm)

theorem take_free_block (s : State) (region : Nat → Prop) (tile : TileMap Kind) (total : Nat)
    (inv : Inv s region tile total) (k top : Nat) (isFree : tile top = some ⟨k, .free⟩) :
    Held (removeNode links (freeAreaRef k) top s) region (update tile top (some ⟨k, .hand⟩)) top k ∧
      SameUsed tile (update tile top (some ⟨k, .hand⟩)) ∧
      pagesOf s.pageN .free (update tile top (some ⟨k, .hand⟩)) + 2 ^ k = pagesOf s.pageN .free tile ∧
      pagesOf s.pageN .used (update tile top (some ⟨k, .hand⟩)) = pagesOf s.pageN .used tile := by
  refine ⟨⟨rep_remove inv.rep top k isFree, update_self .., ?_,
    coalesced_update _ _ _ _ _ _ (by decide) inv.coalesced⟩, ?_, ?_, ?_⟩
  · intro i k' hand
    by_contra other
    rw [update_of_ne other] at hand
    exact inv.quiet i k' hand
  · intro i j
    constructor
    · exact other_kind_of_update tile top i k j _ _ (by decide)
    · intro used
      rw [update_of_ne (by rintro rfl; rw [isFree] at used; cases used)]
      exact used
  · have change := pages_change s region tile inv.rep top _ (some ⟨k, .hand⟩) .free isFree
    simpa only [weight, if_true, reduceCtorEq, if_false, Nat.add_zero] using change
  · have change := pages_change s region tile inv.rep top _ (some ⟨k, .hand⟩) .used isFree
    simpa only [weight, reduceCtorEq, if_false, Nat.add_zero] using change

theorem rep_counters (s : State) (region : Nat → Prop) (tile : TileMap Kind) (rep : Rep s region tile)
    (free used : Nat) :
    Rep { s with freePagesCount := free, usedPagesCount := used } region tile :=
  ⟨rep.tiles, rep.inMap, rep.pages, rep.slack, rep.even, rep.lists⟩

theorem hand_out (s : State) (region : Nat → Prop) (tile : TileMap Kind) (top k total : Nat)
    (held : Held s region tile top k) (freeCount : s.freePagesCount = pagesOf s.pageN .free tile + 2 ^ k)
    (usedCount : s.usedPagesCount = pagesOf s.pageN .used tile)
    (sum : pagesOf s.pageN .free tile + 2 ^ k + pagesOf s.pageN .used tile = total) (small : total < 2 ^ 32) :
    Inv { s.setHead top k .used with
            usedPagesCount := Word.add s.usedPagesCount (1 <<< k),
            freePagesCount := Word.sub s.freePagesCount (1 <<< k) }
      region (update tile top (some ⟨k, .used⟩)) total := by
  have free := pages_change s region tile held.rep top _ (some ⟨k, .used⟩) .free held.head
  have used := pages_change s region tile held.rep top _ (some ⟨k, .used⟩) .used held.head
  simp only [weight, if_true, reduceCtorEq, if_false, Nat.add_zero] at free used
  refine ⟨rep_counters _ region _ (rep_take held.rep top k held.head) _ _, ?_,
    coalesced_update _ _ _ _ _ _ (by decide) held.coalesced, ?_, ?_, ?_, small⟩
  · intro i k' hand
    have isTop := held.only i k' (other_kind_of_update tile top i k k' _ _ (by decide) hand)
    rw [isTop, update_self] at hand
    cases hand
  · simp only [Nat.shiftLeft_eq, Nat.one_mul]
    rw [Word.sub_exact _ _ (by omega) (by omega), freeCount, Nat.add_sub_cancel]
    exact free.symm
  · simp only [Nat.shiftLeft_eq, Nat.one_mul]
    rw [Word.add_exact _ _ (by omega), usedCount]
    exact used.symm
  · change pagesOf s.pageN Kind.free _ + pagesOf s.pageN Kind.used _ = total
    omega

theorem buddy_alloc_spec (s s' : State) (region : Nat → Prop) (tile : TileMap Kind) (total order addr : Nat)
    (inv : Inv s region tile total) (done : buddyAllocPages order s = .ok (addr, s')) :
    ∃ top tile', addr = pageMapReal top ∧ Inv s' region tile' total ∧ s'.pageN = s.pageN ∧
      tile' top = some ⟨order, .used⟩ ∧
      (∀ i k, tile' i = some ⟨k, .used⟩ ↔ (i = top ∧ k = order) ∨ tile i = some ⟨k, .used⟩) ∧
      (∀ p, top ≤ p → p < top + 2 ^ order → Covers .free tile p) := by
  simp only [buddyAllocPages] at done
  have search := search_order_spec s (maxBuddyOrder + 1) order (by omega)
  generalize searchOrder s (maxBuddyOrder + 1) order = cur at search done
  by_cases outOfMemory : cur > maxBuddyOrder
  · rw [if_pos outOfMemory] at done
    cases done
  · rw [if_neg outOfMemory] at done
    obtain ⟨low, found⟩ := search
    have smallCur : cur ≤ maxBuddyOrder := by omega
    obtain ⟨top, headTop⟩ : ∃ top, s.freeArea cur = some top := Option.ne_none_iff_exists'.mp (found smallCur)
    have isFree := free_area_head s region tile inv.rep cur top smallCur headTop
    rw [pop_eq_remove s cur top headTop] at done
    simp only [Except.ok.injEq, Prod.mk.injEq] at done
    obtain ⟨addrEq, stateEq⟩ := done
    obtain ⟨held, sameFirst, freeFirst, usedFirst⟩ := take_free_block s region tile total inv cur top isFree
    have countersFirst := same_counters_of_contents _ _ (contents_remove cur top s)
    have orderEq : order + (cur - order) = cur := by omega
    obtain ⟨tile', heldEnd, sameEnd, counters, freeEnd, usedEnd⟩ := split_loop_held (cur - order)
      (removeNode links (freeAreaRef cur) top s) region _ top order (by rw [orderEq]; exact held)
    rw [orderEq] at freeEnd
    rw [countersFirst.1] at freeEnd usedEnd
    have sameN : (splitLoop top order (cur - order) (removeNode links (freeAreaRef cur) top s)).pageN = s.pageN :=
      counters.1.trans countersFirst.1
    have final := hand_out _ region tile' top order total heldEnd
      (by rw [counters.2.1, countersFirst.2.1, inv.freeCount, sameN]; omega)
      (by rw [counters.2.2, countersFirst.2.2, inv.usedCount, sameN]; omega)
      (by have := inv.sum; rw [sameN]; omega) inv.small
    refine ⟨top, _, addrEq.symm, stateEq ▸ final, ?_, update_self .., ?_, ?_⟩
    · rw [← stateEq]
      exact sameN
    · intro i k
      by_cases same : i = top
      · subst same
        rw [update_self, isFree]
        simp [eq_comm]
      · rw [update_of_ne same, sameEnd i k, sameFirst i k]
        simp [same]
    · intro p lowP highP
      have sizes := Nat.pow_le_pow_right (n := 2) (by decide) low
      exact ⟨top, cur, isFree, lowP, by omega⟩

theorem alloc_order_small (s s' : State) (order addr : Nat) (done : buddyAllocPages order s = .ok (addr, s')) :
    order ≤ maxBuddyOrder := by
  have search := (search_order_spec s (maxBuddyOrder + 1) order (by omega)).1
  by_contra large
  rw [buddyAllocPages, if_pos (by omega)] at done
  cases done

theorem real_page_index (index : Nat) : realPageIndex (pageMapReal index) = index := by
  simp only [realPageIndex, pageMapReal, baseShift, Nat.shiftRight_eq_div_pow]
  omega

theorem release_held (s : State) (region : Nat → Prop) (tile : TileMap Kind) (total index k : Nat)
    (inv : Inv s region tile total) (used : tile index = some ⟨k, .used⟩) :
    Held { s with
            usedPagesCount := Word.sub s.usedPagesCount (1 <<< k),
            freePagesCount := Word.add s.freePagesCount (1 <<< k) }
      region (update tile index (some ⟨k, .hand⟩)) index k := by
  refine ⟨rep_counters s region _ (rep_release inv.rep index k used) _ _, update_self .., ?_,
    coalesced_update _ _ _ _ _ _ (by decide) inv.coalesced⟩
  intro i k' hand
  by_contra other
  rw [update_of_ne other] at hand
  exact inv.quiet i k' hand

theorem buddy_free_spec (s : State) (region : Nat → Prop) (tile : TileMap Kind) (total index k : Nat)
    (inv : Inv s region tile total) (used : tile index = some ⟨k, .used⟩) :
    ∃ tile', Inv (buddyFreePages (pageMapReal index) s) region tile' total ∧
      (buddyFreePages (pageMapReal index) s).pageN = s.pageN ∧
      (∀ i j, tile' i = some ⟨j, .used⟩ ↔ i ≠ index ∧ tile i = some ⟨j, .used⟩) := by
  have pageIndex := real_page_index index
  have order : (s.pageMap index).order = k := (rep_head_page s region tile inv.rep index k .used (by decide) used).2.2
  have freeChange := pages_change s region tile inv.rep index _ (some ⟨k, .hand⟩) .free used
  have usedChange := pages_change s region tile inv.rep index _ (some ⟨k, .hand⟩) .used used
  simp only [weight, if_true, reduceCtorEq, if_false, Nat.add_zero] at freeChange usedChange
  have start := release_held s region tile total index k inv used
  obtain ⟨top', k', s', tile', loopEq, held, same, counters, done, freeEnd, usedEnd⟩ :=
    merge_loop_held maxBuddyOrder _ region _ index k start order (by omega)
  have stateEq : buddyFreePages (pageMapReal index) s =
      pushNode links (freeAreaRef k') top' (s'.setHead top' k' .free) := by
    simp only [buddyFreePages, pageIndex, order, loopEq]
  have countersPush := same_counters_of_contents _ _ (contents_push k' top' (s'.setHead top' k' .free))
  have sameN : s'.pageN = s.pageN := counters.1
  have freeGive := pages_change s' region tile' held.rep top' _ (some ⟨k', .free⟩) .free held.head
  have usedGive := pages_change s' region tile' held.rep top' _ (some ⟨k', .free⟩) .used held.head
  simp only [weight, if_true, reduceCtorEq, if_false, Nat.add_zero] at freeGive usedGive
  rw [sameN] at freeGive usedGive
  simp only at freeEnd usedEnd
  have sum := inv.sum
  have small := inv.small
  rw [stateEq]
  refine ⟨update tile' top' (some ⟨k', .free⟩),
    ⟨rep_give held.rep top' k' held.head, ?_, ?_, ?_, ?_, ?_, small⟩, ?_, ?_⟩
  · intro i j hand
    have isTop := held.only i j (other_kind_of_update tile' top' i k' j _ _ (by decide) hand)
    rw [isTop, update_self] at hand
    cases hand
  · -- Only the block just given back is new, and the loop stopped because its buddy is not free.
    intro a j room aligned lower upper
    have positive := Nat.two_pow_pos j
    by_cases isLower : a = top'
    · subst isLower
      rw [update_self] at lower
      obtain rfl : k' = j := congrArg Block.order (Option.some.inj lower)
      rw [update_of_ne (by omega)] at upper
      exact done room a _ ⟨aligned, .inl ⟨rfl, rfl⟩⟩ upper
    · rw [update_of_ne isLower] at lower
      by_cases isUpper : a + 2 ^ j = top'
      · rw [isUpper, update_self] at upper
        obtain rfl : k' = j := congrArg Block.order (Option.some.inj upper)
        exact done room a a ⟨aligned, .inr ⟨rfl, isUpper.symm⟩⟩ lower
      · rw [update_of_ne isUpper] at upper
        exact held.coalesced a j room aligned lower upper
  · rw [countersPush.2.1, countersPush.1]
    change s'.freePagesCount = pagesOf s'.pageN _ _
    rw [counters.2.1, sameN]
    simp only [Nat.shiftLeft_eq, Nat.one_mul]
    rw [Word.add_exact _ _ (by rw [inv.freeCount]; omega), inv.freeCount]
    omega
  · rw [countersPush.2.2, countersPush.1]
    change s'.usedPagesCount = pagesOf s'.pageN _ _
    rw [counters.2.2, sameN]
    simp only [Nat.shiftLeft_eq, Nat.one_mul]
    rw [Word.sub_exact _ _ (by rw [inv.usedCount]; omega) (by rw [inv.usedCount]; omega), inv.usedCount]
    omega
  · rw [countersPush.1]
    change pagesOf s'.pageN _ _ + pagesOf s'.pageN _ _ = total
    rw [sameN]
    omega
  · exact countersPush.1.trans sameN
  · intro i j
    by_cases isTop : i = top'
    · subst isTop
      rw [update_self]
      have notUsed : tile' i ≠ some ⟨j, .used⟩ := by
        rw [held.head]
        simp
      rw [Ne, same i j] at notUsed
      by_cases isIndex : i = index
      · simp [isIndex]
      · rw [update_of_ne isIndex] at notUsed
        simp [notUsed]
    · rw [update_of_ne isTop, same i j]
      by_cases isIndex : i = index
      · simp [isIndex]
      · simp [isIndex]

end X86OS.Buddy
