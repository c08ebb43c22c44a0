import X86OS.Mm.BuddySteps

set_option autoImplicit false

namespace X86OS.Buddy

open Function Dll Tiling

-- Between two list operations of a loop exactly one block is in hand.
structure Held (s : State) (region : Nat → Prop) (tile : TileMap Kind) (top k : Nat) : Prop where
  rep : Rep s region tile
  head : tile top = some ⟨k, .hand⟩
  only : ∀ i k', tile i = some ⟨k', .hand⟩ → i = top
  coalesced : Coalesced maxBuddyOrder .free tile

def SameUsed (tile tile' : TileMap Kind) : Prop := ∀ i k, tile' i = some ⟨k, .used⟩ ↔ tile i = some ⟨k, .used⟩

def SameCounters (s s' : State) : Prop :=
  s'.pageN = s.pageN ∧ s'.freePagesCount = s.freePagesCount ∧ s'.usedPagesCount = s.usedPagesCount

theorem same_counters_of_contents (s s' : State) (same : contents s' = contents s) : SameCounters s s' := by
  simp only [contents, Contents.mk.injEq] at same
  exact same.2.2

theorem pages_change (s : State) (region : Nat → Prop) (tile : TileMap Kind) (rep : Rep s region tile) (h : Nat)
    (b : Block Kind) (value : Option (Block Kind)) (kind : Kind) (head : tile h = some b) :
    pagesOf s.pageN kind (update tile h value) + weight kind (some b) =
      pagesOf s.pageN kind tile + weight kind value := by
  have bound := rep_head_in_map s region tile rep h b head
  have positive := Nat.two_pow_pos b.order
  have change := pages_update s.pageN h kind tile value (by omega)
  rwa [head] at change

theorem split_step_counters (top k : Nat) (s : State) : SameCounters s (splitStep top k s) := by
  have kept := same_counters_of_contents _ _ (contents_push k (buddyIndex (s.setHead top k .used) top)
    ((s.setHead top k .used).setHead (buddyIndex (s.setHead top k .used) top) k .free))
  simp only [splitStep]
  exact kept

theorem split_step_held (s : State) (region : Nat → Prop) (tile : TileMap Kind) (top k : Nat)
    (held : Held s region tile top (k + 1)) :
    ∃ tile', Held (splitStep top k s) region tile' top k ∧ SameUsed tile tile' ∧
      pagesOf s.pageN .free tile' = pagesOf s.pageN .free tile + 2 ^ k ∧
      pagesOf s.pageN .used tile' = pagesOf s.pageN .used tile := by
  have positive := Nat.two_pow_pos k
  have double : 2 ^ (k + 1) = 2 * 2 ^ k := by rw [pow_succ]; ring
  have rep := held.rep
  have head := held.head
  have aligned : 2 ^ (k + 1) ∣ top := rep.tiles.aligned top _ head
  have bound := rep_head_in_map s region tile rep top _ head
  simp only [double] at bound
  have empty : tile (top + 2 ^ k) = none := rep.tiles.hollow top _ head _ (by omega) (by simp only [double]; omega)
  have value (i : Nat) (b : Block Kind)
      (found : update (update tile top (some ⟨k, .hand⟩)) (top + 2 ^ k) (some ⟨k, .free⟩) i = some b) :
      (i = top + 2 ^ k ∧ b = ⟨k, .free⟩) ∨ (i = top ∧ b = ⟨k, .hand⟩) ∨ (i ≠ top ∧ tile i = some b) := by
    by_cases upper : i = top + 2 ^ k
    · subst upper
      rw [update_self] at found
      exact .inl ⟨rfl, (Option.some.inj found).symm⟩
    · rw [update_of_ne upper] at found
      by_cases lower : i = top
      · subst lower
        rw [update_self] at found
        exact .inr (.inl ⟨rfl, (Option.some.inj found).symm⟩)
      · rw [update_of_ne lower] at found
        exact .inr (.inr ⟨lower, found⟩)
  refine ⟨_, ⟨rep_split rep top k head, ?_, ?_, ?_⟩, ?_, ?_, ?_⟩
  · rw [update_of_ne (by omega), update_self]
  · intro i k' hand
    rcases value i _ hand with ⟨-, kind⟩ | ⟨same, -⟩ | ⟨-, old⟩
    · cases kind
    · exact same
    · exact held.only i k' old
  · -- The new free block has the block in hand as its buddy, so no pair of free buddies arises.
    intro a j room parentAligned lower upper
    rcases value a _ lower with ⟨rfl, kind⟩ | ⟨-, kind⟩ | ⟨other, old⟩
    · obtain rfl : j = k := congrArg Block.order kind
      have half : 2 ^ (j + 1) ∣ 2 ^ j := (Nat.dvd_add_right aligned).mp parentAligned
      have := Nat.le_of_dvd positive half
      omega
    · cases kind
    · rcases value (a + 2 ^ j) _ upper with ⟨position, kind⟩ | ⟨-, kind⟩ | ⟨-, oldUpper⟩
      · obtain rfl : j = k := congrArg Block.order kind
        exact other (by omega)
      · cases kind
      · exact held.coalesced a j room parentAligned old oldUpper
  · intro i k'
    by_cases upper : i = top + 2 ^ k
    · subst upper
      rw [update_self, empty]
      simp
    · rw [update_of_ne upper]
      by_cases lower : i = top
      · subst lower
        rw [update_self, head]
        simp
      · rw [update_of_ne lower]
  · have first := pages_change s region tile rep top _ (some ⟨k, .hand⟩) .free head
    have second :=
      pages_update s.pageN (top + 2 ^ k) Kind.free (update tile top (some ⟨k, .hand⟩)) (some ⟨k, .free⟩) (by omega)
    rw [update_of_ne (by omega), empty] at second
    simp only [weight, reduceCtorEq, if_false, if_true] at first second
    omega
  · have first := pages_change s region tile rep top _ (some ⟨k, .hand⟩) .used head
    have second :=
      pages_update s.pageN (top + 2 ^ k) Kind.used (update tile top (some ⟨k, .hand⟩)) (some ⟨k, .free⟩) (by omega)
    rw [update_of_ne (by omega), empty] at second
    simp only [weight, reduceCtorEq, if_false] at first second
    omega

theorem split_loop_held (n : Nat) (s : State) (region : Nat → Prop) (tile : TileMap Kind) (top order : Nat)
    (held : Held s region tile top (order + n)) :
    ∃ tile', Held (splitLoop top order n s) region tile' top order ∧ SameUsed tile tile' ∧
      SameCounters s (splitLoop top order n s) ∧
      pagesOf s.pageN .free tile' + 2 ^ order = pagesOf s.pageN .free tile + 2 ^ (order + n) ∧
      pagesOf s.pageN .used tile' = pagesOf s.pageN .used tile := by
  induction n generalizing s tile with
  | zero => exact ⟨tile, held, fun _ _ => Iff.rfl, ⟨rfl, rfl, rfl⟩, rfl, rfl⟩
  | succ n ih =>
      obtain ⟨middle, heldMiddle, sameMiddle, freeMiddle, usedMiddle⟩ :=
        split_step_held s region tile top (order + n) held
      have counters := split_step_counters top (order + n) s
      obtain ⟨tile', heldEnd, sameEnd, countersEnd, freeEnd, usedEnd⟩ :=
        ih (splitStep top (order + n) s) middle heldMiddle
      rw [counters.1] at freeEnd usedEnd
      refine ⟨tile', heldEnd, fun i k => (sameEnd i k).trans (sameMiddle i k), ?_, ?_, usedEnd.trans usedMiddle⟩
      · exact ⟨countersEnd.1.trans counters.1, countersEnd.2.1.trans counters.2.1, countersEnd.2.2.trans counters.2.2⟩
      · have double : 2 ^ (order + (n + 1)) = 2 * 2 ^ (order + n) := by rw [← Nat.add_assoc, pow_succ]; ring
        omega

-- The test of the merge loop finds exactly a free buddy of the same order. The
-- buddy of the last block may be the slot behind the map; its order is 0, and
-- an order-0 block has its buddy inside the map because the page count is even.
theorem buddy_test_iff (s : State) (region : Nat → Prop) (tile : TileMap Kind) (top k : Nat)
    (held : Held s region tile top k) (order : (s.pageMap top).order = k) :
    ∃ lower, Halves lower top (buddyIndex s top) k ∧
      ((s.pageMap (buddyIndex s top)).flags = .free ∧ (s.pageMap (buddyIndex s top)).order = k ↔
        tile (buddyIndex s top) = some ⟨k, .free⟩) := by
  have positive := Nat.two_pow_pos k
  have aligned : 2 ^ k ∣ top := held.rep.tiles.aligned top _ held.head
  have bound := rep_head_in_map s region tile held.rep top _ held.head
  simp only at bound
  have index : buddyIndex s top = top ^^^ 2 ^ k := by rw [buddyIndex, order, Nat.shiftLeft_eq, Nat.one_mul]
  have test (b : Nat) (other : b ≠ top) (inside : b < s.pageN) :
      (s.pageMap b).flags = .free ∧ (s.pageMap b).order = k ↔ tile b = some ⟨k, .free⟩ := by
    constructor
    · rintro ⟨flags, orderB⟩
      rw [rep_page_head s region tile held.rep b .free (by decide) inside
        (fun k' hand => other (held.only b k' hand)) flags, orderB]
    · exact fun free => (rep_head_page s region tile held.rep b k .free (by decide) free).2
  rcases Word.half_of_parent top k aligned with isLower | ⟨lower, lowerAligned, rfl⟩
  · rw [index, Word.xor_two_pow_lower top k isLower]
    refine ⟨top, ⟨isLower, .inl ⟨rfl, rfl⟩⟩, ?_⟩
    by_cases inside : top + 2 ^ k < s.pageN
    · exact test _ (by omega) inside
    · have atEnd : top + 2 ^ k = s.pageN := by omega
      constructor
      · rintro ⟨-, orderB⟩
        rw [atEnd, held.rep.slack.2] at orderB
        subst orderB
        have even := held.rep.even
        rw [← atEnd] at even
        simp only [zero_add, pow_zero, pow_one] at isLower even
        omega
      · intro free
        have := rep_head_in_map s region tile held.rep _ _ free
        simp only at this
        omega
  · rw [index, Word.xor_two_pow_upper lower k lowerAligned]
    exact ⟨lower, ⟨lowerAligned, .inr ⟨rfl, rfl⟩⟩, test lower (by omega) (by omega)⟩

theorem merge_step_counters (top buddy k : Nat) (s : State) : SameCounters s (mergeStep top buddy k s).2 := by
  have kept := same_counters_of_contents _ _ (contents_remove k buddy s)
  simp only [mergeStep]
  exact kept

theorem merge_step_held (s : State) (region : Nat → Prop) (tile : TileMap Kind) (lower top buddy k : Nat)
    (held : Held s region tile top k) (halves : Halves lower top buddy k) (room : k < maxBuddyOrder)
    (free : tile buddy = some ⟨k, .free⟩) :
    ∃ tile', Held (mergeStep top buddy k s).2 region tile' lower (k + 1) ∧ SameUsed tile tile' ∧
      pagesOf s.pageN .free tile' + 2 ^ k = pagesOf s.pageN .free tile ∧
      pagesOf s.pageN .used tile' = pagesOf s.pageN .used tile := by
  have positive := Nat.two_pow_pos k
  have rep := held.rep
  have value (i : Nat) (b : Block Kind)
      (found : update (update tile (lower + 2 ^ k) none) lower (some ⟨k + 1, .hand⟩) i = some b) :
      (i = lower ∧ b = ⟨k + 1, .hand⟩) ∨ (i ≠ lower ∧ i ≠ lower + 2 ^ k ∧ tile i = some b) := by
    by_cases isLower : i = lower
    · subst isLower
      rw [update_self] at found
      exact .inl ⟨rfl, (Option.some.inj found).symm⟩
    · rw [update_of_ne isLower] at found
      by_cases isUpper : i = lower + 2 ^ k
      · subst isUpper
        rw [update_self] at found
        cases found
      · rw [update_of_ne isUpper] at found
        exact .inr ⟨isLower, isUpper, found⟩
  obtain ⟨kindLower, kindUpper, headLower, headUpper, kinds⟩ :
      ∃ kindLower kindUpper, tile lower = some ⟨k, kindLower⟩ ∧ tile (lower + 2 ^ k) = some ⟨k, kindUpper⟩ ∧
        ((kindLower = .hand ∧ kindUpper = .free) ∨ (kindLower = .free ∧ kindUpper = .hand)) := by
    rcases halves.2 with ⟨rfl, rfl⟩ | ⟨rfl, rfl⟩
    · exact ⟨.hand, .free, held.head, free, .inl ⟨rfl, rfl⟩⟩
    · exact ⟨.free, .hand, free, held.head, .inr ⟨rfl, rfl⟩⟩
  have isTop (i : Nat) (top' : i = top) : i = lower ∨ i = lower + 2 ^ k := by
    rcases halves.2 with ⟨rfl, -⟩ | ⟨-, rfl⟩
    · exact .inl top'
    · exact .inr top'
  have pages (kind : Kind) := pages_change s region tile rep (lower + 2 ^ k) _ none kind headUpper
  have pagesLower (kind : Kind) :
      pagesOf s.pageN kind (update (update tile (lower + 2 ^ k) none) lower (some ⟨k + 1, .hand⟩)) +
      weight kind (some ⟨k, kindLower⟩) =
        pagesOf s.pageN kind (update tile (lower + 2 ^ k) none) + weight kind (some ⟨k + 1, .hand⟩) := by
    have bound := rep_head_in_map s region tile rep lower _ headLower
    have change := pages_update s.pageN lower kind (update tile (lower + 2 ^ k) none) (some ⟨k + 1, .hand⟩)
      (by simp only at bound; omega)
    rwa [update_of_ne (by omega), headLower] at change
  refine ⟨_, ⟨rep_merge rep lower top buddy k halves room held.head free, update_self .., ?_, ?_⟩, ?_, ?_, ?_⟩
  · intro i k' hand
    rcases value i _ hand with ⟨same, -⟩ | ⟨notLower, notUpper, old⟩
    · exact same
    · rcases isTop i (held.only i k' old) with same | same
      · exact absurd same notLower
      · exact absurd same notUpper
  · intro a j small parentAligned freeLower freeUpper
    rcases value a _ freeLower with ⟨-, kind⟩ | ⟨-, -, oldLower⟩
    · cases kind
    · rcases value (a + 2 ^ j) _ freeUpper with ⟨-, kind⟩ | ⟨-, -, oldUpper⟩
      · cases kind
      · exact held.coalesced a j small parentAligned oldLower oldUpper
  · intro i k'
    by_cases isLower : i = lower
    · subst isLower
      rw [update_self, headLower]
      rcases kinds with ⟨rfl, -⟩ | ⟨rfl, -⟩ <;> simp
    · rw [update_of_ne isLower]
      by_cases isUpper : i = lower + 2 ^ k
      · subst isUpper
        rw [update_self, headUpper]
        rcases kinds with ⟨-, rfl⟩ | ⟨-, rfl⟩ <;> simp
      · rw [update_of_ne isUpper]
  · have first := pages .free
    have second := pagesLower .free
    rcases kinds with ⟨rfl, rfl⟩ | ⟨rfl, rfl⟩ <;> simp only [weight, reduceCtorEq, if_false,
      if_true] at first second <;> omega
  · have first := pages .used
    have second := pagesLower .used
    rcases kinds with ⟨rfl, rfl⟩ | ⟨rfl, rfl⟩ <;> simp only [weight, reduceCtorEq, if_false] at first second <;> omega

-- The loop stops with a block whose buddy is not a free block of the same order.
def Unmergeable (tile : TileMap Kind) (top k : Nat) : Prop :=
  k < maxBuddyOrder → ∀ lower buddy, Halves lower top buddy k → tile buddy ≠ some ⟨k, .free⟩

theorem halves_unique (lower lower' top buddy buddy' k : Nat) (first : Halves lower top buddy k)
    (second : Halves lower' top buddy' k) : buddy' = buddy := by
  have positive := Nat.two_pow_pos k
  have clash (a b : Nat) (alignedA : 2 ^ (k + 1) ∣ a) (alignedB : 2 ^ (k + 1) ∣ b)
      (position : a = b + 2 ^ k) : False := by
    have half : 2 ^ (k + 1) ∣ 2 ^ k := (Nat.dvd_add_right alignedB).mp (position ▸ alignedA)
    have := Nat.le_of_dvd positive half
    have double : 2 ^ (k + 1) = 2 * 2 ^ k := by rw [pow_succ]; ring
    omega
  rcases first with ⟨aligned, ⟨rfl, rfl⟩ | ⟨rfl, rfl⟩⟩ <;> rcases second with ⟨aligned', ⟨same, rfl⟩ | ⟨rfl, same⟩⟩
  · rw [same]
  · exact (clash _ _ aligned aligned' same).elim
  · exact (clash _ _ (same ▸ aligned') aligned rfl).elim
  · omega

theorem merge_loop_held (fuel : Nat) (s : State) (region : Nat → Prop) (tile : TileMap Kind) (top k : Nat)
    (held : Held s region tile top k) (order : (s.pageMap top).order = k) (enough : maxBuddyOrder ≤ k + fuel) :
    ∃ top' k' s' tile', mergeLoop fuel top k s = (top', k', s') ∧ Held s' region tile' top' k' ∧ SameUsed tile tile' ∧
      SameCounters s s' ∧ Unmergeable tile' top' k' ∧
      pagesOf s.pageN .free tile' + 2 ^ k' = pagesOf s.pageN .free tile + 2 ^ k ∧
      pagesOf s.pageN .used tile' = pagesOf s.pageN .used tile := by
  induction fuel generalizing s tile top k with
  | zero =>
      refine ⟨top, k, s, tile, rfl, held, fun _ _ => Iff.rfl, ⟨rfl, rfl, rfl⟩, ?_, rfl, rfl⟩
      intro room
      omega
  | succ fuel ih =>
      by_cases room : k < maxBuddyOrder
      · obtain ⟨lower, halves, test⟩ := buddy_test_iff s region tile top k held order
        by_cases merge : (s.pageMap (buddyIndex s top)).flags = .free ∧ (s.pageMap (buddyIndex s top)).order = k
        · obtain ⟨middle, heldMiddle, sameMiddle, freeMiddle, usedMiddle⟩ :=
            merge_step_held s region tile lower top (buddyIndex s top) k held halves room (test.mp merge)
          have counters := merge_step_counters top (buddyIndex s top) k s
          have stepEq := merge_step_eq (s := s) lower top (buddyIndex s top) k halves
          have orderMiddle : ((mergeStep top (buddyIndex s top) k s).2.pageMap lower).order = k + 1 := by
            rw [stepEq, (set_flags_page _ _ lower _).2, (set_head_page _ _ _ lower _).2, if_pos rfl]
          obtain ⟨top', k', s', tile', loopEq, heldEnd, sameEnd, countersEnd, done, freeEnd, usedEnd⟩ :=
            ih (mergeStep top (buddyIndex s top) k s).2 middle lower (k + 1) heldMiddle orderMiddle (by omega)
          rw [counters.1] at freeEnd usedEnd
          refine ⟨top', k', s', tile', ?_, heldEnd, fun i j => (sameEnd i j).trans (sameMiddle i j), ?_, done, ?_,
            usedEnd.trans usedMiddle⟩
          · have first : (mergeStep top (buddyIndex s top) k s).1 = lower := by rw [stepEq]
            rw [mergeLoop, if_pos room]
            simp only [if_pos merge]
            rw [← first] at loopEq
            exact loopEq
          · exact ⟨countersEnd.1.trans counters.1, countersEnd.2.1.trans counters.2.1,
              countersEnd.2.2.trans counters.2.2⟩
          · have double : 2 ^ (k + 1) = 2 * 2 ^ k := by rw [pow_succ]; ring
            omega
        · refine ⟨top, k, s, tile, ?_, held, fun _ _ => Iff.rfl, ⟨rfl, rfl, rfl⟩, ?_, rfl, rfl⟩
          · rw [mergeLoop, if_pos room]
            simp only [if_neg merge]
          · intro _ lower' buddy' halves' free
            rw [halves_unique lower lower' top _ buddy' k halves halves'] at free
            exact merge (test.mpr free)
      · refine ⟨top, k, s, tile, ?_, held, fun _ _ => Iff.rfl, ⟨rfl, rfl, rfl⟩, ?_, rfl, rfl⟩
        · rw [mergeLoop, if_neg room]
        · intro small
          exact absurd small room

end X86OS.Buddy
