import X86OS.Mm.BuddyAvailability

set_option autoImplicit false

namespace X86OS.Buddy

open Function Dll Tiling Relation

theorem list_at_congr (s s' : State) (k : Nat) (nodes : List Nat) (next : ∀ i, links.next s' i = links.next s i)
    (prev : ∀ i, links.prev s' i = links.prev s i) (area : s'.freeArea k = s.freeArea k) (list : ListAt s k nodes) :
    ListAt s' k nodes :=
  ⟨is_dll_congr _ _ _ _ nodes list.1 (fun x _ => ⟨next x, prev x⟩), by rw [area, list.2]⟩

theorem split_step_lists (s : State) (region : Nat → Prop) (tile : TileMap Kind) (top k j : Nat) (nodes : List Nat)
    (held : Held s region tile top (k + 1)) (small : j ≤ maxBuddyOrder) (other : j ≠ k) (list : ListAt s j nodes) :
    ListAt (splitStep top k s) j nodes := by
  have positive := Nat.two_pow_pos k
  have double : 2 ^ (k + 1) = 2 * 2 ^ k := by rw [pow_succ]; ring
  have rep := held.rep
  have aligned : 2 ^ (k + 1) ∣ top := rep.tiles.aligned top _ held.head
  have bound : k + 1 ≤ maxBuddyOrder := rep.tiles.bounded top _ held.head
  have empty : tile (top + 2 ^ k) = none := rep.tiles.hollow top _ held.head _ (by omega) (by simp only [double]; omega)
  have sibling : buddyIndex (s.setHead top k .used) top = top + 2 ^ k := by
    rw [buddyIndex, (set_head_page s top k top .used).2, if_pos rfl, Nat.shiftLeft_eq, Nat.one_mul]
    exact Word.xor_two_pow_lower top k aligned
  simp only [splitStep, sibling]
  generalize marked : (s.setHead top k .used).setHead (top + 2 ^ k) k .free = m
  have next (i : Nat) : links.next m i = links.next s i := by
    rw [← marked, (set_head_links _ _ _ i _).1, (set_head_links _ _ _ i _).1]
  have prev (i : Nat) : links.prev m i = links.prev s i := by
    rw [← marked, (set_head_links _ _ _ i _).2, (set_head_links _ _ _ i _).2]
  have area : m.freeArea = s.freeArea := by rw [← marked]; rfl
  have lists : FreeLists m tile := free_lists_congr s m tile tile rep.lists next prev area (fun _ _ => Iff.rfl)
  apply list_kept m _ tile j nodes lists small (other_area_push k j _ m other)
  · intro i isFree
    exact push_other_links m tile k (top + 2 ^ k) i j lists (by simp [empty]) (by omega) other isFree
  · exact list_at_congr s m j nodes next prev (congrFun area j) list

theorem split_loop_lists (n : Nat) (s : State) (region : Nat → Prop) (tile : TileMap Kind) (top order j : Nat)
    (nodes : List Nat) (held : Held s region tile top (order + n)) (small : j ≤ maxBuddyOrder)
    (outside : j < order ∨ order + n ≤ j) (list : ListAt s j nodes) : ListAt (splitLoop top order n s) j nodes := by
  induction n generalizing s tile with
  | zero => exact list
  | succ n ih =>
      obtain ⟨middle, heldMiddle, -⟩ := split_step_held s region tile top (order + n) held
      apply ih _ middle heldMiddle (by omega)
      exact split_step_lists s region tile top (order + n) j nodes held small (by omega) list

theorem merge_step_lists (s : State) (region : Nat → Prop) (tile : TileMap Kind) (lower top buddy k j : Nat)
    (nodes : List Nat) (held : Held s region tile top k) (halves : Halves lower top buddy k)
    (free : tile buddy = some ⟨k, .free⟩) (small : j ≤ maxBuddyOrder) (other : j ≠ k) (list : ListAt s j nodes) :
    ListAt (mergeStep top buddy k s).2 j nodes := by
  have removed : ListAt (removeNode links (freeAreaRef k) buddy s) j nodes := by
    apply list_kept s _ tile j nodes held.rep.lists small (other_area_remove k j buddy s other) _ list
    intro i isFree
    exact remove_other_links s tile k buddy i j held.rep.lists free (held.rep.tiles.bounded buddy _ free) other isFree
  rw [merge_step_eq lower top buddy k halves]
  refine list_at_congr (removeNode links (freeAreaRef k) buddy s) _ j nodes ?_ ?_ rfl removed
  · intro i
    rw [(set_flags_links _ _ i _).1, (set_head_links _ _ _ i _).1]
  · intro i
    rw [(set_flags_links _ _ i _).2, (set_head_links _ _ _ i _).2]

-- The block in hand grew around its pages, and only the lists of the orders it grew
-- through were worked on.
structure Grown (s : State) (top k : Nat) (s' : State) (top' k' : Nat) : Prop where
  order : k ≤ k'
  low : top' ≤ top
  high : top + 2 ^ k ≤ top' + 2 ^ k'
  kept : ∀ j nodes, j ≤ maxBuddyOrder → j < k ∨ k' ≤ j → ListAt s j nodes → ListAt s' j nodes

theorem grown_refl (s : State) (top k : Nat) : Grown s top k s top k :=
  ⟨Nat.le_refl k, Nat.le_refl top, Nat.le_refl _, fun _ _ _ _ list => list⟩

theorem merge_loop_grown (fuel : Nat) (s : State) (region : Nat → Prop) (tile : TileMap Kind) (top k : Nat)
    (held : Held s region tile top k) (order : (s.pageMap top).order = k) :
    Grown s top k (mergeLoop fuel top k s).2.2 (mergeLoop fuel top k s).1 (mergeLoop fuel top k s).2.1 := by
  induction fuel generalizing s tile top k with
  | zero => exact grown_refl s top k
  | succ fuel ih =>
      by_cases room : k < maxBuddyOrder
      · obtain ⟨lower, halves, test⟩ := buddy_test_iff s region tile top k held order
        rw [mergeLoop, if_pos room]
        by_cases merge : (s.pageMap (buddyIndex s top)).flags = .free ∧ (s.pageMap (buddyIndex s top)).order = k
        · have free := test.mp merge
          obtain ⟨middle, heldMiddle, -⟩ :=
            merge_step_held s region tile lower top (buddyIndex s top) k held halves room free
          have stepEq := merge_step_eq (s := s) lower top (buddyIndex s top) k halves
          have orderMiddle : ((mergeStep top (buddyIndex s top) k s).2.pageMap lower).order = k + 1 := by
            rw [stepEq, (set_flags_page _ _ lower _).2, (set_head_page _ _ _ lower _).2, if_pos rfl]
          have first : (mergeStep top (buddyIndex s top) k s).1 = lower := by rw [stepEq]
          obtain ⟨grown, low, high, kept⟩ := ih _ middle lower (k + 1) heldMiddle orderMiddle
          simp only [if_pos merge, first]
          have double : 2 ^ (k + 1) = 2 * 2 ^ k := by rw [pow_succ]; ring
          have inParent : lower ≤ top ∧ top + 2 ^ k ≤ lower + 2 ^ (k + 1) := by
            rcases halves.2 with ⟨rfl, -⟩ | ⟨-, rfl⟩ <;> omega
          refine ⟨by omega, by omega, by omega, ?_⟩
          intro j nodes small outside list
          exact kept j nodes small (by omega)
            (merge_step_lists s region tile lower top _ k j nodes held halves free small (by omega) list)
        · simp only [if_neg merge]
          exact grown_refl s top k
      · rw [mergeLoop, if_neg room]
        exact grown_refl s top k

theorem buddy_alloc_lists (s s' : State) (region : Nat → Prop) (tile : TileMap Kind) (total order addr : Nat)
    (inv : Inv s region tile total) (done : buddyAllocPages order s = .ok (addr, s')) :
    ∃ top cur rest, addr = pageMapReal top ∧ order ≤ cur ∧ cur ≤ maxBuddyOrder ∧ tile top = some ⟨cur, .free⟩ ∧
      (∀ j, order ≤ j → j < cur → s.freeArea j = none) ∧ ListAt s cur (top :: rest) ∧ ListAt s' cur rest ∧
      ∀ j nodes, j ≤ maxBuddyOrder → j < order ∨ cur < j → ListAt s j nodes → ListAt s' j nodes := by
  have smallOrder := alloc_order_small s s' order addr done
  simp only [buddyAllocPages] at done
  have search := search_order_spec s (maxBuddyOrder + 1) order (by omega)
  have skipped (j : Nat) (low : order ≤ j) (high : j < searchOrder s (maxBuddyOrder + 1) order)
      (small : j ≤ maxBuddyOrder) :
      s.freeArea j = none := by
    by_contra free
    have := search_order_le s (maxBuddyOrder + 1) order j low (by omega) free
    omega
  generalize searchOrder s (maxBuddyOrder + 1) order = cur at search skipped done
  by_cases outOfMemory : cur > maxBuddyOrder
  · rw [if_pos outOfMemory] at done
    cases done
  · rw [if_neg outOfMemory] at done
    have smallCur : cur ≤ maxBuddyOrder := by omega
    obtain ⟨top, headTop⟩ : ∃ top, s.freeArea cur = some top := Option.ne_none_iff_exists'.mp (search.2 smallCur)
    have isFree := free_area_head s region tile inv.rep cur top smallCur headTop
    rw [pop_eq_remove s cur top headTop] at done
    simp only [Except.ok.injEq, Prod.mk.injEq] at done
    obtain ⟨addrEq, rfl⟩ := done
    obtain ⟨nodes, list, members⟩ := inv.rep.lists cur smallCur
    obtain ⟨rest, rfl⟩ : ∃ rest, nodes = top :: rest := by
      have head := list.2
      rw [headTop] at head
      exact ⟨_, (List.head?_eq_some_iff.mp head.symm).choose_spec⟩
    have orderEq : order + (cur - order) = cur := by have := search.1; omega
    have held : Held (removeNode links (freeAreaRef cur) top s) region (update tile top (some ⟨cur, .hand⟩)) top
        (order + (cur - order)) := by
      rw [orderEq]
      exact (take_free_block s region tile total inv cur top isFree).1
    have ended (j : Nat) (nodes : List Nat) (small : j ≤ maxBuddyOrder) (outside : j < order ∨ cur ≤ j)
        (list : ListAt (removeNode links (freeAreaRef cur) top s) j nodes) :
        ListAt ((splitLoop top order (cur - order) (removeNode links (freeAreaRef cur) top s)).setHead top order .used)
          j nodes := by
      have split := split_loop_lists (cur - order) _ region _ top order j nodes held small (by omega) list
      exact list_at_congr _ _ j nodes (fun i => (set_head_links _ _ _ i _).1)
        (fun i => (set_head_links _ _ _ i _).2) rfl split
    refine ⟨top, cur, rest, addrEq.symm, search.1, smallCur, isFree,
      fun j low high => skipped j low high (by omega), list, ?_, ?_⟩
    · exact ended cur rest smallCur (.inr (Nat.le_refl cur))
        (remove_node_dll links_apart (free_area_apart cur) s [] rest top list.1 list.2 (fun _ _ => trivial))
    · intro j nodes small outside list
      apply ended j nodes small (by omega)
      apply list_kept s _ tile j nodes inv.rep.lists small (other_area_remove cur j top s (by omega)) _ list
      intro i free
      exact remove_other_links s tile cur top i j inv.rep.lists isFree smallCur (by omega) free

theorem buddy_free_lists (s : State) (region : Nat → Prop) (tile : TileMap Kind) (total index k : Nat)
    (inv : Inv s region tile total) (used : tile index = some ⟨k, .used⟩) :
    ∃ top k', k ≤ k' ∧ k' ≤ maxBuddyOrder ∧ top ≤ index ∧ index < top + 2 ^ k' ∧
      (buddyFreePages (pageMapReal index) s).freeArea k' = some top ∧
      (∀ nodes, ListAt s k' nodes → ListAt (buddyFreePages (pageMapReal index) s) k' (top :: nodes)) ∧
      ∀ j nodes, j ≤ maxBuddyOrder → j < k ∨ k' < j → ListAt s j nodes →
        ListAt (buddyFreePages (pageMapReal index) s) j nodes := by
  have order : (s.pageMap index).order = k := (rep_head_page s region tile inv.rep index k .used (by decide) used).2.2
  have start := release_held s region tile total index k inv used
  obtain ⟨top, k', s', tile', loopEq, held, -⟩ :=
    merge_loop_held maxBuddyOrder _ region _ index k start order (by omega)
  have grew := merge_loop_grown maxBuddyOrder _ region _ index k start order
  simp only [loopEq] at grew
  obtain ⟨grown, low, high, kept⟩ := grew
  have stateEq :
      buddyFreePages (pageMapReal index) s = pushNode links (freeAreaRef k') top (s'.setHead top k' .free) := by
    simp only [buddyFreePages, real_page_index, order, loopEq]
  have positive := Nat.two_pow_pos k
  have small : k' ≤ maxBuddyOrder := held.rep.tiles.bounded top _ held.head
  have busy (j : Nat) : tile' top ≠ some ⟨j, .free⟩ := by simp [held.head]
  have lists : FreeLists (s'.setHead top k' .free) tile' :=
    free_lists_congr s' _ tile' tile' held.rep.lists (fun i => (set_head_links _ _ _ i _).1)
      (fun i => (set_head_links _ _ _ i _).2) rfl (fun _ _ => Iff.rfl)
  have marked (j : Nat) (nodes : List Nat) (smallJ : j ≤ maxBuddyOrder) (outside : j < k ∨ k' ≤ j)
      (list : ListAt s j nodes) :
      ListAt (s'.setHead top k' .free) j nodes :=
    list_at_congr s' _ j nodes (fun i => (set_head_links _ _ _ i _).1) (fun i => (set_head_links _ _ _ i _).2) rfl
      (kept j nodes smallJ outside list)
  rw [stateEq]
  refine ⟨top, k', grown, small, low, by omega, push_node_load (free_area_apart k') _ top, ?_, ?_⟩
  · intro nodes list
    exact list_at_push _ tile' k' top nodes lists busy small (marked k' nodes small (.inr (Nat.le_refl k')) list)
  · intro j nodes smallJ outside list
    apply list_kept _ _ tile' j nodes lists smallJ (other_area_push k' j top _ (by omega)) _
      (marked j nodes smallJ (by omega) list)
    intro i isFree
    exact push_other_links _ tile' k' top i j lists busy small (by omega) isFree

theorem same_used_same_tiles (s s' : State) (region : Nat → Prop) (tile tile' : TileMap Kind) (total total' : Nat)
    (inv : Inv s region tile total) (inv' : Inv s' region tile' total') (same : SameUsed tile tile') :
    tile' = tile := by
  have usedPages (p : Nat) : Covers .used tile p ↔ Covers .used tile' p := by simp only [Covers, same _ _]
  have free (i k : Nat) : tile i = some ⟨k, .free⟩ ↔ tile' i = some ⟨k, .free⟩ := by
    apply coalesced_unique _ region region tile tile' .free inv.rep.tiles inv'.rep.tiles inv.coalesced inv'.coalesced
    intro p
    rw [covers_free_iff s region tile total p inv, covers_free_iff s' region tile' total' p inv', usedPages]
  have head (i : Nat) (b : Block Kind) : tile' i = some b ↔ tile i = some b := by
    obtain ⟨k, kind⟩ := b
    cases kind with
    | free => exact (free i k).symm
    | used => exact same i k
    | hand => simp only [inv.quiet i k, inv'.quiet i k]
  funext i
  exact Option.ext (head i)

theorem inv_flags (s : State) (region : Nat → Prop) (tile : TileMap Kind) (total p : Nat)
    (inv : Inv s region tile total) (inside : p < s.pageN) :
    (∀ b, tile p = some b → (s.pageMap p).flags = b.kind.flag) ∧
      (tile p = none → (region p → (s.pageMap p).flags = .tail) ∧ (¬ region p → (s.pageMap p).flags = .kernel)) := by
  constructor
  · intro b head
    exact ((head_iff inv p b.order b.kind (head_settled inv p b head)).mp head).2.1
  · intro none
    have page := inv.rep.pages p inside
    rw [none] at page
    exact page

theorem same_tiles_flags (s s' : State) (region : Nat → Prop) (tile : TileMap Kind) (total total' p : Nat)
    (inv : Inv s region tile total) (inv' : Inv s' region tile total') (inside : p < s.pageN)
    (sameN : s'.pageN = s.pageN) :
    (s'.pageMap p).flags = (s.pageMap p).flags := by
  obtain ⟨head, body⟩ := inv_flags s region tile total p inv inside
  obtain ⟨head', body'⟩ := inv_flags s' region tile total' p inv' (sameN ▸ inside)
  cases found : tile p with
  | some b => rw [head b found, head' b found]
  | none =>
      by_cases managed : region p
      · rw [(body found).1 managed, (body' found).1 managed]
      · rw [(body found).2 managed, (body' found).2 managed]

-- The second state has every list of the first in the same order, the flags of every
-- page, the order of every block and both counters.
structure Restored (s s' : State) : Prop where
  lists : ∀ k, k ≤ maxBuddyOrder → ∃ nodes, ListAt s k nodes ∧ ListAt s' k nodes
  flags : ∀ p, p < s.pageN → (s'.pageMap p).flags = (s.pageMap p).flags
  orders : ∀ h, IsBlock s h → (s'.pageMap h).order = (s.pageMap h).order
  freeCount : s'.freePagesCount = s.freePagesCount
  usedCount : s'.usedPagesCount = s.usedPagesCount
  count : s'.pageN = s.pageN

theorem alloc_free_restored (s s' : State) (region : Nat → Prop) (tile : TileMap Kind) (total order addr : Nat)
    (inv : Inv s region tile total) (done : buddyAllocPages order s = .ok (addr, s')) :
    Restored s (buddyFreePages addr s') := by
  obtain ⟨top, taken, rfl, invTaken, sameTaken, usedTop, usedTaken, -⟩ :=
    buddy_alloc_spec s s' region tile total order addr inv done
  obtain ⟨top₁, cur, rest, addrEq, low, smallCur, isFree, empty, listCur, restCur, keptTaken⟩ :=
    buddy_alloc_lists s s' region tile total order _ inv done
  obtain rfl := page_map_real_inj top top₁ addrEq
  obtain ⟨last, invLast, sameLast, usedLast⟩ := buddy_free_spec s' region taken total top order invTaken usedTop
  obtain ⟨top', k', grown, smallK, lowTop, highTop, headLast, listLast, keptLast⟩ :=
    buddy_free_lists s' region taken total top order invTaken usedTop
  have sameUsed : SameUsed tile last := by
    intro i k
    rw [usedLast, usedTaken]
    constructor
    · rintro ⟨other, ⟨rfl, -⟩ | old⟩
      · exact absurd rfl other
      · exact old
    · intro old
      refine ⟨?_, .inr old⟩
      rintro rfl
      rw [isFree] at old
      cases old
  have sameN : (buddyFreePages (pageMapReal top) s').pageN = s.pageN := sameLast.trans sameTaken
  obtain rfl := same_used_same_tiles s _ region tile last total total inv invLast sameUsed
  -- The merged block contains the first page again and is a block of the same map, so it is the old one.
  have merged := free_area_head _ region last invLast.rep k' top' smallK headLast
  obtain rfl := tiles_unique inv.rep.tiles top' top top _ _ merged isFree lowTop highTop (Nat.le_refl top)
    (by have := Nat.two_pow_pos cur; simp only; omega)
  obtain rfl : k' = cur := by simpa using merged.symm.trans isFree
  refine ⟨?_, ?_, ?_, ?_, ?_, sameN⟩
  · intro k small
    obtain ⟨nodes, list, members⟩ := inv.rep.lists k small
    obtain ⟨nodes', list', members'⟩ := invLast.rep.lists k small
    by_cases outside : k < order ∨ k' < k
    · exact ⟨nodes, list, keptLast k nodes small outside (keptTaken k nodes small outside list)⟩
    · by_cases last : k = k'
      · subst last
        exact ⟨_, listCur, listLast rest restCur⟩
      · -- A list the split went through was empty before, and no block of its order is free after.
        have head := list.2
        rw [empty k (by omega) (by omega)] at head
        obtain rfl := List.head?_eq_none_iff.mp head.symm
        obtain rfl : nodes' = [] := by
          refine List.eq_nil_iff_forall_not_mem.mpr ?_
          intro i member
          exact absurd ((members i).mpr ((members' i).mp member)) (List.not_mem_nil)
        exact ⟨[], list, list'⟩
  · intro p inside
    exact same_tiles_flags s _ region last total total p inv invLast inside sameN
  · intro h block
    obtain ⟨b, head, order⟩ := (is_block_iff inv h).mp block
    rw [← order, head_order invLast h b head]
  · rw [invLast.freeCount, inv.freeCount, sameN]
  · rw [invLast.usedCount, inv.usedCount, sameN]

-- Freeing right after a successful allocation undoes it.
theorem buddy_free_undoes_alloc (memoryMap : MemoryMap) (slack : Nat → Page) (bump : Bump)
    (bootable : Bootable memoryMap slack) (sys : Config) (run : ReflTransGen Step (boot memoryMap slack bump) sys)
    (order addr : Nat) (s' : State) (done : buddyAllocPages order sys.state = .ok (addr, s')) :
    Restored sys.state (buddyFreePages addr s') := by
  obtain ⟨first, total, ownedFirst⟩ := boot_owned memoryMap slack bump bootable
  obtain ⟨tile, owned, -⟩ := run_owned _ sys _ first total ownedFirst run
  exact alloc_free_restored sys.state s' _ tile total order addr owned.inv done

theorem buddy_free_undoes_alloc_small :
    ∃ s', buddyAllocPages 0 (boot smallMap (fun _ => zeroPage) smallBump).state = .ok (0x2000, s') ∧
      Restored (boot smallMap (fun _ => zeroPage) smallBump).state (buddyFreePages 0x2000 s') := by
  obtain ⟨s', done⟩ := small_alloc
  exact ⟨s', done, buddy_free_undoes_alloc smallMap _ smallBump small_bootable _ .refl 0 0x2000 s' done⟩

end X86OS.Buddy
