import X86OS.Lib.Coalescing
import X86OS.Mm.Buddy

set_option autoImplicit false

namespace X86OS.Buddy

open Function Dll Tiling

-- `hand` marks the block a split or merge loop currently holds: it is on no
-- free list and its head entry is about to be rewritten.
inductive Kind where
  | free
  | used
  | hand
deriving DecidableEq

theorem links_apart : links.Apart (fun _ => True) where
  next_setNext s a v b _ _ _ := by
    by_cases same : b = a <;> simp [links, State.modify, same]
  prev_setNext s a v b _ _ := by
    by_cases same : b = a <;> simp [links, State.modify, same]
  next_setPrev s a v b _ _ := by
    by_cases same : b = a <;> simp [links, State.modify, same]
  prev_setPrev s a v b _ _ _ := by
    by_cases same : b = a <;> simp [links, State.modify, same]

theorem free_area_apart (k : Nat) : (freeAreaRef k).Apart links (fun _ => True) where
  load_store _ _ := update_self ..
  load_setNext _ _ _ _ := rfl
  load_setPrev _ _ _ _ := rfl
  next_store _ _ _ _ := rfl
  prev_store _ _ _ _ := rfl

-- Everything of the state except the links and the list heads.
structure Contents where
  flags : Nat → PageFlag
  order : Nat → Nat
  pageN : Nat
  freePagesCount : Nat
  usedPagesCount : Nat

def contents (s : State) : Contents where
  flags i := (s.pageMap i).flags
  order i := (s.pageMap i).order
  pageN := s.pageN
  freePagesCount := s.freePagesCount
  usedPagesCount := s.usedPagesCount

theorem contents_set_next (s : State) (a : Nat) (v : Option Nat) : contents (links.setNext s a v) = contents s := by
  have flags (i : Nat) : ((links.setNext s a v).pageMap i).flags = (s.pageMap i).flags := by
    by_cases same : i = a <;> simp [links, State.modify, same]
  have order (i : Nat) : ((links.setNext s a v).pageMap i).order = (s.pageMap i).order := by
    by_cases same : i = a <;> simp [links, State.modify, same]
  simp only [contents, flags, order]
  rfl

theorem contents_set_prev (s : State) (a : Nat) (v : Option Nat) : contents (links.setPrev s a v) = contents s := by
  have flags (i : Nat) : ((links.setPrev s a v).pageMap i).flags = (s.pageMap i).flags := by
    by_cases same : i = a <;> simp [links, State.modify, same]
  have order (i : Nat) : ((links.setPrev s a v).pageMap i).order = (s.pageMap i).order := by
    by_cases same : i = a <;> simp [links, State.modify, same]
  simp only [contents, flags, order]
  rfl

theorem contents_push (k node : Nat) (s : State) : contents (pushNode links (freeAreaRef k) node s) = contents s :=
  push_node_keeps (free_area_apart k) contents s node trivial (fun _ _ => trivial)
    (fun s a v _ => contents_set_next s a v) (fun s a v _ => contents_set_prev s a v) (fun _ _ => rfl)

theorem contents_remove (k node : Nat) (s : State) : contents (removeNode links (freeAreaRef k) node s) = contents s :=
  remove_node_keeps (free_area_apart k) contents s node trivial (fun _ _ => trivial) (fun _ _ => trivial)
    (fun s a v _ => contents_set_next s a v) (fun s a v _ => contents_set_prev s a v) (fun _ _ => rfl)

theorem store_other_area (k k' : Nat) (s : State) (v : Option Nat) (other : k' ≠ k) :
    ((freeAreaRef k).store s v).freeArea k' = s.freeArea k' := by
  simp [freeAreaRef, other]

theorem other_area_push (k k' node : Nat) (s : State) (other : k' ≠ k) :
    (pushNode links (freeAreaRef k) node s).freeArea k' = s.freeArea k' :=
  push_node_keeps (free_area_apart k) (fun s => s.freeArea k') s node trivial (fun _ _ => trivial) (fun _ _ _ _ => rfl)
    (fun _ _ _ _ => rfl) (fun s v => store_other_area k k' s v other)

theorem other_area_remove (k k' node : Nat) (s : State) (other : k' ≠ k) :
    (removeNode links (freeAreaRef k) node s).freeArea k' = s.freeArea k' :=
  remove_node_keeps (free_area_apart k) (fun s => s.freeArea k') s node trivial (fun _ _ => trivial)
    (fun _ _ => trivial) (fun _ _ _ _ => rfl) (fun _ _ _ _ => rfl) (fun s v => store_other_area k k' s v other)

-- `free_area[k]` is the list `nodes`.
def ListAt (s : State) (k : Nat) (nodes : List Nat) : Prop :=
  IsDll (links.next s) (links.prev s) nodes ∧ s.freeArea k = nodes.head?

-- Every list of the allocator holds exactly the free blocks of its order.
def FreeLists (s : State) (tile : TileMap Kind) : Prop :=
  ∀ k, k ≤ maxBuddyOrder → ∃ nodes, ListAt s k nodes ∧ ∀ i, i ∈ nodes ↔ tile i = some ⟨k, .free⟩

theorem list_at_unique (s : State) (k : Nat) (nodes nodes' : List Nat) (list : ListAt s k nodes)
    (list' : ListAt s k nodes') :
    nodes = nodes' :=
  segment_unique _ _ nodes nodes' none none list.1 list'.1 (list.2.symm.trans list'.2)

theorem free_lists_congr (s s' : State) (tile tile' : TileMap Kind) (lists : FreeLists s tile)
    (next : ∀ i, links.next s' i = links.next s i) (prev : ∀ i, links.prev s' i = links.prev s i)
    (area : s'.freeArea = s.freeArea) (blocks : ∀ i k, tile' i = some ⟨k, .free⟩ ↔ tile i = some ⟨k, .free⟩) :
    FreeLists s' tile' := by
  intro k small
  obtain ⟨nodes, ⟨dll, head⟩, members⟩ := lists k small
  refine ⟨nodes, ⟨is_dll_congr _ _ _ _ nodes dll (fun x _ => ⟨next x, prev x⟩), by rw [area, head]⟩, ?_⟩
  intro i
  rw [members i, blocks i k]

theorem list_kept (s s' : State) (tile : TileMap Kind) (k : Nat) (nodes : List Nat) (lists : FreeLists s tile)
    (small : k ≤ maxBuddyOrder) (area : s'.freeArea k = s.freeArea k)
    (kept : ∀ i, tile i = some ⟨k, .free⟩ → links.next s' i = links.next s i ∧ links.prev s' i = links.prev s i)
    (list : ListAt s k nodes) : ListAt s' k nodes := by
  obtain ⟨nodes', list', members⟩ := lists k small
  obtain rfl := list_at_unique s k nodes nodes' list list'
  exact ⟨is_dll_congr _ _ _ _ nodes list.1 (fun x member => kept x ((members x).mp member)), by rw [area, list.2]⟩

theorem other_lists (s s' : State) (tile tile' : TileMap Kind) (k : Nat) (lists : FreeLists s tile)
    (area : ∀ k', k' ≠ k → s'.freeArea k' = s.freeArea k')
    (kept : ∀ i k', k' ≠ k → tile i = some ⟨k', .free⟩ → links.next s' i = links.next s i ∧
      links.prev s' i = links.prev s i)
    (blocks : ∀ i k', k' ≠ k → (tile' i = some ⟨k', .free⟩ ↔ tile i = some ⟨k', .free⟩))
    (own : k ≤ maxBuddyOrder → ∃ nodes, ListAt s' k nodes ∧ ∀ i, i ∈ nodes ↔ tile' i = some ⟨k, .free⟩) :
    FreeLists s' tile' := by
  intro k' small
  by_cases same : k' = k
  · exact same ▸ own (same ▸ small)
  · obtain ⟨nodes, list, members⟩ := lists k' small
    refine ⟨nodes, list_kept s s' tile k' nodes lists small (area k' same) (fun i => kept i k' same) list, ?_⟩
    intro i
    rw [members i, blocks i k' same]

theorem push_other_links (s : State) (tile : TileMap Kind) (k node i k' : Nat) (lists : FreeLists s tile)
    (busy : ∀ k', tile node ≠ some ⟨k', .free⟩) (small : k ≤ maxBuddyOrder) (other : k' ≠ k)
    (isFree : tile i = some ⟨k', .free⟩) :
    links.next (pushNode links (freeAreaRef k) node s) i = links.next s i ∧
      links.prev (pushNode links (freeAreaRef k) node s) i = links.prev s i := by
  obtain ⟨nodes, ⟨dll, head⟩, members⟩ := lists k small
  have notNode : i ≠ node := fun same => busy k' (same ▸ isFree)
  have notHead : (freeAreaRef k).load s ≠ some i := by
    intro same
    have member : i ∈ nodes := List.mem_of_mem_head? (head ▸ same)
    have clash := ((members i).mp member).symm.trans isFree
    simp only [Option.some.injEq, Block.mk.injEq, and_true] at clash
    exact other clash.symm
  exact push_node_frame links_apart (free_area_apart k) s node i trivial trivial (fun _ _ => trivial) notHead notNode

theorem remove_other_links (s : State) (tile : TileMap Kind) (k node i k' : Nat) (lists : FreeLists s tile)
    (nodeFree : tile node = some ⟨k, .free⟩) (small : k ≤ maxBuddyOrder) (other : k' ≠ k)
    (isFree : tile i = some ⟨k', .free⟩) :
    links.next (removeNode links (freeAreaRef k) node s) i = links.next s i ∧
      links.prev (removeNode links (freeAreaRef k) node s) i = links.prev s i := by
  obtain ⟨nodes, ⟨dll, head⟩, members⟩ := lists k small
  obtain ⟨front, back, split⟩ := List.append_of_mem ((members node).mpr nodeFree)
  subst split
  apply remove_node_frame links_apart (free_area_apart k) s front back node i dll (fun _ _ => trivial) trivial
  intro member
  have clash := ((members i).mp member).symm.trans isFree
  simp only [Option.some.injEq, Block.mk.injEq, and_true] at clash
  exact other clash.symm

theorem list_at_push (s : State) (tile : TileMap Kind) (k node : Nat) (nodes : List Nat) (lists : FreeLists s tile)
    (busy : ∀ k', tile node ≠ some ⟨k', .free⟩) (small : k ≤ maxBuddyOrder) (list : ListAt s k nodes) :
    ListAt (pushNode links (freeAreaRef k) node s) k (node :: nodes) := by
  obtain ⟨nodes', list', members⟩ := lists k small
  obtain rfl := list_at_unique s k nodes nodes' list list'
  exact ⟨push_node_dll links_apart (free_area_apart k) s node nodes list.1 list.2 (fun _ _ => trivial) trivial
    (fun member => busy k ((members node).mp member)), push_node_load (free_area_apart k) s node⟩

theorem free_lists_push (s : State) (tile : TileMap Kind) (k node : Nat) (lists : FreeLists s tile)
    (busy : ∀ k', tile node ≠ some ⟨k', .free⟩) (small : k ≤ maxBuddyOrder) :
    FreeLists (pushNode links (freeAreaRef k) node s) (update tile node (some ⟨k, .free⟩)) := by
  apply other_lists s _ tile _ k lists
  · exact fun k' other => other_area_push k k' node s other
  · exact fun i k' other isFree => push_other_links s tile k node i k' lists busy small other isFree
  · intro i k' other
    by_cases same : i = node
    · subst same
      simp [Ne.symm other, busy k']
    · rw [update_of_ne same]
  · intro _
    obtain ⟨nodes, list, members⟩ := lists k small
    refine ⟨node :: nodes, list_at_push s tile k node nodes lists busy small list, ?_⟩
    intro i
    by_cases same : i = node
    · subst same
      simp
    · rw [update_of_ne same, List.mem_cons, members i]
      simp [same]

theorem free_lists_remove (s : State) (tile : TileMap Kind) (k node : Nat) (value : Option (Block Kind))
    (lists : FreeLists s tile) (isFree : tile node = some ⟨k, .free⟩) (small : k ≤ maxBuddyOrder)
    (taken : ∀ k', value ≠ some ⟨k', .free⟩) :
    FreeLists (removeNode links (freeAreaRef k) node s) (update tile node value) := by
  apply other_lists s _ tile _ k lists
  · exact fun k' other => other_area_remove k k' node s other
  · exact fun i k' other otherFree => remove_other_links s tile k node i k' lists isFree small other otherFree
  · intro i k' other
    by_cases same : i = node
    · subst same
      rw [update_self, isFree]
      simp [taken k', Ne.symm other]
    · rw [update_of_ne same]
  · intro _
    obtain ⟨nodes, ⟨dll, head⟩, members⟩ := lists k small
    obtain ⟨front, back, split⟩ := List.append_of_mem ((members node).mpr isFree)
    subst split
    have nodup := dll.1
    refine ⟨front ++ back,
      remove_node_dll links_apart (free_area_apart k) s front back node dll head (fun _ _ => trivial), ?_⟩
    intro i
    by_cases same : i = node
    · subst same
      rw [update_self]
      have gone : i ∉ front ++ back := by grind
      simp [gone, taken k]
    · rw [update_of_ne same, ← members i]
      simp [same]

theorem pop_eq_remove (s : State) (k top : Nat) (head : s.freeArea k = some top) :
    popNode links (freeAreaRef k) s = (some top, removeNode links (freeAreaRef k) top s) := by
  have loaded : (freeAreaRef k).load s = some top := head
  rw [removeNode, if_pos loaded, pop_node_eq (free_area_apart k) s top loaded]

end X86OS.Buddy
