import X86OS.Mm.Heap
import X86OS.Mm.NodeMemory

set_option autoImplicit false

namespace X86OS.NodeMemory

open Dll Mem

theorem list_behind_owner (mem : Mem) (before : Option Ptr) (owner : Ptr) (nodes : List Ptr)
    (chain : Chain mem before (owner :: nodes)) : ListAt mem owner.val (some owner) nodes ∧ Fresh nodes owner := by
  have notOwner : owner ∉ nodes := (List.nodup_cons.mp chain.linked.1).1
  have fits := chain.fits owner List.mem_cons_self
  have inChain (p : Ptr) (pIn : p ∈ nodes) : p ∈ owner :: nodes := List.mem_cons_of_mem owner pIn
  have clear (p : Ptr) (pIn : p ∈ nodes) : Clear p owner.val sizeofNode :=
    chain.separate p (inChain p pIn) owner List.mem_cons_self (fun same => notOwner (same ▸ pIn))
  refine ⟨⟨⟨?_, ?_, ?_⟩, ?_, ⟨owner.property.1, ?_⟩, ?_⟩, fits, clear⟩
  · exact segment_right _ _ [owner] nodes before none chain.linked
  · exact fun p pIn => chain.fits p (inChain p pIn)
  · exact fun p pIn q qIn => chain.separate p (inChain p pIn) q (inChain q qIn)
  · exact (segment_links _ _ [] nodes owner before chain.linked).2
  · unfold sizeofNode at fits
    omega
  · exact fun p pIn => clear_part p owner.val sizeofNode 0 4 (clear p pIn) (by decide)

theorem chain_cons_iff (mem : Mem) (before back : Option Ptr) (owner : Ptr) (nodes : List Ptr)
    (list : ListAt mem owner.val back nodes) (fresh : Fresh nodes owner) (ownPrev : links.prev mem owner = before) :
    Chain mem before (owner :: nodes) ↔ nodes = [] ∨ back = some owner := by
  constructor
  · intro chain
    cases nodes with
    | nil => exact .inl rfl
    | cons y rest =>
        have seen : links.prev mem y = back := (segment_links _ _ [] rest y back list.linked).1
        have linked : links.prev mem y = some owner := (segment_links _ _ [owner] rest y before chain.linked).1
        exact .inr (seen.symm.trans linked)
  · intro seam
    have single := segment_single (links.next mem) (links.prev mem) owner
    rw [show links.next mem owner = nodes.head? from list.head, ownPrev] at single
    have behind : IsSegment (links.next mem) (links.prev mem) (some owner) nodes none := by
      cases seam with
      | inl empty => exact empty ▸ segment_nil _ _ _ _
      | inr same => exact same ▸ list.linked
    have separate := fresh_separate nodes owner fresh list.separate
    refine ⟨?_, List.forall_mem_cons.mpr ⟨fresh.fits, list.fits⟩, fun p pIn q qIn => separate p q pIn qIn⟩
    exact segment_append _ _ [owner] nodes before none (by simpa using single) behind
      (by simpa using fresh_not_mem nodes owner fresh)

-- Through the `next` of its first node every later node of a list can be removed but the
-- second, unless that is the last: the back link of its successor becomes NULL.
theorem remove_behind_owner (mem : Mem) (before : Option Ptr) (owner : Ptr) (nodes : List Ptr) (node : Ptr)
    (chain : Chain mem before (owner :: nodes)) (member : node ∈ nodes) :
    Chain (removeNode links (cellRef owner.val) node mem) before (owner :: nodes.erase node) ↔
      nodes.head? ≠ some node ∨ nodes = [node] := by
  obtain ⟨list, fresh⟩ := list_behind_owner mem before owner nodes chain
  obtain ⟨rest, written⟩ := remove_node_list mem owner.val (some owner) nodes node list member
  have ownPrev : links.prev (removeNode links (cellRef owner.val) node mem) owner = before := by
    refine Eq.trans (load_congr mem _ _ ?_) (segment_links _ _ [] nodes owner before chain.linked).1
    intro x low high
    apply written x
    · intro p pIn
      have part :=
        clear_part p owner.val sizeofNode (x - owner.val) 1 (fresh.outside p pIn) (by unfold sizeofNode; omega)
      rwa [Nat.add_sub_cancel' (by omega)] at part
    · intro ref inCells
      split_ifs at inCells with first
      · rw [List.mem_singleton.mp inCells]
        omega
      · exact absurd inCells List.not_mem_nil
  have freshRest : Fresh (nodes.erase node) owner :=
    ⟨fresh.fits, fun p pIn => fresh.outside p (List.mem_of_mem_erase pIn)⟩
  rw [chain_cons_iff _ before _ owner _ rest freshRest ownPrev]
  by_cases first : nodes.head? = some node
  · obtain ⟨tail, rfl⟩ := List.head?_eq_some_iff.mp first
    simp
  · simp [first]

theorem links_memory (σ : Type) :
    (Heap.links : Links (Heap.State σ) Nat).Simulated links Heap.State.mem Subtype.val := by
  have load (mem : Mem) (a : Nat) : Heap.toPtr (readWord mem a) = (loadPtr mem a).map Subtype.val := by
    by_cases null : readWord mem a = 0
    · simp [Heap.toPtr, loadPtr, ofWord, null]
    · have pointer : 0 < readWord mem a ∧ readWord mem a < 2 ^ 32 := ⟨Nat.pos_of_ne_zero null, read_word_lt mem a⟩
      rw [Heap.toPtr, if_neg null, loadPtr, ofWord, dif_pos pointer, Option.map_some]
  have word (v : Option Ptr) : (v.map Subtype.val).getD 0 = toWord v := by
    cases v with
    | none => rfl
    | some p => rfl
  refine ⟨fun h p => load h.mem p.val, fun h p => load h.mem (p.val + 4), ?_, ?_⟩
  · intro h p v
    exact congrArg (writeWord h.mem p.val) (word v)
  · intro h p v
    exact congrArg (writeWord h.mem (p.val + 4)) (word v)

-- `&(first->all.next)` for a `first` that does not change.
def ownerRef {σ : Type} (owner : Nat) : HeadRef (Heap.State σ) Nat where
  load h := Heap.links.next h owner
  store h v := Heap.links.setNext h owner v

theorem owner_ref_memory (σ : Type) (owner : Ptr) :
    (ownerRef owner.val : HeadRef (Heap.State σ) Nat).Simulated (cellRef owner.val) Heap.State.mem Subtype.val :=
  ⟨fun h => (links_memory σ).next h owner, fun h v => (links_memory σ).setNext h owner v⟩

theorem remove_first_next {σ : Type} (h : Heap.State σ) (owner node : Nat) (known : h.first = some owner) :
    removeNode Heap.links Heap.firstNextRef node h = removeNode Heap.links (ownerRef owner) node h := by
  have load (g : Heap.State σ) (first : g.first = some owner) : Heap.firstNextRef.load g = (ownerRef owner).load g := by
    simp only [Heap.firstNextRef, ownerRef, first, Option.bind_some]
  have store (v : Option Nat) : Heap.firstNextRef.store h v = (ownerRef owner).store h v := by
    simp only [Heap.firstNextRef, ownerRef, known, Links.setNextIf]
  have pop : popNode Heap.links Heap.firstNextRef h = popNode Heap.links (ownerRef owner) h := by
    simp only [popNode, load h known, store]
    cases (ownerRef owner).load h with
    | none => rfl
    | some top => simp only [load ((ownerRef owner).store h (Heap.links.next h top)) known]
  rw [removeNode, removeNode, load h known, pop]

-- The chunk list of `kfree` and `return_page`, which remove through `first->all.next`.
theorem chunk_list_remove {σ : Type} (h : Heap.State σ) (first node : Ptr) (rest : List Ptr)
    (known : h.first = some first.val) (chain : Chain h.mem none (first :: rest)) (member : node ∈ rest) :
    Chain (removeNode Heap.links Heap.firstNextRef node.val h).mem none (first :: rest.erase node) ↔
      rest.head? ≠ some node ∨ rest = [node] := by
  rw [remove_first_next h first.val node.val known,
    remove_node_simulated (links_memory σ) (owner_ref_memory σ first) Subtype.val_injective h node]
  exact remove_behind_owner h.mem none first rest node chain member

end X86OS.NodeMemory
