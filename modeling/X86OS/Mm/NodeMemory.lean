import X86OS.Lib.Memory
import X86OS.Mm.Node

set_option autoImplicit false

namespace X86OS.NodeMemory

open Dll Mem

-- A pointer other than NULL.
abbrev Ptr := { a : Nat // 0 < a ∧ a < 2 ^ 32 }

def ofWord (word : Nat) : Option Ptr := if pointer : 0 < word ∧ word < 2 ^ 32 then some ⟨word, pointer⟩ else none

def toWord (v : Option Ptr) : Nat := v.elim 0 Subtype.val

def loadPtr (mem : Mem) (a : Nat) : Option Ptr := ofWord (readWord mem a)

def storePtr (mem : Mem) (a : Nat) (v : Option Ptr) : Mem := writeWord mem a (toWord v)

-- A `Node` is `next` at 0 and `prev` at 4.
def sizeofNode : Nat := 8

def links : Links Mem Ptr where
  next mem node := loadPtr mem node.val
  prev mem node := loadPtr mem (node.val + 4)
  setNext mem node v := storePtr mem node.val v
  setPrev mem node v := storePtr mem (node.val + 4) v

-- A `Node **` is the address of any word: a slot of an array, a variable or the `next`
-- of a node.
def cellRef (ref : Nat) : HeadRef Mem Ptr where
  load mem := loadPtr mem ref
  store mem v := storePtr mem ref v

-- The `size` bytes at `a` and the node have no byte in common.
def Clear (node : Ptr) (a size : Nat) : Prop := a + size ≤ node.val ∨ node.val + sizeofNode ≤ a

-- A list of nodes in memory, linked both ways and ended by NULL. The back link of the first
-- node is `before`.
structure Chain (mem : Mem) (before : Option Ptr) (nodes : List Ptr) : Prop where
  linked : IsSegment (links.next mem) (links.prev mem) before nodes none
  fits : ∀ p ∈ nodes, p.val + sizeofNode ≤ 2 ^ 32
  separate : ∀ p ∈ nodes, ∀ q ∈ nodes, p ≠ q → Clear p q.val sizeofNode

-- The head pointer is stored at `ref`, outside the list.
structure HeadAt (mem : Mem) (ref : Nat) (nodes : List Ptr) : Prop where
  head : loadPtr mem ref = nodes.head?
  cell : 0 < ref ∧ ref + 4 ≤ 2 ^ 32
  outside : ∀ p ∈ nodes, Clear p ref 4

structure ListAt (mem : Mem) (ref : Nat) (before : Option Ptr) (nodes : List Ptr) : Prop extends
  Chain mem before nodes, HeadAt mem ref nodes

-- A node whose storage is not part of the list.
structure Fresh (nodes : List Ptr) (node : Ptr) : Prop where
  fits : node.val + sizeofNode ≤ 2 ^ 32
  outside : ∀ p ∈ nodes, Clear p node.val sizeofNode

-- Nothing but the nodes and the words at `cells` may differ.
def OnlyWritten (nodes : List Ptr) (cells : List Nat) (mem mem' : Mem) : Prop :=
  ∀ x, (∀ p ∈ nodes, Clear p x 1) → (∀ ref ∈ cells, x < ref ∨ ref + 4 ≤ x) → mem' x = mem x

theorem of_word_to_word (v : Option Ptr) : ofWord (toWord v) = v := by
  cases v with
  | none => rfl
  | some p => exact dif_pos p.property

theorem to_word_lt (v : Option Ptr) : toWord v < 2 ^ 32 := by
  cases v with
  | none => exact Nat.two_pow_pos 32
  | some p => exact p.property.2

theorem load_store_here (mem : Mem) (a : Nat) (v : Option Ptr) : loadPtr (storePtr mem a v) a = v := by
  rw [loadPtr, storePtr, write_word_here mem a _ (to_word_lt v), of_word_to_word]

theorem load_store_elsewhere (mem : Mem) (a b : Nat) (v : Option Ptr) (apart : b + 4 ≤ a ∨ a + 4 ≤ b) :
    loadPtr (storePtr mem a v) b = loadPtr mem b := by
  rw [loadPtr, storePtr, write_word_elsewhere mem a _ b apart, loadPtr]

theorem load_congr (mem mem' : Mem) (a : Nat) (same : ∀ x, a ≤ x → x < a + 4 → mem' x = mem x) :
    loadPtr mem' a = loadPtr mem a := by
  rw [loadPtr, read_word_congr mem mem' a same, loadPtr]

theorem clear_part (node : Ptr) (a size j part : Nat) (clear : Clear node a size) (inside : j + part ≤ size) :
    Clear node (a + j) part := by
  unfold Clear at *
  omega

theorem clear_symm (p q : Ptr) (clear : Clear p q.val sizeofNode) : Clear q p.val sizeofNode := clear.symm

theorem load_set_link (mem : Mem) (node : Ptr) (i a : Nat) (v : Option Ptr) (link : i ≤ 4) (clear : Clear node a 4) :
    loadPtr (storePtr mem (node.val + i) v) a = loadPtr mem a := by
  apply load_store_elsewhere
  unfold Clear sizeofNode at clear
  omega

theorem load_link_store (mem : Mem) (node : Ptr) (i a : Nat) (v : Option Ptr) (link : i ≤ 4) (clear : Clear node a 4) :
    loadPtr (storePtr mem a v) (node.val + i) = loadPtr mem (node.val + i) := by
  apply load_store_elsewhere
  unfold Clear sizeofNode at clear
  omega

theorem links_apart (D : Ptr → Prop) (separate : ∀ a b, D a → D b → a ≠ b → Clear a b.val sizeofNode) :
    links.Apart D := by
  have elsewhere (mem : Mem) (a b : Ptr) (i j : Nat) (v : Option Ptr) (aD : D a) (bD : D b)
      (other : b ≠ a) (first : i ≤ 4)
      (second : j ≤ 4) : loadPtr (storePtr mem (a.val + i) v) (b.val + j) = loadPtr mem (b.val + j) :=
    load_set_link mem a i _ v first (clear_part a _ _ j 4 (separate a b aD bD other.symm) (by unfold sizeofNode; omega))
  refine ⟨?_, ?_, ?_, ?_⟩
  · intro mem a v b aD bD _
    by_cases same : b = a
    · rw [if_pos same, same]
      exact load_store_here mem a.val v
    · rw [if_neg same]
      exact elsewhere mem a b 0 0 v aD bD same (by decide) (by decide)
  · intro mem a v b aD bD
    by_cases same : b = a
    · exact load_store_elsewhere mem a.val (b.val + 4) v (by rw [same]; omega)
    · exact elsewhere mem a b 0 4 v aD bD same (by decide) (by decide)
  · intro mem a v b aD bD
    by_cases same : b = a
    · exact load_store_elsewhere mem (a.val + 4) b.val v (by rw [same]; omega)
    · exact elsewhere mem a b 4 0 v aD bD same (by decide) (by decide)
  · intro mem a v b aD bD _
    by_cases same : b = a
    · rw [if_pos same, same]
      exact load_store_here mem (a.val + 4) v
    · rw [if_neg same]
      exact elsewhere mem a b 4 4 v aD bD same (by decide) (by decide)

theorem cell_apart (ref : Nat) (D : Ptr → Prop) (outside : ∀ a, D a → Clear a ref 4) : (cellRef ref).Apart links D where
  load_store mem v := load_store_here mem ref v
  load_setNext mem a v aD := load_set_link mem a 0 ref v (by decide) (outside a aD)
  load_setPrev mem a v aD := load_set_link mem a 4 ref v (by decide) (outside a aD)
  next_store mem v b bD := load_link_store mem b 0 ref v (by decide) (outside b bD)
  prev_store mem v b bD := load_link_store mem b 4 ref v (by decide) (outside b bD)

theorem byte_kept (x : Nat) (node : Ptr) (i : Nat) (link : i ≤ 4) (clear : Clear node x 1) (mem : Mem)
    (v : Option Ptr) :
    storePtr mem (node.val + i) v x = mem x := by
  apply write_word_frame
  unfold Clear sizeofNode at clear
  omega

theorem fresh_not_mem (nodes : List Ptr) (node : Ptr) (fresh : Fresh nodes node) : node ∉ nodes := by
  intro member
  have := fresh.outside node member
  unfold Clear sizeofNode at this
  omega

theorem fresh_separate (nodes : List Ptr) (node : Ptr) (fresh : Fresh nodes node)
    (separate : ∀ p ∈ nodes, ∀ q ∈ nodes, p ≠ q → Clear p q.val sizeofNode) :
    ∀ p q, p ∈ node :: nodes → q ∈ node :: nodes → p ≠ q → Clear p q.val sizeofNode := by
  intro p q pIn qIn other
  cases List.mem_cons.mp pIn with
  | inl pNode =>
      cases List.mem_cons.mp qIn with
      | inl qNode => exact absurd (pNode.trans qNode.symm) other
      | inr qOld => exact clear_symm q p (pNode ▸ fresh.outside q qOld)
  | inr pOld =>
      cases List.mem_cons.mp qIn with
      | inl qNode => exact qNode ▸ fresh.outside p pOld
      | inr qOld => exact separate p pOld q qOld other

theorem push_node_list (mem : Mem) (ref : Nat) (before : Option Ptr) (nodes : List Ptr) (node : Ptr)
    (list : ListAt mem ref before nodes) (fresh : Fresh nodes node) (clear : Clear node ref 4) :
    ListAt (pushNode links (cellRef ref) node mem) ref none (node :: nodes) ∧
      OnlyWritten (node :: nodes) [ref] mem (pushNode links (cellRef ref) node mem) := by
  have separate := fresh_separate nodes node fresh list.separate
  have outside : ∀ p ∈ node :: nodes, Clear p ref 4 := List.forall_mem_cons.mpr ⟨clear, list.outside⟩
  have apart := links_apart (· ∈ node :: nodes) separate
  have refApart := cell_apart ref (· ∈ node :: nodes) outside
  have nodesD : ∀ x ∈ nodes, x ∈ node :: nodes := fun x member => List.mem_cons_of_mem node member
  have nodeD : node ∈ node :: nodes := List.mem_cons_self
  refine ⟨⟨⟨?_, ?_, ?_⟩, ?_, list.cell, outside⟩, ?_⟩
  · exact push_node_segment apart refApart mem node nodes before list.linked list.head nodesD nodeD
      (fresh_not_mem nodes node fresh)
  · exact List.forall_mem_cons.mpr ⟨fresh.fits, list.fits⟩
  · exact fun p pIn q qIn => separate p q pIn qIn
  · exact push_node_load refApart mem node
  · intro x offNodes offCell
    have headD : ∀ y ∈ loadPtr mem ref, y ∈ node :: nodes := by
      intro y loaded
      rw [list.head] at loaded
      exact nodesD y (List.mem_of_mem_head? loaded)
    apply push_node_keeps refApart (fun mem => mem x) mem node nodeD headD
    · exact fun s a v aD => byte_kept x a 0 (by decide) (offNodes a aD) s v
    · exact fun s a v aD => byte_kept x a 4 (by decide) (offNodes a aD) s v
    · exact fun s v => write_word_frame s ref _ x (offCell ref List.mem_cons_self)

theorem pop_node_list (mem : Mem) (ref : Nat) (before : Option Ptr) (top : Ptr) (rest : List Ptr)
    (list : ListAt mem ref before (top :: rest)) :
    (popNode links (cellRef ref) mem).1 = some top ∧ ListAt (popNode links (cellRef ref) mem).2 ref none rest ∧
      OnlyWritten (top :: rest) [ref] mem (popNode links (cellRef ref) mem).2 := by
  have apart := links_apart (· ∈ top :: rest) (fun p q pIn qIn => list.separate p pIn q qIn)
  have refApart := cell_apart ref (· ∈ top :: rest) list.outside
  have restD : ∀ x ∈ rest, x ∈ top :: rest := fun x member => List.mem_cons_of_mem top member
  obtain ⟨linked, head⟩ := pop_node_segment apart refApart mem top rest before list.linked list.head restD
  refine ⟨by rw [pop_node_eq refApart mem top list.head], ⟨⟨linked, ?_, ?_⟩, head, list.cell, ?_⟩, ?_⟩
  · exact fun p member => list.fits p (restD p member)
  · exact fun p pIn q qIn => list.separate p (restD p pIn) q (restD q qIn)
  · exact fun p member => list.outside p (restD p member)
  · intro x offNodes offCell
    have nextD := segment_next_inside _ _ [] rest top before list.linked (· ∈ top :: rest) restD
    apply pop_node_keeps refApart (fun mem => mem x) mem top list.head nextD
    · exact fun s a v aD => byte_kept x a 4 (by decide) (offNodes a aD) s v
    · exact fun s v => write_word_frame s ref _ x (offCell ref List.mem_cons_self)

theorem erase_split (front back : List Ptr) (node : Ptr) (nodup : (front ++ node :: back).Nodup) :
    (front ++ node :: back).erase node = front ++ back := by
  rw [List.erase_append_right _ (split_apart front back node nodup).1, List.erase_cons_head]

-- Only the removal of the head changes the head pointer.
theorem remove_node_list (mem : Mem) (ref : Nat) (before : Option Ptr) (nodes : List Ptr) (node : Ptr)
    (list : ListAt mem ref before nodes) (member : node ∈ nodes) :
    ListAt (removeNode links (cellRef ref) node mem) ref (if nodes.head? = some node then none else before)
      (nodes.erase node) ∧
      OnlyWritten nodes (if nodes.head? = some node then [ref] else []) mem
        (removeNode links (cellRef ref) node mem) := by
  by_cases first : nodes.head? = some node
  · obtain ⟨rest, rfl⟩ := List.head?_eq_some_iff.mp first
    have removed : removeNode links (cellRef ref) node mem = (popNode links (cellRef ref) mem).2 := if_pos list.head
    rw [if_pos first, if_pos first, removed, List.erase_cons_head]
    exact (pop_node_list mem ref before node rest list).2
  · obtain ⟨front, back, rfl⟩ := List.append_of_mem member
    have inside : front = [] → before = none := by
      rintro rfl
      exact absurd rfl first
    have removed : removeNode links (cellRef ref) node mem = unlinkNode links node mem :=
      if_neg (fun same => first (list.head.symm.trans same))
    have apart := links_apart (· ∈ front ++ node :: back) (fun p q pIn qIn => list.separate p pIn q qIn)
    have refApart := cell_apart ref (· ∈ front ++ node :: back) list.outside
    have kept : ∀ p ∈ front ++ back, p ∈ front ++ node :: back := fun p pIn =>
      ((List.sublist_cons_self node back).append_left front).subset pIn
    obtain ⟨nextD, prevD⟩ := segment_neighbours _ _ front back node before list.linked inside _ (fun _ => id)
    rw [if_neg first, if_neg first, removed, erase_split front back node list.linked.1]
    refine ⟨⟨⟨?_, ?_, ?_⟩, ?_, list.cell, ?_⟩, ?_⟩
    · exact unlink_node_segment apart mem front back node before list.linked inside (fun _ => id)
    · exact fun p pIn => list.fits p (kept p pIn)
    · exact fun p pIn q qIn => list.separate p (kept p pIn) q (kept q qIn)
    · refine (unlink_node_load refApart mem node member nextD prevD).trans (list.head.trans ?_)
      cases front with
      | nil => exact absurd rfl first
      | cons y front => rfl
    · exact fun p pIn => list.outside p (kept p pIn)
    · intro x offNodes _
      apply unlink_node_keeps (fun mem => mem x) mem node member nextD prevD
      · exact fun s a v aD => byte_kept x a 0 (by decide) (offNodes a aD) s v
      · exact fun s a v aD => byte_kept x a 4 (by decide) (offNodes a aD) s v

theorem insert_perm (front back : List Ptr) (prev node : Ptr) :
    (front ++ prev :: node :: back).Perm (node :: (front ++ prev :: back)) := by
  simpa using @List.perm_middle Ptr node (front ++ [prev]) back

theorem insert_node_chain (mem : Mem) (before : Option Ptr) (front back : List Ptr) (prev node : Ptr)
    (chain : Chain mem before (front ++ prev :: back)) (fresh : Fresh (front ++ prev :: back) node)
    (ending : links.next mem node = none) :
    Chain (insertNode links prev node mem) before (front ++ prev :: node :: back) ∧
      OnlyWritten (node :: (front ++ prev :: back)) [] mem (insertNode links prev node mem) := by
  have separate := fresh_separate _ node fresh chain.separate
  have apart := links_apart (· ∈ node :: (front ++ prev :: back)) separate
  have nodesD : ∀ x ∈ front ++ prev :: back, x ∈ node :: (front ++ prev :: back) :=
    fun x member => List.mem_cons_of_mem node member
  have nodeD : node ∈ node :: (front ++ prev :: back) := List.mem_cons_self
  have same : ∀ p ∈ front ++ prev :: node :: back, p ∈ node :: (front ++ prev :: back) :=
    fun p pIn => (insert_perm ..).mem_iff.mp pIn
  have fits : ∀ p ∈ node :: (front ++ prev :: back), p.val + sizeofNode ≤ 2 ^ 32 :=
    List.forall_mem_cons.mpr ⟨fresh.fits, chain.fits⟩
  refine ⟨⟨?_, ?_, ?_⟩, ?_⟩
  · exact insert_node_segment apart mem front back prev node before chain.linked nodesD nodeD
      (fresh_not_mem _ node fresh) (fun _ => ending)
  · exact fun p pIn => fits p (same p pIn)
  · exact fun p pIn q qIn => separate p q (same p pIn) (same q qIn)
  · intro x offNodes _
    have nextD :=
      segment_next_inside _ _ front back prev before chain.linked _ (fun y member => nodesD y (by simp [member]))
    apply insert_node_keeps (fun mem => mem x) mem prev node (nodesD prev (by simp)) nodeD nextD
    · exact fun s a v aD => byte_kept x a 0 (by decide) (offNodes a aD) s v
    · exact fun s a v aD => byte_kept x a 4 (by decide) (offNodes a aD) s v

theorem head_kept (mem mem' : Mem) (ref : Nat) (nodes nodes' : List Ptr) (headed : HeadAt mem ref nodes)
    (written : OnlyWritten nodes' [] mem mem') (outside : ∀ p ∈ nodes', Clear p ref 4) :
    loadPtr mem' ref = nodes.head? := by
  rw [← headed.head]
  apply load_congr
  intro x low high
  apply written x
  · intro p member
    have part := clear_part p ref 4 (x - ref) 1 (outside p member) (by omega)
    rwa [Nat.add_sub_cancel' low] at part
  · exact fun cell none => absurd none List.not_mem_nil

theorem insert_node_list (mem : Mem) (ref : Nat) (before : Option Ptr) (front back : List Ptr) (prev node : Ptr)
    (list : ListAt mem ref before (front ++ prev :: back)) (fresh : Fresh (front ++ prev :: back) node)
    (clear : Clear node ref 4) (ending : links.next mem node = none) :
    ListAt (insertNode links prev node mem) ref before (front ++ prev :: node :: back) := by
  obtain ⟨inserted, written⟩ := insert_node_chain mem before front back prev node list.toChain fresh ending
  have outside : ∀ p ∈ node :: (front ++ prev :: back), Clear p ref 4 := List.forall_mem_cons.mpr ⟨clear, list.outside⟩
  refine ⟨inserted, ?_, list.cell, fun p pIn => outside p ((insert_perm ..).mem_iff.mp pIn)⟩
  rw [head_kept mem _ ref _ _ list.toHeadAt written outside]
  cases front with
  | nil => rfl
  | cons y front => rfl

theorem lists_implement_sequences (mem : Mem) (before : Option Ptr) (nodes : List Ptr)
    (chain : Chain mem before nodes) :
    (∀ front prev back node, nodes = front ++ prev :: back → Fresh nodes node → links.next mem node = none →
      Chain (insertNode links prev node mem) before (front ++ prev :: node :: back) ∧
      OnlyWritten (node :: nodes) [] mem (insertNode links prev node mem)) ∧
    (∀ ref, HeadAt mem ref nodes →
      (∀ node, Fresh nodes node → Clear node ref 4 →
        ListAt (pushNode links (cellRef ref) node mem) ref none (node :: nodes) ∧
        OnlyWritten (node :: nodes) [ref] mem (pushNode links (cellRef ref) node mem)) ∧
      (nodes ≠ [] →
        (popNode links (cellRef ref) mem).1 = nodes.head? ∧
        ListAt (popNode links (cellRef ref) mem).2 ref none nodes.tail ∧
        OnlyWritten nodes [ref] mem (popNode links (cellRef ref) mem).2) ∧
      (∀ node ∈ nodes,
        ListAt (removeNode links (cellRef ref) node mem) ref (if nodes.head? = some node then none else before)
          (nodes.erase node) ∧
        OnlyWritten nodes (if nodes.head? = some node then [ref] else []) mem
          (removeNode links (cellRef ref) node mem)) ∧
      (∀ front prev back node, nodes = front ++ prev :: back → Fresh nodes node → Clear node ref 4 →
        links.next mem node = none →
        ListAt (insertNode links prev node mem) ref before (front ++ prev :: node :: back))) := by
  constructor
  · rintro front prev back node rfl fresh ending
    exact insert_node_chain mem before front back prev node chain fresh ending
  · intro ref headed
    have list : ListAt mem ref before nodes := ⟨chain, headed⟩
    refine ⟨?_, ?_, ?_, ?_⟩
    · intro node fresh clear
      exact push_node_list mem ref before nodes node list fresh clear
    · intro nonempty
      cases nodes with
      | nil => exact absurd rfl nonempty
      | cons top rest => exact pop_node_list mem ref before top rest list
    · intro node member
      exact remove_node_list mem ref before nodes node list member
    · rintro front prev back node rfl fresh clear ending
      exact insert_node_list mem ref before front back prev node list fresh clear ending

theorem lists_implement_sequences_pair :
    ListAt (removeNode links (cellRef 0x1000) ⟨0x2000, by decide⟩ (pushNode links (cellRef 0x1000) ⟨0x3000, by decide⟩
      (pushNode links (cellRef 0x1000) ⟨0x2000, by decide⟩ (fun _ => 0)))) 0x1000 none [⟨0x3000, by decide⟩] := by
  have empty : ListAt (fun _ => 0) 0x1000 none [] :=
    ⟨⟨segment_nil _ _ _ _, by simp, by simp⟩, rfl, by decide, by simp⟩
  have one := (push_node_list _ 0x1000 none [] ⟨0x2000, by decide⟩ empty ⟨by decide, by simp⟩ (.inl (by decide))).1
  have fresh : Fresh [⟨0x2000, by decide⟩] ⟨0x3000, by decide⟩ := ⟨by decide, by simp [Clear, sizeofNode]⟩
  have two := (push_node_list _ 0x1000 none _ ⟨0x3000, by decide⟩ one fresh (.inl (by decide))).1
  exact (((lists_implement_sequences _ none _ two.toChain).2 0x1000 two.toHeadAt).2.2.1 ⟨0x2000, by decide⟩ (by simp)).1

end X86OS.NodeMemory
