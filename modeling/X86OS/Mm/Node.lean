import X86OS.Lib.Dll

set_option autoImplicit false
set_option linter.unusedSectionVars false

namespace X86OS

open Dll

-- How a program state stores the two links of its intrusive nodes. The buddy
-- allocator keeps them in the page map, the heap in the bytes of its chunks.
structure Links (S P : Type) where
  next : S → P → Option P
  prev : S → P → Option P
  setNext : S → P → Option P → S
  setPrev : S → P → Option P → S

-- A `Node **`: the place a list head is loaded from and stored to.
structure HeadRef (S P : Type) where
  load : S → Option P
  store : S → Option P → S

section Node

variable {S P : Type} [DecidableEq P]

-- `if (node) node->prev = value`
def Links.setPrevIf (L : Links S P) (s : S) (node value : Option P) : S :=
  match node with
  | none => s
  | some x => L.setPrev s x value

def Links.setNextIf (L : Links S P) (s : S) (node value : Option P) : S :=
  match node with
  | none => s
  | some x => L.setNext s x value

def pushNode (L : Links S P) (headRef : HeadRef S P) (node : P) (s : S) : S :=
  let s := L.setNext s node (headRef.load s)
  let s := L.setPrev s node none
  let s := L.setPrevIf s (headRef.load s) (some node)
  headRef.store s (some node)

-- On an empty list the source dereferences NULL; every caller tests the head first.
def popNode (L : Links S P) (headRef : HeadRef S P) (s : S) : Option P × S :=
  match headRef.load s with
  | none => (none, s)
  | some top =>
      let s := headRef.store s (L.next s top)
      (some top, L.setPrevIf s (headRef.load s) none)

-- The part of `remove_node` that does not touch the head.
def unlinkNode (L : Links S P) (node : P) (s : S) : S :=
  let next := L.next s node
  let prev := L.prev s node
  let s := L.setPrevIf s next prev
  let s := L.setNextIf s prev next
  L.setPrev (L.setNext s node none) node none

def removeNode (L : Links S P) (headRef : HeadRef S P) (node : P) (s : S) : S :=
  if headRef.load s = some node then (popNode L headRef s).2 else unlinkNode L node s

-- The new node keeps its own `next` when it is inserted behind the last node.
def insertNode (L : Links S P) (prev node : P) (s : S) : S :=
  let next := L.next s prev
  let s := L.setNext s prev (some node)
  let s := L.setPrev s node (some prev)
  match next with
  | none => s
  | some x => L.setPrev (L.setNext s node (some x)) x (some node)

-- The nodes of `D` live in disjoint storage, and a link to one of them can be
-- stored without loss.
structure Links.Apart (L : Links S P) (D : P → Prop) : Prop where
  next_setNext : ∀ s a v b, D a → D b → (∀ x ∈ v, D x) → L.next (L.setNext s a v) b = if b = a then v else L.next s b
  prev_setNext : ∀ s a v b, D a → D b → L.prev (L.setNext s a v) b = L.prev s b
  next_setPrev : ∀ s a v b, D a → D b → L.next (L.setPrev s a v) b = L.next s b
  prev_setPrev : ∀ s a v b, D a → D b → (∀ x ∈ v, D x) → L.prev (L.setPrev s a v) b = if b = a then v else L.prev s b

-- The head lives outside every node of `D`.
structure HeadRef.Apart (headRef : HeadRef S P) (L : Links S P) (D : P → Prop) : Prop where
  load_store : ∀ s v, headRef.load (headRef.store s v) = v
  load_setNext : ∀ s a v, D a → headRef.load (L.setNext s a v) = headRef.load s
  load_setPrev : ∀ s a v, D a → headRef.load (L.setPrev s a v) = headRef.load s
  next_store : ∀ s v b, D b → L.next (headRef.store s v) b = L.next s b
  prev_store : ∀ s v b, D b → L.prev (headRef.store s v) b = L.prev s b

variable {L : Links S P} {D : P → Prop} (apart : L.Apart D)

include apart

theorem next_set_prev_if (s : S) (node value : Option P) (b : P) (inD : D b) (nodeD : ∀ x ∈ node, D x) :
    L.next (L.setPrevIf s node value) b = L.next s b := by
  cases node with
  | none => rfl
  | some x => exact apart.next_setPrev s x value b (nodeD x rfl) inD

theorem prev_set_prev_if (s : S) (node value : Option P) (b : P) (inD : D b) (nodeD : ∀ x ∈ node, D x)
    (valueD : ∀ x ∈ value, D x) :
    L.prev (L.setPrevIf s node value) b = if node = some b then value else L.prev s b := by
  cases node with
  | none => simp [Links.setPrevIf]
  | some x =>
      rw [Links.setPrevIf, apart.prev_setPrev s x value b (nodeD x rfl) inD valueD]
      simp [eq_comm]

theorem next_set_next_if (s : S) (node value : Option P) (b : P) (inD : D b) (nodeD : ∀ x ∈ node, D x)
    (valueD : ∀ x ∈ value, D x) :
    L.next (L.setNextIf s node value) b = if node = some b then value else L.next s b := by
  cases node with
  | none => simp [Links.setNextIf]
  | some x =>
      rw [Links.setNextIf, apart.next_setNext s x value b (nodeD x rfl) inD valueD]
      simp [eq_comm]

theorem prev_set_next_if (s : S) (node value : Option P) (b : P) (inD : D b) (nodeD : ∀ x ∈ node, D x) :
    L.prev (L.setNextIf s node value) b = L.prev s b := by
  cases node with
  | none => rfl
  | some x => exact apart.prev_setNext s x value b (nodeD x rfl) inD

variable {headRef : HeadRef S P} (refApart : headRef.Apart L D)

-- What no link of a node of `D` and no head store changes, no list operation on
-- nodes of `D` changes.
section Keeps

variable {α : Type} (view : S → α)

omit apart in
theorem set_prev_if_keeps (s : S) (node value : Option P) (nodeD : ∀ x ∈ node, D x)
    (prevKept : ∀ s a v, D a → view (L.setPrev s a v) = view s) : view (L.setPrevIf s node value) = view s := by
  cases node with
  | none => rfl
  | some x => exact prevKept s x value (nodeD x rfl)

omit apart in
theorem set_next_if_keeps (s : S) (node value : Option P) (nodeD : ∀ x ∈ node, D x)
    (nextKept : ∀ s a v, D a → view (L.setNext s a v) = view s) : view (L.setNextIf s node value) = view s := by
  cases node with
  | none => rfl
  | some x => exact nextKept s x value (nodeD x rfl)

omit apart in
theorem unlink_node_keeps (s : S) (node : P) (nodeD : D node) (nextD : ∀ x ∈ L.next s node, D x)
    (prevD : ∀ x ∈ L.prev s node, D x) (nextKept : ∀ s a v, D a → view (L.setNext s a v) = view s)
    (prevKept : ∀ s a v, D a → view (L.setPrev s a v) = view s) : view (unlinkNode L node s) = view s := by
  simp only [unlinkNode]
  rw [prevKept _ _ _ nodeD, nextKept _ _ _ nodeD, set_next_if_keeps view _ _ _ prevD nextKept,
    set_prev_if_keeps view _ _ _ nextD prevKept]

omit apart in
theorem insert_node_keeps (s : S) (before node : P) (beforeD : D before) (nodeD : D node)
    (nextD : ∀ x ∈ L.next s before, D x) (nextKept : ∀ s a v, D a → view (L.setNext s a v) = view s)
    (prevKept : ∀ s a v, D a → view (L.setPrev s a v) = view s) : view (insertNode L before node s) = view s := by
  simp only [insertNode]
  cases following : L.next s before with
  | none =>
      dsimp only
      rw [prevKept _ _ _ nodeD, nextKept _ _ _ beforeD]
  | some x =>
      dsimp only
      rw [prevKept _ _ _ (nextD x following), nextKept _ _ _ nodeD, prevKept _ _ _ nodeD, nextKept _ _ _ beforeD]

include refApart

omit apart in
theorem push_node_keeps (s : S) (node : P) (nodeD : D node) (headD : ∀ x ∈ headRef.load s, D x)
    (nextKept : ∀ s a v, D a → view (L.setNext s a v) = view s)
    (prevKept : ∀ s a v, D a → view (L.setPrev s a v) = view s) (storeKept : ∀ s v, view (headRef.store s v) = view s) :
    view (pushNode L headRef node s) = view s := by
  simp only [pushNode]
  rw [storeKept, refApart.load_setPrev _ _ _ nodeD, refApart.load_setNext _ _ _ nodeD,
    set_prev_if_keeps view _ _ _ headD prevKept, prevKept _ _ _ nodeD, nextKept _ _ _ nodeD]

omit apart in
theorem pop_node_keeps (s : S) (top : P) (head : headRef.load s = some top) (nextD : ∀ x ∈ L.next s top, D x)
    (prevKept : ∀ s a v, D a → view (L.setPrev s a v) = view s) (storeKept : ∀ s v, view (headRef.store s v) = view s) :
    view (popNode L headRef s).2 = view s := by
  rw [popNode, head]
  dsimp only
  rw [refApart.load_store, set_prev_if_keeps view _ _ _ nextD prevKept, storeKept]

omit apart in
theorem remove_node_keeps (s : S) (node : P) (nodeD : D node) (nextD : ∀ x ∈ L.next s node, D x)
    (prevD : ∀ x ∈ L.prev s node, D x) (nextKept : ∀ s a v, D a → view (L.setNext s a v) = view s)
    (prevKept : ∀ s a v, D a → view (L.setPrev s a v) = view s) (storeKept : ∀ s v, view (headRef.store s v) = view s) :
    view (removeNode L headRef node s) = view s := by
  by_cases first : headRef.load s = some node
  · rw [removeNode, if_pos first]
    exact pop_node_keeps refApart view s node first nextD prevKept storeKept
  · rw [removeNode, if_neg first]
    exact unlink_node_keeps view s node nodeD nextD prevD nextKept prevKept

end Keeps

section Push

include refApart

theorem push_node_next (s : S) (node b : P) (nodeD : D node) (inD : D b) (headD : ∀ x ∈ headRef.load s, D x) :
    L.next (pushNode L headRef node s) b = if b = node then headRef.load s else L.next s b := by
  simp only [pushNode]
  rw [refApart.next_store _ _ _ inD, refApart.load_setPrev _ _ _ nodeD, refApart.load_setNext _ _ _ nodeD,
    next_set_prev_if apart _ _ _ _ inD headD, apart.next_setPrev _ _ _ _ nodeD inD,
    apart.next_setNext _ _ _ _ nodeD inD headD]

theorem push_node_prev (s : S) (node b : P) (nodeD : D node) (inD : D b) (headD : ∀ x ∈ headRef.load s, D x) :
    L.prev (pushNode L headRef node s) b =
      if headRef.load s = some b then some node else if b = node then none else L.prev s b := by
  simp only [pushNode]
  rw [refApart.prev_store _ _ _ inD, refApart.load_setPrev _ _ _ nodeD, refApart.load_setNext _ _ _ nodeD,
    prev_set_prev_if apart _ _ _ _ inD headD (by simpa using nodeD), apart.prev_setPrev _ _ _ _ nodeD inD (by simp),
    apart.prev_setNext _ _ _ _ nodeD inD]

omit apart in
theorem push_node_load (s : S) (node : P) : headRef.load (pushNode L headRef node s) = some node := by
  simp only [pushNode]
  rw [refApart.load_store]

-- Whatever the head pointed back to, the new head points back to nothing.
theorem push_node_segment (s : S) (node : P) (nodes : List P) (before : Option P)
    (segment : IsSegment (L.next s) (L.prev s) before nodes none) (head : headRef.load s = nodes.head?)
    (nodesD : ∀ x ∈ nodes, D x) (nodeD : D node) (fresh : node ∉ nodes) :
    IsDll (L.next (pushNode L headRef node s)) (L.prev (pushNode L headRef node s)) (node :: nodes) := by
  have headD : ∀ x ∈ headRef.load s, D x := by
    intro x loaded
    rw [head] at loaded
    exact nodesD x (List.mem_of_mem_head? loaded)
  have other (y : P) (member : y ∈ nodes) : y ≠ node := fun same => fresh (same ▸ member)
  have notHead : nodes.head? ≠ some node := fun same => fresh (List.mem_of_mem_head? same)
  have single := segment_single (L.next (pushNode L headRef node s)) (L.prev (pushNode L headRef node s)) node
  rw [push_node_next apart refApart s node node nodeD nodeD headD, if_pos rfl,
    push_node_prev apart refApart s node node nodeD nodeD headD, head, if_neg notHead, if_pos rfl] at single
  apply segment_append _ _ [node] nodes _ _ (by simpa using single) _ (by simpa using fresh)
  apply segment_redirect_prev (L.next s) (L.prev s) _ _ nodes before _ none segment
  · intro y member
    rw [push_node_prev apart refApart s node y nodeD (nodesD y member) headD, head, if_neg (other y member)]
    rfl
  · intro y member
    rw [push_node_next apart refApart s node y nodeD (nodesD y member) headD, if_neg (other y member)]

theorem push_node_dll (s : S) (node : P) (nodes : List P) (dll : IsDll (L.next s) (L.prev s) nodes)
    (head : headRef.load s = nodes.head?) (nodesD : ∀ x ∈ nodes, D x) (nodeD : D node) (fresh : node ∉ nodes) :
    IsDll (L.next (pushNode L headRef node s)) (L.prev (pushNode L headRef node s)) (node :: nodes) :=
  push_node_segment apart refApart s node nodes none dll head nodesD nodeD fresh

theorem push_node_frame (s : S) (node b : P) (nodeD : D node) (inD : D b) (headD : ∀ x ∈ headRef.load s, D x)
    (notHead : headRef.load s ≠ some b) (other : b ≠ node) :
    L.next (pushNode L headRef node s) b = L.next s b ∧ L.prev (pushNode L headRef node s) b = L.prev s b := by
  rw [push_node_next apart refApart s node b nodeD inD headD, push_node_prev apart refApart s node b nodeD inD headD,
    if_neg other, if_neg notHead, if_neg other]
  exact ⟨rfl, rfl⟩

end Push

section Pop

include refApart

omit apart in
theorem pop_node_eq (s : S) (top : P) (head : headRef.load s = some top) :
    popNode L headRef s = (some top, L.setPrevIf (headRef.store s (L.next s top)) (L.next s top) none) := by
  simp only [popNode, head]
  rw [refApart.load_store]

omit apart in
theorem pop_node_load (s : S) (top : P) (head : headRef.load s = some top) (nextD : ∀ x ∈ L.next s top, D x) :
    headRef.load (popNode L headRef s).2 = L.next s top := by
  rw [pop_node_eq refApart s top head]
  cases following : L.next s top with
  | none => exact refApart.load_store s none
  | some x =>
      simp only [Links.setPrevIf]
      rw [refApart.load_setPrev _ _ _ (nextD x following), refApart.load_store]

theorem pop_node_next (s : S) (top b : P) (head : headRef.load s = some top) (inD : D b)
    (nextD : ∀ x ∈ L.next s top, D x) : L.next (popNode L headRef s).2 b = L.next s b := by
  rw [pop_node_eq refApart s top head, next_set_prev_if apart _ _ _ _ inD nextD, refApart.next_store _ _ _ inD]

theorem pop_node_prev (s : S) (top b : P) (head : headRef.load s = some top) (inD : D b)
    (nextD : ∀ x ∈ L.next s top, D x) :
    L.prev (popNode L headRef s).2 b = if L.next s top = some b then none else L.prev s b := by
  rw [pop_node_eq refApart s top head, prev_set_prev_if apart _ _ _ _ inD nextD (by simp),
    refApart.prev_store _ _ _ inD]

theorem pop_node_segment (s : S) (top : P) (rest : List P) (before : Option P)
    (segment : IsSegment (L.next s) (L.prev s) before (top :: rest) none) (head : headRef.load s = some top)
    (restD : ∀ x ∈ rest, D x) :
    IsDll (L.next (popNode L headRef s).2) (L.prev (popNode L headRef s).2) rest ∧
      headRef.load (popNode L headRef s).2 = rest.head? := by
  have following : L.next s top = rest.head? := (segment_links _ _ [] rest top before segment).2
  have nextD : ∀ x ∈ L.next s top, D x := segment_next_inside _ _ [] rest top before segment D restD
  refine ⟨?_, by rw [pop_node_load refApart s top head nextD, following]⟩
  apply segment_redirect_prev (L.next s) (L.prev s) _ _ rest _ none none
    (segment_right _ _ [top] rest before none segment)
  · intro y member
    rw [pop_node_prev apart refApart s top y head (restD y member) nextD, following]
  · intro y member
    exact pop_node_next apart refApart s top y head (restD y member) nextD

end Pop

section Unlink

theorem unlink_node_next (s : S) (node b : P) (nodeD : D node) (inD : D b) (other : b ≠ node)
    (nextD : ∀ x ∈ L.next s node, D x) (prevD : ∀ x ∈ L.prev s node, D x) :
    L.next (unlinkNode L node s) b = if L.prev s node = some b then L.next s node else L.next s b := by
  simp only [unlinkNode]
  rw [apart.next_setPrev _ _ _ _ nodeD inD, apart.next_setNext _ _ _ _ nodeD inD (by simp), if_neg other,
    next_set_next_if apart _ _ _ _ inD prevD nextD, next_set_prev_if apart _ _ _ _ inD nextD]

theorem unlink_node_prev (s : S) (node b : P) (nodeD : D node) (inD : D b) (other : b ≠ node)
    (nextD : ∀ x ∈ L.next s node, D x) (prevD : ∀ x ∈ L.prev s node, D x) :
    L.prev (unlinkNode L node s) b = if L.next s node = some b then L.prev s node else L.prev s b := by
  simp only [unlinkNode]
  rw [apart.prev_setPrev _ _ _ _ nodeD inD (by simp), if_neg other, apart.prev_setNext _ _ _ _ nodeD inD,
    prev_set_next_if apart _ _ _ _ inD prevD, prev_set_prev_if apart _ _ _ _ inD nextD prevD]

theorem unlink_node_segment (s : S) (front back : List P) (node : P) (before : Option P)
    (segment : IsSegment (L.next s) (L.prev s) before (front ++ node :: back) none)
    (inside : front = [] → before = none) (nodesD : ∀ x ∈ front ++ node :: back, D x) :
    IsSegment (L.next (unlinkNode L node s)) (L.prev (unlinkNode L node s)) before (front ++ back) none := by
  have seam := last_or_before front before inside
  obtain ⟨backward, forward⟩ := segment_links _ _ front back node before segment
  rw [seam] at backward
  obtain ⟨notFront, notBack, cross⟩ := split_apart front back node segment.1
  have nodeD : D node := nodesD node (by simp)
  obtain ⟨nextD, prevD⟩ := segment_neighbours _ _ front back node before segment inside D nodesD
  have frontOther (y : P) (member : y ∈ front) : y ≠ node := ne_of_mem_of_not_mem member notFront
  have backOther (y : P) (member : y ∈ back) : y ≠ node := ne_of_mem_of_not_mem member notBack
  have frontD (y : P) (member : y ∈ front) : D y := nodesD y (by simp [member])
  have backD (y : P) (member : y ∈ back) : D y := nodesD y (by simp [member])
  have crossFront (y : P) (member : y ∈ front) : back.head? ≠ some y :=
    fun same => cross y member (List.mem_of_mem_head? same)
  have crossBack (y : P) (member : y ∈ back) : front.getLast? ≠ some y :=
    fun same => cross y (List.mem_of_getLast? same) member
  apply segment_remove (L.next s) (L.prev s) _ _ front back node before segment
  · intro y member
    rw [unlink_node_next apart s node y nodeD (frontD y member) (frontOther y member) nextD prevD, backward, forward]
  · intro y member
    rw [unlink_node_prev apart s node y nodeD (frontD y member) (frontOther y member) nextD prevD, forward,
      if_neg (crossFront y member)]
  · intro y member
    rw [unlink_node_next apart s node y nodeD (backD y member) (backOther y member) nextD prevD, backward,
      if_neg (crossBack y member)]
  · intro y member
    rw [unlink_node_prev apart s node y nodeD (backD y member) (backOther y member) nextD prevD,
      backward, forward, seam]

theorem unlink_node_dll (s : S) (front back : List P) (node : P)
    (dll : IsDll (L.next s) (L.prev s) (front ++ node :: back)) (nodesD : ∀ x ∈ front ++ node :: back, D x) :
    IsDll (L.next (unlinkNode L node s)) (L.prev (unlinkNode L node s)) (front ++ back) :=
  unlink_node_segment apart s front back node none dll (fun _ => rfl) nodesD

theorem unlink_node_frame (s : S) (front back : List P) (node b : P)
    (dll : IsDll (L.next s) (L.prev s) (front ++ node :: back)) (nodesD : ∀ x ∈ front ++ node :: back, D x)
    (inD : D b) (outside : b ∉ front ++ node :: back) :
    L.next (unlinkNode L node s) b = L.next s b ∧ L.prev (unlinkNode L node s) b = L.prev s b := by
  have nodeD : D node := nodesD node (by simp)
  obtain ⟨nextD, prevD⟩ := is_dll_neighbours _ _ front back node dll D nodesD
  have others : ∀ y ∈ front ++ node :: back, y ≠ b := fun y member => ne_of_mem_of_not_mem member outside
  obtain ⟨offNext, offPrev⟩ := is_dll_neighbours _ _ front back node dll (· ≠ b) others
  have notNext : L.next s node ≠ some b := fun same => offNext b same rfl
  have notPrev : L.prev s node ≠ some b := fun same => offPrev b same rfl
  have other : b ≠ node := (others node (by simp)).symm
  rw [unlink_node_next apart s node b nodeD inD other nextD prevD,
    unlink_node_prev apart s node b nodeD inD other nextD prevD, if_neg notNext, if_neg notPrev]
  exact ⟨rfl, rfl⟩

end Unlink

section Remove

include refApart

omit apart in
theorem unlink_node_load (s : S) (node : P) (nodeD : D node) (nextD : ∀ x ∈ L.next s node, D x)
    (prevD : ∀ x ∈ L.prev s node, D x) : headRef.load (unlinkNode L node s) = headRef.load s := by
  simp only [unlinkNode]
  rw [refApart.load_setPrev _ _ _ nodeD, refApart.load_setNext _ _ _ nodeD]
  cases following : L.next s node with
  | none =>
      cases preceding : L.prev s node with
      | none => rfl
      | some y => exact refApart.load_setNext _ _ _ (prevD y preceding)
  | some x =>
      have kept : headRef.load (L.setPrev s x (L.prev s node)) = headRef.load s :=
        refApart.load_setPrev _ _ _ (nextD x following)
      cases preceding : L.prev s node with
      | none => simpa only [preceding, Links.setNextIf, Links.setPrevIf] using kept
      | some y =>
          rw [preceding] at kept
          exact (refApart.load_setNext _ _ _ (prevD y preceding)).trans kept

-- The head branch of `remove_node` is taken exactly when the node is the first of the
-- list; only there the back link of the head is lost.
theorem remove_node_segment (s : S) (front back : List P) (node : P) (before : Option P)
    (segment : IsSegment (L.next s) (L.prev s) before (front ++ node :: back) none)
    (head : headRef.load s = (front ++ node :: back).head?) (nodesD : ∀ x ∈ front ++ node :: back, D x) :
    IsSegment (L.next (removeNode L headRef node s)) (L.prev (removeNode L headRef node s))
        (if front = [] then none else before) (front ++ back) none ∧
      headRef.load (removeNode L headRef node s) = (front ++ back).head? := by
  cases front with
  | nil =>
      have first : headRef.load s = some node := by simpa using head
      rw [removeNode, if_pos first, if_pos rfl]
      exact pop_node_segment apart refApart s node back before segment
        first (fun x member => nodesD x (by simp [member]))
  | cons y front =>
      have notFront := (split_apart (y :: front) back node segment.1).1
      have first : headRef.load s = some y := by simpa using head
      have other : headRef.load s ≠ some node := by
        rw [first]
        exact fun same => notFront (Option.some.inj same ▸ List.mem_cons_self)
      rw [removeNode, if_neg other, if_neg (List.cons_ne_nil y front)]
      have inside : y :: front = [] → before = none := fun empty => absurd empty (List.cons_ne_nil y front)
      obtain ⟨nextD, prevD⟩ := segment_neighbours _ _ (y :: front) back node before segment inside D nodesD
      have kept := unlink_node_load refApart s node (nodesD node (by simp)) nextD prevD
      exact ⟨unlink_node_segment apart s (y :: front) back node before segment inside nodesD, by rw [kept, first]; rfl⟩

theorem remove_node_dll (s : S) (front back : List P) (node : P)
    (dll : IsDll (L.next s) (L.prev s) (front ++ node :: back)) (head : headRef.load s = (front ++ node :: back).head?)
    (nodesD : ∀ x ∈ front ++ node :: back, D x) :
    IsDll (L.next (removeNode L headRef node s)) (L.prev (removeNode L headRef node s)) (front ++ back) ∧
      headRef.load (removeNode L headRef node s) = (front ++ back).head? := by
  have removed := remove_node_segment apart refApart s front back node none dll head nodesD
  rw [ite_self] at removed
  exact removed

theorem remove_node_frame (s : S) (front back : List P) (node b : P)
    (dll : IsDll (L.next s) (L.prev s) (front ++ node :: back)) (nodesD : ∀ x ∈ front ++ node :: back, D x)
    (inD : D b) (outside : b ∉ front ++ node :: back) :
    L.next (removeNode L headRef node s) b = L.next s b ∧ L.prev (removeNode L headRef node s) b = L.prev s b := by
  have nextD := (is_dll_neighbours _ _ front back node dll D nodesD).1
  have others : ∀ y ∈ front ++ node :: back, y ≠ b := fun y member => ne_of_mem_of_not_mem member outside
  have notNext : L.next s node ≠ some b :=
    fun same => (is_dll_neighbours _ _ front back node dll (· ≠ b) others).1 b same rfl
  by_cases first : headRef.load s = some node
  · rw [removeNode, if_pos first, pop_node_next apart refApart s node b first inD nextD,
      pop_node_prev apart refApart s node b first inD nextD, if_neg notNext]
    exact ⟨rfl, rfl⟩
  · rw [removeNode, if_neg first]
    exact unlink_node_frame apart s front back node b dll nodesD inD outside

end Remove

section Insert

theorem insert_node_next (s : S) (before node b : P) (beforeD : D before) (nodeD : D node) (inD : D b)
    (nextD : ∀ x ∈ L.next s before, D x) (other : before ≠ node) :
    L.next (insertNode L before node s) b =
      if b = before then some node
      else if b = node then (L.next s before).or (L.next s node) else L.next s b := by
  simp only [insertNode]
  cases following : L.next s before with
  | none =>
      simp only [Option.none_or]
      rw [apart.next_setPrev _ _ _ _ nodeD inD, apart.next_setNext _ _ _ _ beforeD inD (by simpa using nodeD)]
      grind
  | some x =>
      have xD : D x := nextD x following
      simp only [Option.some_or]
      rw [apart.next_setPrev _ _ _ _ xD inD, apart.next_setNext _ _ _ _ nodeD inD (by simpa using xD),
        apart.next_setPrev _ _ _ _ nodeD inD, apart.next_setNext _ _ _ _ beforeD inD (by simpa using nodeD)]
      grind

theorem insert_node_prev (s : S) (before node b : P) (beforeD : D before) (nodeD : D node) (inD : D b)
    (nextD : ∀ x ∈ L.next s before, D x) :
    L.prev (insertNode L before node s) b =
      if L.next s before = some b then some node else if b = node then some before else L.prev s b := by
  simp only [insertNode]
  cases following : L.next s before with
  | none =>
      simp only [reduceCtorEq, if_false]
      rw [apart.prev_setPrev _ _ _ _ nodeD inD (by simpa using beforeD), apart.prev_setNext _ _ _ _ beforeD inD]
  | some x =>
      have xD : D x := nextD x following
      simp only [Option.some.injEq]
      rw [apart.prev_setPrev _ _ _ _ xD inD (by simpa using nodeD), apart.prev_setNext _ _ _ _ nodeD inD,
        apart.prev_setPrev _ _ _ _ nodeD inD (by simpa using beforeD), apart.prev_setNext _ _ _ _ beforeD inD]
      grind

theorem insert_node_segment (s : S) (front back : List P) (before node : P) (behind : Option P)
    (segment : IsSegment (L.next s) (L.prev s) behind (front ++ before :: back) none)
    (nodesD : ∀ x ∈ front ++ before :: back, D x) (nodeD : D node) (fresh : node ∉ front ++ before :: back)
    (ending : back = [] → L.next s node = none) :
    IsSegment (L.next (insertNode L before node s)) (L.prev (insertNode L before node s)) behind
      (front ++ before :: node :: back) none := by
  have forward := (segment_links _ _ front back before behind segment).2
  have beforeD : D before := nodesD before (by simp)
  have nextD := segment_next_inside _ _ front back before behind segment D (fun y member => nodesD y (by simp [member]))
  have split := List.append_cons front before back
  have frontIn (y : P) (member : y ∈ front ++ [before]) : y ∈ front ++ before :: back :=
    split ▸ List.mem_append_left back member
  have backIn (y : P) (member : y ∈ back) : y ∈ front ++ before :: back := by simp [member]
  have notNode (y : P) (member : y ∈ front ++ before :: back) : y ≠ node := ne_of_mem_of_not_mem member fresh
  have other : before ≠ node := notNode before (by simp)
  have cross : ∀ y ∈ front ++ [before], ∀ z ∈ back, y ≠ z := (List.nodup_append.mp (split ▸ segment.1)).2.2
  have notHead (y : P) (member : y ∈ front ++ [before]) : back.head? ≠ some y :=
    fun same => cross y member y (List.mem_of_mem_head? same) rfl
  have freshHead : back.head? ≠ some node := fun same => notNode node (backIn node (List.mem_of_mem_head? same)) rfl
  have inserted := segment_insert (L.next s) (L.prev s) (L.next (insertNode L before node s))
    (L.prev (insertNode L before node s)) (front ++ [before]) back node behind (by simpa using segment)
      (by simpa using fresh)
  rw [List.append_assoc] at inserted
  apply inserted
  · rw [insert_node_next apart s before node node beforeD nodeD nodeD nextD other, if_neg other.symm,
      if_pos rfl, forward]
    cases back with
    | nil => simpa using ending rfl
    | cons x back => rfl
  · rw [insert_node_prev apart s before node node beforeD nodeD nodeD nextD, forward, if_neg freshHead, if_pos rfl]
    simp
  · intro y member
    have inList := frontIn y member
    rw [insert_node_next apart s before node y beforeD nodeD (nodesD y inList) nextD other, if_neg (notNode y inList)]
    simp [eq_comm]
  · intro y member
    have inList := frontIn y member
    rw [insert_node_prev apart s before node y beforeD nodeD (nodesD y inList) nextD, forward,
      if_neg (notHead y member), if_neg (notNode y inList)]
  · intro y member
    have inList := backIn y member
    have notBefore : y ≠ before := (cross before (by simp) y member).symm
    rw [insert_node_next apart s before node y beforeD nodeD (nodesD y inList) nextD other, if_neg notBefore,
      if_neg (notNode y inList)]
  · intro y member
    have inList := backIn y member
    rw [insert_node_prev apart s before node y beforeD nodeD (nodesD y inList) nextD, forward,
      if_neg (notNode y inList)]

theorem insert_node_dll (s : S) (front back : List P) (before node : P)
    (dll : IsDll (L.next s) (L.prev s) (front ++ before :: back)) (nodesD : ∀ x ∈ front ++ before :: back, D x)
    (nodeD : D node) (fresh : node ∉ front ++ before :: back) (ending : back = [] → L.next s node = none) :
    IsDll (L.next (insertNode L before node s)) (L.prev (insertNode L before node s))
      (front ++ before :: node :: back) :=
  insert_node_segment apart s front back before node none dll nodesD nodeD fresh ending

theorem insert_node_frame (s : S) (front back : List P) (before node b : P)
    (dll : IsDll (L.next s) (L.prev s) (front ++ before :: back)) (nodesD : ∀ x ∈ front ++ before :: back, D x)
    (nodeD : D node) (fresh : node ∉ front ++ before :: back) (inD : D b) (other : b ≠ node)
    (outside : b ∉ front ++ before :: back) :
    L.next (insertNode L before node s) b = L.next s b ∧ L.prev (insertNode L before node s) b = L.prev s b := by
  have beforeD : D before := nodesD before (by simp)
  have nextD := (is_dll_neighbours _ _ front back before dll D nodesD).1
  have others : ∀ y ∈ front ++ before :: back, y ≠ b := fun y member => ne_of_mem_of_not_mem member outside
  have notNext : L.next s before ≠ some b :=
    fun same => (is_dll_neighbours _ _ front back before dll (· ≠ b) others).1 b same rfl
  have notBefore : b ≠ before := (others before (by simp)).symm
  have fromNode : before ≠ node := ne_of_mem_of_not_mem (by simp) fresh
  rw [insert_node_next apart s before node b beforeD nodeD inD nextD fromNode, if_neg notBefore, if_neg other,
    insert_node_prev apart s before node b beforeD nodeD inD nextD, if_neg notNext, if_neg other]
  exact ⟨rfl, rfl⟩

end Insert

end Node

section Simulation

variable {S S' P P' : Type}

-- The second state stores the same links and heads, under names of its own.
structure Links.Simulated (L : Links S P) (L' : Links S' P') (view : S → S') (embed : P' → P) : Prop where
  next : ∀ s p, L.next s (embed p) = (L'.next (view s) p).map embed
  prev : ∀ s p, L.prev s (embed p) = (L'.prev (view s) p).map embed
  setNext : ∀ s p v, view (L.setNext s (embed p) (v.map embed)) = L'.setNext (view s) p v
  setPrev : ∀ s p v, view (L.setPrev s (embed p) (v.map embed)) = L'.setPrev (view s) p v

structure HeadRef.Simulated (headRef : HeadRef S P) (headRef' : HeadRef S' P') (view : S → S')
    (embed : P' → P) : Prop where
  load : ∀ s, headRef.load s = (headRef'.load (view s)).map embed
  store : ∀ s v, view (headRef.store s (v.map embed)) = headRef'.store (view s) v

variable {L : Links S P} {L' : Links S' P'} {view : S → S'} {embed : P' → P} (same : L.Simulated L' view embed)

include same

theorem set_prev_if_simulated (s : S) (node value : Option P') :
    view (L.setPrevIf s (node.map embed) (value.map embed)) = L'.setPrevIf (view s) node value := by
  cases node with
  | none => rfl
  | some x => exact same.setPrev s x value

theorem set_next_if_simulated (s : S) (node value : Option P') :
    view (L.setNextIf s (node.map embed) (value.map embed)) = L'.setNextIf (view s) node value := by
  cases node with
  | none => rfl
  | some x => exact same.setNext s x value

theorem unlink_node_simulated (s : S) (node : P') :
    view (unlinkNode L (embed node) s) = unlinkNode L' node (view s) := by
  simp only [unlinkNode]
  rw [← Option.map_none embed, same.setPrev, same.setNext, same.next, same.prev, set_next_if_simulated same,
    set_prev_if_simulated same]

variable {headRef : HeadRef S P} {headRef' : HeadRef S' P'} (sameRef : headRef.Simulated headRef' view embed)

include sameRef

theorem push_node_simulated (s : S) (node : P') :
    view (pushNode L headRef (embed node) s) = pushNode L' headRef' node (view s) := by
  simp only [pushNode]
  rw [← Option.map_some, ← Option.map_none embed, sameRef.store, sameRef.load, sameRef.load, set_prev_if_simulated same,
    same.setPrev, same.setNext]

theorem pop_node_simulated (s : S) : view (popNode L headRef s).2 = (popNode L' headRef' (view s)).2 := by
  cases top : headRef'.load (view s) with
  | none =>
      have empty : headRef.load s = none := by rw [sameRef.load, top, Option.map_none]
      simp only [popNode, empty, top]
  | some x =>
      have head : headRef.load s = some (embed x) := by rw [sameRef.load, top, Option.map_some]
      simp only [popNode, head, top]
      rw [← Option.map_none embed, sameRef.load, set_prev_if_simulated same, same.next, sameRef.store]

theorem remove_node_simulated (injective : Function.Injective embed) [DecidableEq P] [DecidableEq P']
    (s : S) (node : P') :
    view (removeNode L headRef (embed node) s) = removeNode L' headRef' node (view s) := by
  have head : headRef.load s = some (embed node) ↔ headRef'.load (view s) = some node := by
    rw [sameRef.load, ← Option.map_some]
    exact (Option.map_injective injective).eq_iff
  by_cases first : headRef'.load (view s) = some node
  · rw [removeNode, removeNode, if_pos first, if_pos (head.mpr first)]
    exact pop_node_simulated same sameRef s
  · rw [removeNode, removeNode, if_neg first, if_neg (fun loaded => first (head.mp loaded))]
    exact unlink_node_simulated same s node

end Simulation

end X86OS
