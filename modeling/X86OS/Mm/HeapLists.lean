import X86OS.Mm.HeapLayout

set_option autoImplicit false

namespace X86OS.Heap

open Function Dll Mem

variable {σ : Type}

-- The list nodes in use: one in the header of every cell, and the free node of every
-- chunk that no client owns.
def Nodes (pages : List HeapPage) (a : Nat) : Prop :=
  a ∈ cells pages ∨ ∃ c ∈ chunks pages, c.status ≠ .used ∧ a = c.addr + headerSize

-- The bytes a client owns.
def ClientByte (pages : List HeapPage) (x : Nat) : Prop :=
  ∃ c ∈ chunks pages, c.status = .used ∧ c.addr + headerSize ≤ x ∧ x < c.addr + headerSize + c.size

-- The heap's own bytes: whatever lies in its pages and belongs to no client.
def Scratch (pages : List HeapPage) (x : Nat) : Prop :=
  (∃ p ∈ pages, p.base ≤ x ∧ x < p.base + pageSize) ∧ ¬ ClientByte pages x

-- A step that writes only the heap's own bytes and leaves the page allocator alone.
structure SameOutside (pages : List HeapPage) (h h' : State σ) : Prop where
  bytes : ∀ x, ¬ Scratch pages x → h'.mem x = h.mem x
  owner : h'.pages = h.pages

theorem same_outside_refl (pages : List HeapPage) (h : State σ) : SameOutside pages h h := ⟨fun _ _ => rfl, rfl⟩

theorem same_outside_trans (pages : List HeapPage) (h h' h'' : State σ) (first : SameOutside pages h h')
    (second : SameOutside pages h' h'') : SameOutside pages h h'' :=
  ⟨fun x outside => (second.bytes x outside).trans (first.bytes x outside), second.owner.trans first.owner⟩

theorem same_outside_congr (pages pages' : List HeapPage) (h h' : State σ)
    (same : ∀ x, Scratch pages x → Scratch pages' x) (step : SameOutside pages h h') : SameOutside pages' h h' :=
  ⟨fun x outside => step.bytes x (fun inside => outside (same x inside)), step.owner⟩

section Geometry

variable {pages : List HeapPage} (distinct : (pages.map HeapPage.base).Nodup)

include distinct

omit distinct in
theorem node_home (a : Nat) (node : Nodes pages a) :
    ∃ e ∈ extents pages, (a = e.1 ∨ a = e.1 + headerSize) ∧ a + 8 ≤ e.1 + e.2 := by
  rcases node with cell | ⟨c, member, -, rfl⟩
  · obtain ⟨n, extent⟩ := (mem_cells pages a).mp cell
    have bounds := extent_bounds pages _ extent
    simp only [sizeofChunk] at bounds
    exact ⟨_, extent, .inl rfl, by simp only; omega⟩
  · have extent := chunk_extent pages c member
    have bounds := extent_bounds pages _ extent
    simp only [sizeofChunk, headerSize] at bounds
    exact ⟨_, extent, .inr rfl, by simp only [headerSize]; omega⟩

theorem free_node_not_cell (c : Chunk) (member : c ∈ chunks pages) : c.addr + headerSize ∉ cells pages := by
  intro cell
  obtain ⟨n, extent⟩ := (mem_cells pages _).mp cell
  have extentC := chunk_extent pages c member
  have bounds := extent_bounds pages _ extent
  have boundsC := extent_bounds pages _ extentC
  have other : ((c.addr + headerSize, n) : Nat × Nat) ≠ (c.addr, headerSize + c.size) := by simp [headerSize]
  have apart := extents_disjoint pages distinct _ _ extent extentC other
  simp only [Disjoint, headerSize, sizeofChunk] at apart bounds boundsC
  omega

theorem nodes_spaced (a b : Nat) (nodeA : Nodes pages a) (nodeB : Nodes pages b) (other : a ≠ b) :
    a + 8 ≤ b ∨ b + 8 ≤ a := by
  obtain ⟨e, extentA, placeA, roomA⟩ := node_home a nodeA
  obtain ⟨e', extentB, placeB, roomB⟩ := node_home b nodeB
  by_cases same : e = e'
  · subst same
    simp only [headerSize] at placeA placeB
    omega
  · have apart := extents_disjoint pages distinct e e' extentA extentB same
    simp only [Disjoint] at apart
    omega

omit distinct in
theorem node_word (a : Nat) (node : Nodes pages a) : a ≠ 0 ∧ a < 2 ^ 32 := by
  obtain ⟨e, extent, place, room⟩ := node_home a node
  have bounds := extent_bounds pages e extent
  simp only [kernelVirtualBase] at bounds
  omega

omit distinct in
theorem to_ptr_node (v : Option Nat) (nodes : ∀ x ∈ v, Nodes pages x) : toPtr (v.getD 0) = v ∧ v.getD 0 < 2 ^ 32 := by
  cases v with
  | none => simp [toPtr]
  | some x =>
      obtain ⟨nonzero, small⟩ := node_word x (nodes x rfl)
      exact ⟨if_neg nonzero, small⟩

theorem links_apart : (links (σ := σ)).Apart (Nodes pages) where
  next_setNext h a v b nodeA nodeB nodeV := by
    obtain ⟨stored, small⟩ := to_ptr_node v nodeV
    by_cases same : b = a
    · subst same
      rw [if_pos rfl]
      simp only [links]
      rw [write_word_here _ _ _ small, stored]
    · rw [if_neg same]
      simp only [links]
      have spaced := nodes_spaced distinct a b nodeA nodeB (Ne.symm same)
      rw [write_word_elsewhere _ _ _ _ (by omega)]
  prev_setNext h a v b nodeA nodeB := by
    simp only [links]
    by_cases same : b = a
    · rw [write_word_elsewhere _ _ _ _ (by omega)]
    · have spaced := nodes_spaced distinct a b nodeA nodeB (Ne.symm same)
      rw [write_word_elsewhere _ _ _ _ (by omega)]
  next_setPrev h a v b nodeA nodeB := by
    simp only [links]
    by_cases same : b = a
    · rw [write_word_elsewhere _ _ _ _ (by omega)]
    · have spaced := nodes_spaced distinct a b nodeA nodeB (Ne.symm same)
      rw [write_word_elsewhere _ _ _ _ (by omega)]
  prev_setPrev h a v b nodeA nodeB nodeV := by
    obtain ⟨stored, small⟩ := to_ptr_node v nodeV
    by_cases same : b = a
    · subst same
      rw [if_pos rfl]
      simp only [links]
      rw [write_word_here _ _ _ small, stored]
    · rw [if_neg same]
      simp only [links]
      have spaced := nodes_spaced distinct a b nodeA nodeB (Ne.symm same)
      rw [write_word_elsewhere _ _ _ _ (by omega)]

omit distinct in
theorem bucket_apart (i : Nat) : (bucketRef (σ := σ) i).Apart links (Nodes pages) where
  load_store _ _ := update_self ..
  load_setNext _ _ _ _ := rfl
  load_setPrev _ _ _ _ := rfl
  next_store _ _ _ _ := rfl
  prev_store _ _ _ _ := rfl

theorem header_scratch (a x : Nat) (cell : a ∈ cells pages) (low : a ≤ x) (high : x < a + headerSize) :
    Scratch pages x := by
  obtain ⟨n, extent⟩ := (mem_cells pages a).mp cell
  have bounds := extent_bounds pages _ extent
  simp only [sizeofChunk, headerSize] at bounds high
  obtain ⟨p, inPages, inP⟩ := List.mem_flatMap.mp extent
  have inside := p.extent_inside _ inP
  simp only [sizeofChunk] at inside
  refine ⟨⟨p, inPages, by omega, by omega⟩, ?_⟩
  rintro ⟨c, member, -, lowC, highC⟩
  simp only [headerSize] at lowC highC
  have extentC := chunk_extent pages c member
  by_cases same : ((a, n) : Nat × Nat) = (c.addr, headerSize + c.size)
  · simp only [Prod.mk.injEq] at same
    omega
  · have apart := extents_disjoint pages distinct _ _ extent extentC same
    simp only [Disjoint, headerSize] at apart
    omega

theorem chunk_scratch (c : Chunk) (x : Nat) (member : c ∈ chunks pages) (unowned : c.status ≠ .used)
    (low : c.addr ≤ x) (high : x < c.addr + headerSize + c.size) : Scratch pages x := by
  obtain ⟨p, inPages, inP⟩ := List.mem_flatMap.mp member
  have bounds := laid_bounds _ _ _ p.laid c inP
  refine ⟨⟨p, inPages, by omega, by simp only [pageSize] at bounds ⊢; omega⟩, ?_⟩
  rintro ⟨d, memberD, used, lowD, highD⟩
  by_cases same : ((c.addr, headerSize + c.size) : Nat × Nat) = (d.addr, headerSize + d.size)
  · have equal := chunk_unique pages distinct c d member memberD (congrArg Prod.fst same)
    rw [equal] at unowned
    exact unowned used
  · have apart := extents_disjoint pages distinct _ _ (chunk_extent pages c member) (chunk_extent pages d memberD) same
    simp only [Disjoint] at apart
    omega

theorem node_scratch (a x : Nat) (node : Nodes pages a) (low : a ≤ x) (high : x < a + 8) : Scratch pages x := by
  rcases node with cell | ⟨c, member, unowned, rfl⟩
  · exact header_scratch distinct a x cell low (by simp only [headerSize]; omega)
  · have bounds := extent_bounds pages _ (chunk_extent pages c member)
    simp only [sizeofChunk] at bounds
    exact chunk_scratch distinct c x member unowned (by omega) (by simp only [headerSize] at bounds high ⊢; omega)

theorem set_next_outside (x : Nat) (outside : ¬ Scratch pages x) (h : State σ) (a : Nat) (v : Option Nat)
    (node : Nodes pages a) :
    (links.setNext h a v).mem x = h.mem x := by
  apply write_word_frame
  by_contra inside
  exact outside (node_scratch distinct a x node (by omega) (by omega))

theorem set_prev_outside (x : Nat) (outside : ¬ Scratch pages x) (h : State σ) (a : Nat) (v : Option Nat)
    (node : Nodes pages a) :
    (links.setPrev h a v).mem x = h.mem x := by
  apply write_word_frame
  by_contra inside
  exact outside (node_scratch distinct a x node (by omega) (by omega))

theorem used_byte_apart (a b : Nat) (cell : a ∈ cells pages) (node : Nodes pages b) :
    a + usedOffset < b ∨ b + 8 ≤ a + usedOffset := by
  obtain ⟨n, extentA⟩ := (mem_cells pages a).mp cell
  obtain ⟨e, extentB, placeB, roomB⟩ := node_home b node
  have bounds := extent_bounds pages _ extentA
  simp only [sizeofChunk, usedOffset] at bounds ⊢
  by_cases same : e = (a, n)
  · subst same
    simp only [headerSize] at placeB
    omega
  · have apart := extents_disjoint pages distinct _ _ extentB extentA same
    simp only [Disjoint] at apart
    omega

theorem set_next_used (a : Nat) (cell : a ∈ cells pages) (h : State σ) (b : Nat) (v : Option Nat)
    (node : Nodes pages b) :
    (links.setNext h b v).mem (a + usedOffset) = h.mem (a + usedOffset) := by
  have apart := used_byte_apart distinct a b cell node
  exact write_word_frame _ _ _ _ (by omega)

theorem set_prev_used (a : Nat) (cell : a ∈ cells pages) (h : State σ) (b : Nat) (v : Option Nat)
    (node : Nodes pages b) :
    (links.setPrev h b v).mem (a + usedOffset) = h.mem (a + usedOffset) := by
  have apart := used_byte_apart distinct a b cell node
  exact write_word_frame _ _ _ _ (by omega)

theorem set_used_links (a b : Nat) (value : Bool) (cell : a ∈ cells pages) (node : Nodes pages b) (h : State σ) :
    links.next (setUsed a value h) b = links.next h b ∧ links.prev (setUsed a value h) b = links.prev h b := by
  have apart := used_byte_apart distinct a b cell node
  simp only [links, setUsed]
  rw [write_byte_elsewhere _ _ _ _ (by omega), write_byte_elsewhere _ _ _ _ (by omega)]
  exact ⟨rfl, rfl⟩

theorem set_used_outside (a : Nat) (value : Bool) (cell : a ∈ cells pages) (h : State σ) :
    SameOutside pages h (setUsed a value h) := by
  refine ⟨?_, rfl⟩
  intro x outside
  apply write_byte_frame
  rintro rfl
  exact outside (header_scratch distinct a _ cell (by omega) (by simp [usedOffset, headerSize]))

end Geometry

end X86OS.Heap
