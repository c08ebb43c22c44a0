import X86OS.Mm.HeapLists

set_option autoImplicit false

namespace X86OS.Heap

open Function Dll Mem

variable {σ : Type}

-- What the `used` byte of a chunk says.
def StatusOk : Status → UInt8 → Prop
  | .free, byte => byte = 0
  | .used, byte => byte = 1
  | .hand, _ => True

def bucketIndex (size : Nat) : Nat := logTwo size - orderOffset

def FreeNode (pages : List HeapPage) (i x : Nat) : Prop :=
  ∃ c ∈ chunks pages, c.status = .free ∧ bucketIndex c.size = i ∧ x = c.addr + headerSize

-- Every bucket is the list of the free chunks of its sizes.
def Buckets (h : State σ) (pages : List HeapPage) : Prop :=
  ∀ i, i < numSizes → ∃ nodes, IsDll (links.next h) (links.prev h) nodes ∧ h.freeBucket i = nodes.head? ∧
    ∀ x, x ∈ nodes ↔ FreeNode pages i x

-- Everything the state says about the pages except how the cells are chained.
structure Body (h : State σ) (pages : List HeapPage) : Prop where
  distinct : (pages.map HeapPage.base).Nodup
  ends : ∀ p ∈ pages, h.mem (p.base + usedOffset) = 1 ∧ h.mem (p.last + usedOffset) = 1
  flags : ∀ c ∈ chunks pages, StatusOk c.status (h.mem (c.addr + usedOffset))
  buckets : Buckets h pages

-- The state represents the pages.
structure Rep (h : State σ) (pages : List HeapPage) : Prop extends Body h pages where
  all : IsDll (links.next h) (links.prev h) (cells pages)
  first : h.first = (cells pages).head?
  last : h.last = (cells pages).getLast?

-- The cells before and after a run of chunks of the page `p`.
def frontCells (before : List HeapPage) (p : HeapPage) (left : List Chunk) : List Nat :=
  cells before ++ p.base :: left.map Chunk.addr

def backCells (p : HeapPage) (right : List Chunk) (after : List HeapPage) : List Nat :=
  right.map Chunk.addr ++ p.last :: cells after

section Places

variable (before after : List HeapPage) (p : HeapPage) (left mid right : List Chunk)
  (split : p.chunks = left ++ mid ++ right)

include split

theorem cells_at : cells (before ++ p :: after) =
    frontCells before p left ++ (mid.map Chunk.addr ++ backCells p right after) := by
  simp [cells, frontCells, backCells, HeapPage.cells, split]

theorem mem_chunks_at (c : Chunk) : c ∈ chunks (before ++ p :: after) ↔
    c ∈ mid ∨ c ∈ chunks before ∨ c ∈ left ∨ c ∈ right ∨ c ∈ chunks after := by
  simp only [chunks, List.flatMap_append, List.flatMap_cons, List.mem_append, split]
  tauto

end Places

theorem front_cells_head (before : List HeapPage) (p : HeapPage) (left : List Chunk) (rest rest' : List Nat) :
    (frontCells before p left ++ rest).head? = (frontCells before p left ++ rest').head? := by
  have nonempty : frontCells before p left ≠ [] := by simp [frontCells]
  rw [List.head?_append_of_ne_nil _ nonempty, List.head?_append_of_ne_nil _ nonempty]

theorem back_cells_last (p : HeapPage) (right : List Chunk) (after : List HeapPage) (front front' : List Nat) :
    (front ++ backCells p right after).getLast? = (front' ++ backCells p right after).getLast? := by
  have nonempty : backCells p right after ≠ [] := by simp [backCells]
  rw [List.getLast?_append_of_ne_nil _ nonempty, List.getLast?_append_of_ne_nil _ nonempty]

theorem page_cells (pages : List HeapPage) (p : HeapPage) (member : p ∈ pages) :
    p.base ∈ cells pages ∧ p.last ∈ cells pages := by
  simp only [cells, List.mem_flatMap]
  exact ⟨⟨p, member, by simp [HeapPage.cells]⟩, ⟨p, member, by simp [HeapPage.cells]⟩⟩

theorem chunk_cell (pages : List HeapPage) (c : Chunk) (member : c ∈ chunks pages) : c.addr ∈ cells pages :=
  (mem_cells pages c.addr).mpr ⟨_, chunk_extent pages c member⟩

section Edit

variable (before after : List HeapPage) (p p' : HeapPage) (left mid mid' right : List Chunk)
variable (split : p.chunks = left ++ mid ++ right) (split' : p'.chunks = left ++ mid' ++ right)
  (base : p'.base = p.base)

include base split' in
theorem cells_edit : cells (before ++ p' :: after) =
    frontCells before p left ++ (mid'.map Chunk.addr ++ backCells p right after) := by
  have lastEq : p'.last = p.last := by simp only [HeapPage.last, base]
  rw [cells_at before after p' left mid' right split']
  simp only [frontCells, backCells, base, lastEq]

include split

theorem outer_cell (distinct : ((before ++ p :: after).map HeapPage.base).Nodup) (a : Nat)
    (outer : a ∈ frontCells before p left ∨ a ∈ backCells p right after) :
    a ∈ cells (before ++ p :: after) ∧ a ∉ mid.map Chunk.addr := by
  have nodup := cells_nodup _ distinct
  rw [cells_at before after p left mid right split] at nodup ⊢
  rw [List.nodup_append, List.nodup_append] at nodup
  refine ⟨by simp only [List.mem_append]; tauto, ?_⟩
  intro inMid
  rcases outer with inFront | inBack
  · exact nodup.2.2 a inFront a (List.mem_append_left _ inMid) rfl
  · exact nodup.2.1.2.2 a inMid a inBack rfl

omit split in
theorem rest_outer (c : Chunk) (rest : c ∈ chunks before ∨ c ∈ left ∨ c ∈ right ∨ c ∈ chunks after) :
    c.addr ∈ frontCells before p left ∨ c.addr ∈ backCells p right after := by
  rcases rest with inBefore | inLeft | inRight | inAfter
  · exact .inl (by simp [frontCells, chunk_cell before c inBefore])
  · exact .inl
      (by simp only [frontCells, List.mem_append, List.mem_cons, List.mem_map]; exact .inr (.inr ⟨c, inLeft, rfl⟩))
  · exact .inr (by simp only [backCells, List.mem_append, List.mem_map]; exact .inl ⟨c, inRight, rfl⟩)
  · exact .inr (by simp [backCells, chunk_cell after c inAfter])

theorem body_edit (h h' : State σ) (split' : p'.chunks = left ++ mid' ++ right) (base : p'.base = p.base)
    (body : Body h (before ++ p :: after))
    (kept : ∀ a, a ∈ frontCells before p left ∨ a ∈ backCells p right after →
      h'.mem (a + usedOffset) = h.mem (a + usedOffset))
    (flags : ∀ c ∈ mid', StatusOk c.status (h'.mem (c.addr + usedOffset)))
    (buckets : Buckets h' (before ++ p' :: after)) : Body h' (before ++ p' :: after) := by
  have lastEq : p'.last = p.last := by simp only [HeapPage.last, base]
  refine ⟨by simpa [base] using body.distinct, ?_, ?_, buckets⟩
  · intro q member
    have old (r : HeapPage) (inPages : r ∈ before ++ p :: after)
        (front : r.base ∈ frontCells before p left ∨ r.base ∈ backCells p right after)
        (back : r.last ∈ frontCells before p left ∨ r.last ∈ backCells p right after) :
        h'.mem (r.base + usedOffset) = 1 ∧ h'.mem (r.last + usedOffset) = 1 := by
      rw [kept _ front, kept _ back]
      exact body.ends r inPages
    rcases List.mem_append.mp member with inBefore | rest
    · obtain ⟨baseCell, lastCell⟩ := page_cells before q inBefore
      exact old q (by simp [inBefore]) (.inl (by simp [frontCells, baseCell])) (.inl (by simp [frontCells, lastCell]))
    · rcases List.mem_cons.mp rest with rfl | inAfter
      · rw [base, lastEq]
        exact old p (by simp) (.inl (by simp [frontCells])) (.inr (by simp [backCells]))
      · obtain ⟨baseCell, lastCell⟩ := page_cells after q inAfter
        exact old q (by simp [inAfter]) (.inr (by simp [backCells, baseCell])) (.inr (by simp [backCells, lastCell]))
  · intro c member
    rcases (mem_chunks_at before after p' left mid' right split' c).mp member with inMid | rest
    · exact flags c inMid
    · rw [kept _ (rest_outer before after p left right c rest)]
      exact body.flags c ((mem_chunks_at before after p left mid right split c).mpr (.inr rest))

theorem rep_edit (h h' : State σ) (split' : p'.chunks = left ++ mid' ++ right) (base : p'.base = p.base)
    (rep : Rep h (before ++ p :: after)) (body : Body h' (before ++ p' :: after))
    (sameFirst : h'.first = h.first) (sameLast : h'.last = h.last)
    (all : IsDll (links.next h') (links.prev h') (cells (before ++ p' :: after))) : Rep h' (before ++ p' :: after) := by
  have cellsEq := cells_at before after p left mid right split
  have cellsEq' := cells_edit before after p p' left mid' right split' base
  refine ⟨body, all, ?_, ?_⟩
  · rw [sameFirst, rep.first, cellsEq, cellsEq']
    exact front_cells_head before p left _ _
  · rw [sameLast, rep.last, cellsEq, cellsEq', ← List.append_assoc, ← List.append_assoc]
    exact back_cells_last p right after _ _

include split'

theorem free_node_edit (busy : ∀ c ∈ mid, c.status ≠ .free) (busy' : ∀ c ∈ mid', c.status ≠ .free) (i x : Nat) :
    FreeNode (before ++ p' :: after) i x ↔ FreeNode (before ++ p :: after) i x := by
  simp only [FreeNode, mem_chunks_at before after p left mid right split,
    mem_chunks_at before after p' left mid' right split']
  constructor
  · rintro ⟨c, inMid | rest, free, index, rfl⟩
    · exact absurd free (busy' c inMid)
    · exact ⟨c, .inr rest, free, index, rfl⟩
  · rintro ⟨c, inMid | rest, free, index, rfl⟩
    · exact absurd free (busy c inMid)
    · exact ⟨c, .inr rest, free, index, rfl⟩

theorem scratch_edit (base : p'.base = p.base) (unowned : ∀ c ∈ mid, c.status ≠ .used)
    (unowned' : ∀ c ∈ mid', c.status ≠ .used) (x : Nat) :
    Scratch (before ++ p' :: after) x ↔ Scratch (before ++ p :: after) x := by
  have client : ClientByte (before ++ p' :: after) x ↔ ClientByte (before ++ p :: after) x := by
    simp only [ClientByte, mem_chunks_at before after p left mid right split,
      mem_chunks_at before after p' left mid' right split']
    constructor
    · rintro ⟨c, inMid | rest, used, range⟩
      · exact absurd used (unowned' c inMid)
      · exact ⟨c, .inr rest, used, range⟩
    · rintro ⟨c, inMid | rest, used, range⟩
      · exact absurd used (unowned c inMid)
      · exact ⟨c, .inr rest, used, range⟩
  have inPage : (∃ q ∈ before ++ p' :: after, q.base ≤ x ∧ x < q.base + pageSize) ↔
      ∃ q ∈ before ++ p :: after, q.base ≤ x ∧ x < q.base + pageSize := by
    simp only [List.mem_append, List.mem_cons, or_and_right, exists_or, exists_eq_left, base]
  rw [Scratch, Scratch, client, inPage]

end Edit

theorem free_node_nodes (pages : List HeapPage) (i x : Nat) (node : FreeNode pages i x) : Nodes pages x := by
  obtain ⟨c, member, free, -, rfl⟩ := node
  exact .inr ⟨c, member, by rw [free]; decide, rfl⟩

theorem free_node_outside (pages : List HeapPage) (distinct : (pages.map HeapPage.base).Nodup) (i x : Nat)
    (node : FreeNode pages i x) : x ∉ cells pages := by
  obtain ⟨c, member, -, -, rfl⟩ := node
  exact free_node_not_cell distinct c member

theorem free_node_index (pages : List HeapPage) (distinct : (pages.map HeapPage.base).Nodup) (i j x : Nat)
    (node : FreeNode pages i x) (node' : FreeNode pages j x) : i = j := by
  obtain ⟨c, member, -, index, addr⟩ := node
  obtain ⟨d, member', -, index', addr'⟩ := node'
  rw [← index, ← index', chunk_unique pages distinct c d member member' (by omega)]

theorem buckets_congr (h h' : State σ) (pages pages' : List HeapPage) (buckets : Buckets h pages)
    (same : h'.freeBucket = h.freeBucket) (free : ∀ i x, FreeNode pages' i x ↔ FreeNode pages i x)
    (kept : ∀ i x, FreeNode pages i x → links.next h' x = links.next h x ∧ links.prev h' x = links.prev h x) :
    Buckets h' pages' := by
  intro i small
  obtain ⟨nodes, dll, head, members⟩ := buckets i small
  refine ⟨nodes, is_dll_congr _ _ _ _ nodes dll ?_, by rw [same, head], ?_⟩
  · intro x member
    exact kept i x ((members x).mp member)
  · intro x
    rw [members x, free i x]

theorem other_buckets (h h' : State σ) (pages pages' : List HeapPage) (k : Nat) (buckets : Buckets h pages)
    (heads : ∀ i, i ≠ k → h'.freeBucket i = h.freeBucket i)
    (kept : ∀ i x, i ≠ k → FreeNode pages i x → links.next h' x = links.next h x ∧ links.prev h' x = links.prev h x)
    (free : ∀ i x, i ≠ k → (FreeNode pages' i x ↔ FreeNode pages i x))
    (own : ∃ nodes, IsDll (links.next h') (links.prev h') nodes ∧ h'.freeBucket k = nodes.head? ∧
      ∀ x, x ∈ nodes ↔ FreeNode pages' k x) : Buckets h' pages' := by
  intro i small
  by_cases same : i = k
  · exact same ▸ own
  · obtain ⟨nodes, dll, head, members⟩ := buckets i small
    refine ⟨nodes, is_dll_congr _ _ _ _ nodes dll ?_, by rw [heads i same, head], ?_⟩
    · intro x member
      exact kept i x same ((members x).mp member)
    · intro x
      rw [members x, free i x same]

-- The list of the bucket `i`, in order.
def ListAt (h : State σ) (i : Nat) (nodes : List Nat) : Prop :=
  IsDll (links.next h) (links.prev h) nodes ∧ h.freeBucket i = nodes.head?

-- What a step makes of the lists of the buckets.
def Relists (edit : Nat → List Nat → List Nat) (h h' : State σ) : Prop :=
  ∀ i, i < numSizes → ∀ nodes, ListAt h i nodes → ListAt h' i (edit i nodes)

abbrev SameLists (h h' : State σ) : Prop := Relists (fun _ nodes => nodes) h h'

def pushed (k node i : Nat) (nodes : List Nat) : List Nat := if i = k then node :: nodes else nodes

def removed (k node i : Nat) (nodes : List Nat) : List Nat := if i = k then nodes.erase node else nodes

theorem relists_trans {f g : Nat → List Nat → List Nat} {h h' h'' : State σ} (first : Relists f h h')
    (second : Relists g h' h'') :
    Relists (fun i nodes => g i (f i nodes)) h h'' :=
  fun i small nodes list => second i small _ (first i small nodes list)

theorem relists_same {f : Nat → List Nat → List Nat} {h h' h'' : State σ} (step : Relists f h h')
    (same : SameLists h' h'') :
    Relists f h h'' :=
  fun i small nodes list => same i small _ (step i small nodes list)

theorem same_relists {f : Nat → List Nat → List Nat} {h h' h'' : State σ} (same : SameLists h h')
    (step : Relists f h' h'') :
    Relists f h h'' :=
  fun i small nodes list => step i small nodes (same i small nodes list)

theorem list_at_unique (h : State σ) (i : Nat) (nodes nodes' : List Nat) (list : ListAt h i nodes)
    (list' : ListAt h i nodes') :
    nodes = nodes' :=
  segment_unique _ _ nodes nodes' none none list.1 list'.1 (list.2.symm.trans list'.2)

theorem list_at_members (h : State σ) (pages : List HeapPage) (i : Nat) (nodes : List Nat) (buckets : Buckets h pages)
    (small : i < numSizes) (list : ListAt h i nodes) (x : Nat) : x ∈ nodes ↔ FreeNode pages i x := by
  obtain ⟨nodes', dll, head, members⟩ := buckets i small
  rw [list_at_unique h i nodes nodes' list ⟨dll, head⟩]
  exact members x

theorem list_kept (h h' : State σ) (pages : List HeapPage) (i : Nat) (nodes : List Nat) (buckets : Buckets h pages)
    (small : i < numSizes) (list : ListAt h i nodes) (head : h'.freeBucket i = h.freeBucket i)
    (kept : ∀ x, FreeNode pages i x → links.next h' x = links.next h x ∧ links.prev h' x = links.prev h x) :
    ListAt h' i nodes :=
  ⟨is_dll_congr _ _ _ _ nodes list.1
    (fun x member => kept x ((list_at_members h pages i nodes buckets small list x).mp member)),
    head.trans list.2⟩

theorem lists_congr (h h' : State σ) (pages : List HeapPage) (buckets : Buckets h pages)
    (same : h'.freeBucket = h.freeBucket)
    (kept : ∀ i x, FreeNode pages i x → links.next h' x = links.next h x ∧ links.prev h' x = links.prev h x) :
    SameLists h h' :=
  fun i small nodes list => list_kept h h' pages i nodes buckets small list (by rw [same]) (kept i)

end X86OS.Heap
