import X86OS.Mm.HeapSteps

set_option autoImplicit false

namespace X86OS.Heap

open Function Dll Mem

variable {σ : Type}

theorem bucket_index_small (size : Nat) (bound : size < 2 ^ 12) : bucketIndex size < numSizes := by
  simp only [bucketIndex, logTwo, orderOffset, numSizes]
  by_cases zero : size = 0
  · simp [zero]
  · have := (Nat.log2_lt zero).mpr bound
    omega

theorem chunk_size_small (pages : List HeapPage) (c : Chunk) (member : c ∈ chunks pages) : c.size ≤ 4044 := by
  obtain ⟨p, -, inP⟩ := List.mem_flatMap.mp member
  have bounds := laid_bounds _ _ _ p.laid c inP
  simp only [sizeofChunk, headerSize, pageSize] at bounds
  omega

-- The links of the cells, the ends of the list and every byte outside the heap's own
-- bytes are as before.
structure Kept (pages : List HeapPage) (h h' : State σ) : Prop where
  links : ∀ a ∈ cells pages, links.next h' a = links.next h a ∧ links.prev h' a = links.prev h a
  first : h'.first = h.first
  last : h'.last = h.last
  outside : SameOutside pages h h'

-- What an edit of bucket `k` leaves alone that writes links and the head of the bucket only.
structure OtherKept (pages : List HeapPage) (k : Nat) (h h' : State σ) : Prop where
  used : ∀ a ∈ cells pages, h'.mem (a + usedOffset) = h.mem (a + usedOffset)
  heads : ∀ i, i ≠ k → h'.freeBucket i = h.freeBucket i
  first : h'.first = h.first
  last : h'.last = h.last
  outside : SameOutside pages h h'

theorem other_kept (pages : List HeapPage) (distinct : (pages.map HeapPage.base).Nodup) (k : Nat) (h h' : State σ)
    (keeps : ∀ {α : Type} (view : State σ → α), (∀ h a v, Nodes pages a → view (links.setNext h a v) = view h) →
      (∀ h a v, Nodes pages a → view (links.setPrev h a v) = view h) →
      (∀ h v, view ((bucketRef k).store h v) = view h) → view h' = view h) : OtherKept pages k h h' where
  used a cell := keeps (fun h => h.mem (a + usedOffset)) (fun h b v => set_next_used distinct a cell h b v)
    (fun h b v => set_prev_used distinct a cell h b v) (fun _ _ => rfl)
  heads i other :=
    keeps (fun h => h.freeBucket i) (fun _ _ _ _ => rfl) (fun _ _ _ _ => rfl) (fun h v => by simp [bucketRef, other])
  first := keeps State.first (fun _ _ _ _ => rfl) (fun _ _ _ _ => rfl) (fun _ _ => rfl)
  last := keeps State.last (fun _ _ _ _ => rfl) (fun _ _ _ _ => rfl) (fun _ _ => rfl)
  outside :=
    ⟨fun x outside => keeps (fun h => h.mem x) (fun h a v => set_next_outside distinct x outside h a v)
      (fun h a v => set_prev_outside distinct x outside h a v) (fun _ _ => rfl),
    keeps State.pages (fun _ _ _ _ => rfl) (fun _ _ _ _ => rfl) (fun _ _ => rfl)⟩

section Edits

variable {h : State σ} {before after : List HeapPage} {p p' : HeapPage} {left right : List Chunk} {c : Chunk}
variable (split : p.chunks = left ++ [c] ++ right)

include split

theorem chunk_here : c ∈ chunks (before ++ p :: after) :=
  (mem_chunks_at before after p left [c] right split c).mpr (.inl (by simp))

theorem rep_kept (rep : Rep h (before ++ p :: after)) {h' : State σ} {c' : Chunk}
    (body : Body h' (before ++ p' :: after)) (kept : Kept (before ++ p :: after) h h') (base : p'.base = p.base)
    (split' : p'.chunks = left ++ [c'] ++ right) (addr : c'.addr = c.addr) : Rep h' (before ++ p' :: after) := by
  apply rep_edit before after p p' left [c] [c'] right split h h' split' base rep body kept.first kept.last
  have sameCells : cells (before ++ p' :: after) = cells (before ++ p :: after) := by
    rw [cells_edit before after p p' left [c'] right split' base, cells_at before after p left [c] right split]
    simp only [List.map_cons, List.map_nil, addr]
  rw [sameCells]
  exact is_dll_congr _ _ _ _ _ rep.all kept.links

theorem body_unbucket (body : Body h (before ++ p :: after)) (free : c.status = .free) (base : p'.base = p.base)
    (split' : p'.chunks = left ++ [{ c with status := .hand }] ++ right) :
    Body (removeNode links (bucketRef (bucketIndex c.size)) (c.addr + headerSize) h) (before ++ p' :: after) ∧
      Kept (before ++ p :: after) h (removeNode links (bucketRef (bucketIndex c.size)) (c.addr + headerSize) h) ∧
      Relists (removed (bucketIndex c.size) (c.addr + headerSize)) h
        (removeNode links (bucketRef (bucketIndex c.size)) (c.addr + headerSize) h) := by
  have member : c ∈ chunks (before ++ p :: after) := chunk_here split
  have distinct := body.distinct
  have apart := links_apart (σ := σ) distinct
  have refApart : (bucketRef (σ := σ) (bucketIndex c.size)).Apart links (Nodes (before ++ p :: after)) := bucket_apart _
  have small := bucket_index_small c.size (by have := chunk_size_small _ c member; omega)
  obtain ⟨nodes, dll, head, members⟩ := body.buckets _ small
  have isNode : c.addr + headerSize ∈ nodes := (members _).mpr ⟨c, member, free, rfl, rfl⟩
  obtain ⟨front, back, rfl⟩ := List.append_of_mem isNode
  have nodesD : ∀ x ∈ front ++ (c.addr + headerSize) :: back, Nodes (before ++ p :: after) x :=
    fun x inNodes => free_node_nodes _ _ x ((members x).mp inNodes)
  have nodeD := nodesD (c.addr + headerSize) (by simp)
  obtain ⟨nextD, prevD⟩ := is_dll_neighbours _ _ front back _ dll _ nodesD
  have kept : OtherKept (before ++ p :: after) (bucketIndex c.size) h _ := other_kept _ distinct _ h _
    (fun view nextKept prevKept storeKept =>
      remove_node_keeps refApart view h _ nodeD nextD prevD nextKept prevKept storeKept)
  have frame (x : Nat) (inD : Nodes (before ++ p :: after) x) (outside : x ∉ front ++ (c.addr + headerSize) :: back) :=
    remove_node_frame apart refApart h front back _ x dll nodesD inD outside
  have otherAddr (d : Chunk) (rest : d ∈ chunks before ∨ d ∈ left ∨ d ∈ right ∨ d ∈ chunks after) :
      d.addr ≠ c.addr := by
    intro same
    exact (outer_cell before after p left [c] right split distinct d.addr
      (rest_outer before after p left right d rest)).2 (by simp [same])
  have freeEq (i x : Nat) : FreeNode (before ++ p' :: after) i x ↔
      FreeNode (before ++ p :: after) i x ∧ x ≠ c.addr + headerSize := by
    simp only [FreeNode, mem_chunks_at before after p left [c] right split,
      mem_chunks_at before after p' left _ right split', List.mem_singleton]
    constructor
    · rintro ⟨d, rfl | rest, isFree, index, rfl⟩
      · cases isFree
      · exact ⟨⟨d, .inr rest, isFree, index, rfl⟩, fun same => otherAddr d rest (by omega)⟩
    · rintro ⟨⟨d, rfl | rest, isFree, index, rfl⟩, other⟩
      · exact absurd rfl other
      · exact ⟨d, .inr rest, isFree, index, rfl⟩
  have otherLinks (i x : Nat) (other : i ≠ bucketIndex c.size) (node : FreeNode (before ++ p :: after) i x) :=
    frame x (free_node_nodes _ i x node)
      (fun inNodes => other (free_node_index _ distinct i _ x node ((members x).mp inNodes)))
  obtain ⟨dll', head'⟩ := remove_node_dll apart refApart h front back _ dll head nodesD
  refine ⟨?_, ⟨?_, kept.first, kept.last, kept.outside⟩, ?_⟩
  · apply body_edit before after p p' left [c] _ right split h _ split' base body
    · intro a outer
      exact kept.used a (outer_cell before after p left [c] right split distinct a outer).1
    · intro d inMid
      rw [List.mem_singleton.mp inMid]
      trivial
    · apply other_buckets h _ (before ++ p :: after) _ (bucketIndex c.size) body.buckets kept.heads otherLinks
      · intro i x other
        rw [freeEq]
        constructor
        · exact fun node => node.1
        · refine fun node => ⟨node, ?_⟩
          rintro rfl
          exact other (free_node_index _ distinct i _ _ node ((members _).mp isNode))
      · refine ⟨front ++ back, dll', head', ?_⟩
        intro x
        rw [freeEq, ← members x]
        have nodup := dll.1
        grind
  · intro a cell
    apply frame a (.inl cell)
    intro inNodes
    exact free_node_outside _ distinct _ a ((members a).mp inNodes) cell
  · intro i inRange list listAt
    by_cases same : i = bucketIndex c.size
    · subst same
      obtain rfl := list_at_unique h _ list _ listAt ⟨dll, head⟩
      have nodup := dll.1
      have erased : (front ++ (c.addr + headerSize) :: back).erase (c.addr + headerSize) = front ++ back := by
        rw [List.erase_append_right _ (by grind), List.erase_cons_head]
      rw [removed, if_pos rfl, erased]
      exact ⟨dll', head'⟩
    · rw [removed, if_neg same]
      exact list_kept h _ _ i list body.buckets inRange listAt (kept.heads i same) (fun x => otherLinks i x same)

theorem body_bucket (body : Body h (before ++ p :: after)) (hand : c.status = .hand)
    (flag : h.mem (c.addr + usedOffset) = 0) (base : p'.base = p.base)
    (split' : p'.chunks = left ++ [{ c with status := .free }] ++ right) :
    Body (pushNode links (bucketRef (bucketIndex c.size)) (c.addr + headerSize) h) (before ++ p' :: after) ∧
      Kept (before ++ p :: after) h (pushNode links (bucketRef (bucketIndex c.size)) (c.addr + headerSize) h) ∧
      Relists (pushed (bucketIndex c.size) (c.addr + headerSize)) h
        (pushNode links (bucketRef (bucketIndex c.size)) (c.addr + headerSize) h) := by
  have member : c ∈ chunks (before ++ p :: after) := chunk_here split
  have distinct := body.distinct
  have apart := links_apart (σ := σ) distinct
  have refApart : (bucketRef (σ := σ) (bucketIndex c.size)).Apart links (Nodes (before ++ p :: after)) := bucket_apart _
  have small := bucket_index_small c.size (by have := chunk_size_small _ c member; omega)
  obtain ⟨nodes, dll, head, members⟩ := body.buckets _ small
  have nodesD : ∀ x ∈ nodes, Nodes (before ++ p :: after) x :=
    fun x inNodes => free_node_nodes _ _ x ((members x).mp inNodes)
  have nodeD : Nodes (before ++ p :: after) (c.addr + headerSize) := .inr ⟨c, member, by rw [hand]; decide, rfl⟩
  have headD : ∀ x ∈ (bucketRef (bucketIndex c.size)).load h, Nodes (before ++ p :: after) x := by
    intro x loaded
    exact nodesD x (List.mem_of_mem_head? (head ▸ loaded))
  have notFree (i : Nat) : ¬ FreeNode (before ++ p :: after) i (c.addr + headerSize) := by
    rintro ⟨d, memberD, free, -, addr⟩
    have same := chunk_unique _ distinct c d member memberD (by omega)
    rw [← same, hand] at free
    cases free
  have fresh : c.addr + headerSize ∉ nodes := fun inNodes => notFree _ ((members _).mp inNodes)
  have kept : OtherKept (before ++ p :: after) (bucketIndex c.size) h _ := other_kept _ distinct _ h _
    (fun view nextKept prevKept storeKept => push_node_keeps refApart view h _ nodeD headD nextKept prevKept storeKept)
  have frame (x : Nat) (inD : Nodes (before ++ p :: after) x) (outside : x ∉ nodes) (other : x ≠ c.addr + headerSize) :=
    push_node_frame apart refApart h _ x nodeD inD headD
      (fun same => outside (List.mem_of_mem_head? (head ▸ same))) other
  have freeEq (i x : Nat) : FreeNode (before ++ p' :: after) i x ↔
      FreeNode (before ++ p :: after) i x ∨ (i = bucketIndex c.size ∧ x = c.addr + headerSize) := by
    simp only [FreeNode, mem_chunks_at before after p left [c] right split,
      mem_chunks_at before after p' left _ right split', List.mem_singleton]
    constructor
    · rintro ⟨d, rfl | rest, isFree, index, rfl⟩
      · exact .inr ⟨index.symm, rfl⟩
      · exact .inl ⟨d, .inr rest, isFree, index, rfl⟩
    · rintro (⟨d, rfl | rest, isFree, index, rfl⟩ | ⟨rfl, rfl⟩)
      · rw [hand] at isFree
        cases isFree
      · exact ⟨d, .inr rest, isFree, index, rfl⟩
      · exact ⟨_, .inl rfl, rfl, rfl, rfl⟩
  have otherLinks (i x : Nat) (other : i ≠ bucketIndex c.size) (node : FreeNode (before ++ p :: after) i x) :=
    frame x (free_node_nodes _ i x node)
      (fun inNodes => other (free_node_index _ distinct i _ x node ((members x).mp inNodes)))
        (fun same => notFree i (same ▸ node))
  have dll' := push_node_dll apart refApart h _ nodes dll head nodesD nodeD fresh
  have head' : (bucketRef (bucketIndex c.size)).load _ = some (c.addr + headerSize) :=
    push_node_load refApart h (c.addr + headerSize)
  refine ⟨?_, ⟨?_, kept.first, kept.last, kept.outside⟩, ?_⟩
  · apply body_edit before after p p' left [c] _ right split h _ split' base body
    · intro a outer
      exact kept.used a (outer_cell before after p left [c] right split distinct a outer).1
    · intro d inMid
      rw [List.mem_singleton.mp inMid]
      exact (kept.used c.addr (chunk_cell _ c member)).trans flag
    · apply other_buckets h _ (before ++ p :: after) _ (bucketIndex c.size) body.buckets kept.heads otherLinks
      · intro i x other
        rw [freeEq]
        simp [other]
      · refine ⟨(c.addr + headerSize) :: nodes, dll', head', ?_⟩
        intro x
        rw [freeEq, ← members x, List.mem_cons]
        tauto
  · intro a cell
    apply frame a (.inl cell)
    · intro inNodes
      exact free_node_outside _ distinct _ a ((members a).mp inNodes) cell
    · rintro rfl
      exact free_node_not_cell distinct c member cell
  · intro i inRange list listAt
    by_cases same : i = bucketIndex c.size
    · subst same
      obtain rfl := list_at_unique h _ list _ listAt ⟨dll, head⟩
      rw [pushed, if_pos rfl]
      exact ⟨dll', head'⟩
    · rw [pushed, if_neg same]
      exact list_kept h _ _ i list body.buckets inRange listAt (kept.heads i same) (fun x => otherLinks i x same)

theorem rep_unbucket (rep : Rep h (before ++ p :: after)) (free : c.status = .free) (base : p'.base = p.base)
    (split' : p'.chunks = left ++ [{ c with status := .hand }] ++ right) :
    Rep (removeNode links (bucketRef (bucketIndex c.size)) (c.addr + headerSize) h) (before ++ p' :: after) ∧
      SameOutside (before ++ p :: after) h (removeNode links (bucketRef (bucketIndex c.size)) (c.addr + headerSize) h) ∧
      Relists (removed (bucketIndex c.size) (c.addr + headerSize)) h
        (removeNode links (bucketRef (bucketIndex c.size)) (c.addr + headerSize) h) := by
  obtain ⟨body, kept, lists⟩ := body_unbucket split rep.toBody free base split'
  exact ⟨rep_kept split rep body kept base split' rfl, kept.outside, lists⟩

theorem rep_bucket (rep : Rep h (before ++ p :: after)) (hand : c.status = .hand)
    (flag : h.mem (c.addr + usedOffset) = 0) (base : p'.base = p.base)
    (split' : p'.chunks = left ++ [{ c with status := .free }] ++ right) :
    Rep (pushNode links (bucketRef (bucketIndex c.size)) (c.addr + headerSize) h) (before ++ p' :: after) ∧
      SameOutside (before ++ p :: after) h (pushNode links (bucketRef (bucketIndex c.size)) (c.addr + headerSize) h) ∧
      Relists (pushed (bucketIndex c.size) (c.addr + headerSize)) h
        (pushNode links (bucketRef (bucketIndex c.size)) (c.addr + headerSize) h) := by
  obtain ⟨body, kept, lists⟩ := body_bucket split rep.toBody hand flag base split'
  exact ⟨rep_kept split rep body kept base split' rfl, kept.outside, lists⟩

-- A chunk changes its status without a write: a client hands it back, or gets it.
theorem rep_relabel (rep : Rep h (before ++ p :: after)) (status : Status) (busy : c.status ≠ .free)
    (busy' : status ≠ .free) (flag : StatusOk status (h.mem (c.addr + usedOffset))) (base : p'.base = p.base)
    (split' : p'.chunks = left ++ [{ c with status := status }] ++ right) : Rep h (before ++ p' :: after) := by
  have free :=
    free_node_edit before after p p' left [c] _ right split split' (by simpa using busy) (by simpa using busy')
  apply rep_kept split rep _ ⟨fun _ _ => ⟨rfl, rfl⟩, rfl, rfl, same_outside_refl _ h⟩ base split' rfl
  exact body_edit before after p p' left [c] _ right split h h split' base rep.toBody (fun _ _ => rfl)
    (by simpa using flag) (buckets_congr h h _ _ rep.buckets rfl free (fun _ _ _ => ⟨rfl, rfl⟩))

end Edits

theorem rep_set_used (h : State σ) (pages : List HeapPage) (c : Chunk) (value : Bool) (rep : Rep h pages)
    (member : c ∈ chunks pages) (hand : c.status = .hand) :
    Rep (setUsed c.addr value h) pages ∧ SameOutside pages h (setUsed c.addr value h) ∧
      (setUsed c.addr value h).mem (c.addr + usedOffset) = (if value then 1 else 0) ∧
        SameLists h (setUsed c.addr value h) := by
  have cell := chunk_cell pages c member
  have sameLinks (a : Nat) (node : Nodes pages a) := set_used_links rep.distinct c.addr a value cell node h
  have other (a : Nat) (notHere : a ≠ c.addr) :
      (setUsed c.addr value h).mem (a + usedOffset) = h.mem (a + usedOffset) :=
    write_byte_frame _ _ _ _ (by omega)
  have freeLinks (i x : Nat) (node : FreeNode pages i x) := sameLinks x (free_node_nodes pages i x node)
  refine ⟨⟨⟨rep.distinct, ?_, ?_, ?_⟩, ?_, rep.first, rep.last⟩, set_used_outside rep.distinct c.addr value cell h,
    write_byte_here _ _ _, lists_congr h _ pages rep.buckets rfl freeLinks⟩
  · intro p inPages
    obtain ⟨notBase, notLast⟩ := sentinel_not_chunk pages p c member
    rw [other _ notBase, other _ notLast]
    exact rep.ends p inPages
  · intro d memberD
    by_cases same : d.addr = c.addr
    · rw [chunk_unique pages rep.distinct d c memberD member same, hand]
      trivial
    · rw [other _ same]
      exact rep.flags d memberD
  · exact buckets_congr h _ pages pages rep.buckets rfl (fun _ _ => Iff.rfl) freeLinks
  · exact is_dll_congr _ _ _ _ _ rep.all (fun a inCells => sameLinks a (.inl inCells))

end X86OS.Heap
