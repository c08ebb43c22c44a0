import X86OS.Mm.HeapEdits

set_option autoImplicit false

namespace X86OS.Heap

open Function Dll Mem

variable {σ : Type}

-- `remove_node` is called with heads that are never the node it removes, so it always
-- unlinks from the middle.
theorem first_next_ne (h : State σ) (front back : List Nat) (x : Nat)
    (dll : IsDll (links.next h) (links.prev h) (front ++ x :: back)) (first : h.first = (front ++ x :: back).head?)
    (inside : 2 ≤ front.length) : firstNextRef.load h ≠ some x := by
  have nodup := dll.1
  obtain ⟨y, front, rfl⟩ := List.exists_cons_of_length_pos (show 0 < front.length by omega)
  obtain ⟨z, front, rfl⟩ :=
    List.exists_cons_of_length_pos (show 0 < front.length by simp only [List.length_cons] at inside; omega)
  have following : links.next h y = some z := (is_dll_links _ _ [] (z :: (front ++ x :: back)) y dll).2
  have loaded : h.first = some y := first
  simp only [firstNextRef, loaded, Option.bind_some, following, ne_eq, Option.some.injEq]
  rintro rfl
  simp at nodup

section Edits

variable {h : State σ} {before after : List HeapPage} {p p' : HeapPage} {left right : List Chunk}

theorem rep_split (c c' n : Chunk) (split : p.chunks = left ++ [c] ++ right)
    (split' : p'.chunks = left ++ [c', n] ++ right) (base : p'.base = p.base) (rep : Rep h (before ++ p :: after))
    (hand : c.status = .hand) (hand' : c'.status = .hand) (handN : n.status = .hand) (addr : c'.addr = c.addr) :
    Rep (insertNode links c.addr n.addr h) (before ++ p' :: after) ∧
      SameOutside (before ++ p :: after) h (insertNode links c.addr n.addr h) ∧
      (∀ a ∈ cells (before ++ p' :: after),
        (insertNode links c.addr n.addr h).mem (a + usedOffset) = h.mem (a + usedOffset)) ∧
      SameLists h (insertNode links c.addr n.addr h) := by
  have distinct' : ((before ++ p' :: after).map HeapPage.base).Nodup := by simpa [base] using rep.distinct
  have apart := links_apart (σ := σ) distinct'
  have cellsEq := cells_at before after p left [c] right split
  have cellsEq' := cells_edit before after p p' left [c', n] right split' base
  simp only [List.map_cons, List.map_nil, List.cons_append, List.nil_append, addr] at cellsEq cellsEq'
  have nodup := cells_nodup _ distinct'
  have nodesD (x : Nat) (member : x ∈ frontCells before p left ++ c.addr :: backCells p right after) :
      Nodes (before ++ p' :: after) x := by
    left
    rw [cellsEq']
    grind
  have nodeD : Nodes (before ++ p' :: after) n.addr := by
    left
    rw [cellsEq']
    simp
  rw [cellsEq'] at nodup
  have fresh : n.addr ∉ frontCells before p left ++ c.addr :: backCells p right after := by grind
  have dll := rep.all
  rw [cellsEq] at dll
  have nextD := (is_dll_neighbours _ _ _ _ _ dll _ nodesD).1
  have keeps {α : Type} (view : State σ → α)
      (nextKept : ∀ h a v, Nodes (before ++ p' :: after) a → view (links.setNext h a v) = view h)
      (prevKept : ∀ h a v, Nodes (before ++ p' :: after) a → view (links.setPrev h a v) = view h) :=
    insert_node_keeps view h c.addr n.addr (nodesD c.addr (by simp)) nodeD nextD nextKept prevKept
  have busy : ∀ d ∈ [c], d.status ≠ .free ∧ d.status ≠ .used := by simp [hand]
  have busy' : ∀ d ∈ [c', n], d.status ≠ .free ∧ d.status ≠ .used := by simp [hand', handN]
  have free := free_node_edit before after p p' left [c] [c', n] right split split' (fun d m => (busy d m).1)
    (fun d m => (busy' d m).1)
  have scratch := scratch_edit before after p p' left [c] [c', n] right split split' base (fun d m => (busy d m).2)
    (fun d m => (busy' d m).2)
  have usedKept (a : Nat) (cell : a ∈ cells (before ++ p' :: after)) :
      (insertNode links c.addr n.addr h).mem (a + usedOffset) = h.mem (a + usedOffset) :=
    keeps (fun h => h.mem (a + usedOffset)) (fun h b v => set_next_used distinct' a cell h b v)
      (fun h b v => set_prev_used distinct' a cell h b v)
  have heads := keeps State.freeBucket (fun _ _ _ _ => rfl) (fun _ _ _ _ => rfl)
  have freeLinks (i x : Nat) (node : FreeNode (before ++ p :: after) i x) :
      links.next (insertNode links c.addr n.addr h) x = links.next h x ∧
        links.prev (insertNode links c.addr n.addr h) x = links.prev h x := by
    have node' := (free i x).mpr node
    have outside := free_node_outside _ distinct' i x node'
    rw [cellsEq'] at outside
    exact insert_node_frame apart h _ _ c.addr n.addr x dll nodesD nodeD fresh (free_node_nodes _ i x node')
      (by grind) (by grind)
  refine ⟨?_, ?_, usedKept, lists_congr h _ _ rep.buckets heads freeLinks⟩
  · apply rep_edit before after p p' left [c] [c', n] right split h _ split' base rep
    · apply body_edit before after p p' left [c] [c', n] right split h _ split' base rep.toBody
      · intro a outer
        exact usedKept a (by rw [cellsEq']; grind)
      · intro d member
        have isHand : d.status = .hand := by
          rcases List.mem_cons.mp member with rfl | last
          · exact hand'
          · rwa [List.mem_singleton.mp last]
        rw [isHand]
        trivial
      · exact buckets_congr h _ _ _ rep.buckets heads free freeLinks
    · exact keeps State.first (fun _ _ _ _ => rfl) (fun _ _ _ _ => rfl)
    · exact keeps State.last (fun _ _ _ _ => rfl) (fun _ _ _ _ => rfl)
    · rw [cellsEq']
      exact insert_node_dll apart h _ _ c.addr n.addr dll nodesD nodeD fresh (by simp [backCells])
  · refine ⟨?_, keeps State.pages (fun _ _ _ _ => rfl) (fun _ _ _ _ => rfl)⟩
    intro x outside
    rw [← scratch x] at outside
    exact keeps (fun h => h.mem x) (fun h a v => set_next_outside distinct' x outside h a v)
      (fun h a v => set_prev_outside distinct' x outside h a v)

theorem rep_merge (c d c' : Chunk) (split : p.chunks = left ++ [c, d] ++ right)
    (split' : p'.chunks = left ++ [c'] ++ right) (base : p'.base = p.base) (rep : Rep h (before ++ p :: after))
    (hand : c.status = .hand) (handD : d.status = .hand) (hand' : c'.status = .hand) (addr : c'.addr = c.addr) :
    Rep (removeNode links firstNextRef d.addr h) (before ++ p' :: after) ∧
      SameOutside (before ++ p :: after) h (removeNode links firstNextRef d.addr h) ∧
      SameLists h (removeNode links firstNextRef d.addr h) := by
  have distinct := rep.distinct
  have apart := links_apart (σ := σ) distinct
  have cellsEq := cells_at before after p left [c, d] right split
  have cellsEq' := cells_edit before after p p' left [c'] right split' base
  have place :
      cells (before ++ p :: after) = (frontCells before p left ++ [c.addr]) ++ d.addr :: backCells p right after := by
    rw [cellsEq]
    simp
  have place' : cells (before ++ p' :: after) = (frontCells before p left ++ [c.addr]) ++ backCells p right after := by
    rw [cellsEq']
    simp [addr]
  have notHead := first_next_ne h _ _ d.addr (place ▸ rep.all) (place ▸ rep.first) (by simp [frontCells]; omega)
  rw [removeNode, if_neg notHead]
  have nodesD (x : Nat) (member : x ∈ (frontCells before p left ++ [c.addr]) ++ d.addr :: backCells p right after) :
      Nodes (before ++ p :: after) x := .inl (place ▸ member)
  have dll := rep.all
  rw [place] at dll
  obtain ⟨nextD, prevD⟩ := is_dll_neighbours _ _ _ _ _ dll _ nodesD
  have keeps {α : Type} (view : State σ → α)
      (nextKept : ∀ h a v, Nodes (before ++ p :: after) a → view (links.setNext h a v) = view h)
      (prevKept : ∀ h a v, Nodes (before ++ p :: after) a → view (links.setPrev h a v) = view h) :=
    unlink_node_keeps view h d.addr (nodesD d.addr (by simp)) nextD prevD nextKept prevKept
  have free :=
    free_node_edit before after p p' left [c, d] [c'] right split split' (by simp [hand, handD]) (by simp [hand'])
  have heads := keeps State.freeBucket (fun _ _ _ _ => rfl) (fun _ _ _ _ => rfl)
  have freeLinks (i x : Nat) (node : FreeNode (before ++ p :: after) i x) :
      links.next (unlinkNode links d.addr h) x = links.next h x ∧
        links.prev (unlinkNode links d.addr h) x = links.prev h x := by
    have outside := free_node_outside _ distinct i x node
    rw [place] at outside
    exact unlink_node_frame apart h _ _ d.addr x dll nodesD (free_node_nodes _ i x node) outside
  refine ⟨?_, ?_, lists_congr h _ _ rep.buckets heads freeLinks⟩
  · apply rep_edit before after p p' left [c, d] [c'] right split h _ split' base rep
    · apply body_edit before after p p' left [c, d] [c'] right split h _ split' base rep.toBody
      · intro a outer
        have cell := (outer_cell before after p left [c, d] right split distinct a outer).1
        exact keeps (fun h => h.mem (a + usedOffset)) (fun h b v => set_next_used distinct a cell h b v)
          (fun h b v => set_prev_used distinct a cell h b v)
      · intro e member
        rw [List.mem_singleton.mp member, hand']
        trivial
      · exact buckets_congr h _ _ _ rep.buckets heads free freeLinks
    · exact keeps State.first (fun _ _ _ _ => rfl) (fun _ _ _ _ => rfl)
    · exact keeps State.last (fun _ _ _ _ => rfl) (fun _ _ _ _ => rfl)
    · rw [place']
      exact unlink_node_dll apart h _ _ d.addr dll nodesD
  · refine ⟨?_, keeps State.pages (fun _ _ _ _ => rfl) (fun _ _ _ _ => rfl)⟩
    intro x outside
    exact keeps (fun h => h.mem x) (fun h a v => set_next_outside distinct x outside h a v)
      (fun h a v => set_prev_outside distinct x outside h a v)

end Edits

-- States that differ in their counters only.
structure SameData (h h' : State σ) : Prop where
  mem : h'.mem = h.mem
  pages : h'.pages = h.pages
  bucket : h'.freeBucket = h.freeBucket
  first : h'.first = h.first
  last : h'.last = h.last

theorem add_free_same (n : Nat) (h : State σ) : SameData h (addFree n h) := ⟨rfl, rfl, rfl, rfl, rfl⟩
theorem sub_free_same (n : Nat) (h : State σ) : SameData h (subFree n h) := ⟨rfl, rfl, rfl, rfl, rfl⟩
theorem add_used_same (n : Nat) (h : State σ) : SameData h (addUsed n h) := ⟨rfl, rfl, rfl, rfl, rfl⟩
theorem sub_used_same (n : Nat) (h : State σ) : SameData h (subUsed n h) := ⟨rfl, rfl, rfl, rfl, rfl⟩
theorem add_meta_same (n : Nat) (h : State σ) : SameData h (addMeta n h) := ⟨rfl, rfl, rfl, rfl, rfl⟩
theorem sub_meta_same (n : Nat) (h : State σ) : SameData h (subMeta n h) := ⟨rfl, rfl, rfl, rfl, rfl⟩

theorem links_same (h h' : State σ) (same : h'.mem = h.mem) :
    links.next h' = links.next h ∧ links.prev h' = links.prev h := by
  simp only [links, same, and_self]

theorem lists_same (h h' : State σ) (mem : h'.mem = h.mem) (bucket : h'.freeBucket = h.freeBucket) :
    SameLists h h' := by
  intro i _ nodes list
  obtain ⟨next, prev⟩ := links_same h h' mem
  rw [ListAt, next, prev, bucket]
  exact list

theorem body_congr (h h' : State σ) (pages : List HeapPage) (mem : h'.mem = h.mem)
    (bucket : h'.freeBucket = h.freeBucket) (body : Body h pages) : Body h' pages := by
  obtain ⟨next, prev⟩ := links_same h h' mem
  refine ⟨body.distinct, by rw [mem]; exact body.ends, by rw [mem]; exact body.flags, ?_⟩
  exact buckets_congr h h' pages pages body.buckets bucket (fun _ _ => Iff.rfl)
    (fun x _ _ => by rw [next, prev]; exact ⟨rfl, rfl⟩)

theorem rep_congr (h h' : State σ) (pages : List HeapPage) (mem : h'.mem = h.mem)
    (bucket : h'.freeBucket = h.freeBucket) (first : h'.first = h.first) (last : h'.last = h.last) (rep : Rep h pages) :
    Rep h' pages := by
  obtain ⟨next, prev⟩ := links_same h h' mem
  exact ⟨body_congr h h' pages mem bucket rep.toBody, by rw [next, prev]; exact rep.all, first.trans rep.first,
    last.trans rep.last⟩

theorem rep_same (h h' : State σ) (pages : List HeapPage) (same : SameData h h') (rep : Rep h pages) : Rep h' pages :=
  rep_congr h h' pages same.mem same.bucket same.first same.last rep

theorem rep_owner (h : State σ) (pages : List HeapPage) (owner : σ) (rep : Rep h pages) :
    Rep { h with pages := owner } pages :=
  rep_congr h { h with pages := owner } pages rfl rfl rfl rfl rep

theorem outside_same (h h' : State σ) (pages : List HeapPage) (same : SameData h h') : SameOutside pages h h' :=
  ⟨fun x _ => by rw [same.mem], same.pages⟩

-- A page with one chunk.
def wholePage (base : Nat) (status : Status) (aligned : 0x1000 ∣ base) (high : kernelVirtualBase ≤ base)
    (fits : base + pageSize ≤ 2 ^ 32) : HeapPage where
  base := base
  chunks := [⟨base + sizeofChunk, 4044, status⟩]
  aligned := aligned
  high := high
  fits := fits
  laid := by simp [Laid, sizeofChunk, headerSize, pageSize, minSize]

section NewPage

variable {h : State σ} {pages : List HeapPage} {p : HeapPage} {m : Chunk} (only : p.chunks = [m])

include only

theorem single_cells : p.cells = [p.base, m.addr, p.last] := by
  simp [HeapPage.cells, only]

theorem single_places : m.addr = p.base + sizeofChunk ∧ m.size = 4044 := by
  have laid := p.laid
  rw [only] at laid
  simp only [Laid, sizeofChunk, headerSize, pageSize] at laid ⊢
  omega

omit only in
theorem cells_single : cells [p] = p.cells := by simp [cells]

-- `create_chunk` before the new chunk goes to its bucket: the page is zeroed, its three
-- cells are chained to each other, and nothing outside the page changes.
theorem format_page_list :
    IsDll (links.next (formatPage p.base m.addr p.last h)) (links.prev (formatPage p.base m.addr p.last h))
      p.cells ∧
    (formatPage p.base m.addr p.last h).mem (p.base + usedOffset) = 1 ∧
    (formatPage p.base m.addr p.last h).mem (m.addr + usedOffset) = 0 ∧
    (formatPage p.base m.addr p.last h).mem (p.last + usedOffset) = 1 ∧
    (∀ x, (x < p.base ∨ p.base + pageSize ≤ x) → (formatPage p.base m.addr p.last h).mem x = h.mem x) ∧
    (formatPage p.base m.addr p.last h).freeBucket = h.freeBucket ∧
    (formatPage p.base m.addr p.last h).first = h.first ∧ (formatPage p.base m.addr p.last h).last = h.last ∧
    (formatPage p.base m.addr p.last h).pages = h.pages := by
  have distinct : ([p].map HeapPage.base).Nodup := by simp
  have apart := links_apart (σ := σ) distinct
  have places := single_places only
  have cellsEq : cells [p] = [p.base, m.addr, p.last] := cells_single.trans (single_cells only)
  have lastEq : p.last = p.base + (pageSize - sizeofChunk) := rfl
  simp only [sizeofChunk, pageSize] at places lastEq
  have cellF : p.base ∈ cells [p] := by rw [cellsEq]; simp
  have cellM : m.addr ∈ cells [p] := by rw [cellsEq]; simp
  have cellL : p.last ∈ cells [p] := by rw [cellsEq]; simp
  let zeroed : State σ := { h with mem := kmemset p.base 0 pageSize h.mem }
  let marked : State σ := setUsed p.last true (setUsed m.addr false (setUsed p.base true zeroed))
  let chained : State σ := insertNode links p.base m.addr marked
  have result : formatPage p.base m.addr p.last h = insertNode links m.addr p.last chained := rfl
  have unlinked (a : Nat) (cell : a ∈ cells [p]) : links.next marked a = none ∧ links.prev marked a = none := by
    have first :=
      set_used_links distinct p.last a true cellL (.inl cell) (setUsed m.addr false (setUsed p.base true zeroed))
    have second := set_used_links distinct m.addr a false cellM (.inl cell) (setUsed p.base true zeroed)
    have third := set_used_links distinct p.base a true cellF (.inl cell) zeroed
    rw [first.1, first.2, second.1, second.2, third.1, third.2]
    have room : p.base ≤ a ∧ a + 20 ≤ p.base + 4096 := by
      rw [cellsEq] at cell
      simp only [List.mem_cons, List.not_mem_nil, or_false] at cell
      omega
    simp only [links, zeroed, kmemset_eq_fill, pageSize]
    rw [fill_zero_word _ _ _ _ (by omega) (by omega), fill_zero_word _ _ _ _ (by omega) (by omega)]
    exact ⟨rfl, rfl⟩
  have nodeF : Nodes [p] p.base := .inl cellF
  have nodeM : Nodes [p] m.addr := .inl cellM
  have nodeL : Nodes [p] p.last := .inl cellL
  have alone : IsDll (links.next marked) (links.prev marked) ([] ++ p.base :: []) := by
    have single := segment_single (links.next marked) (links.prev marked) p.base
    rwa [(unlinked _ cellF).1, (unlinked _ cellF).2] at single
  have two : IsDll (links.next chained) (links.prev chained) ([p.base] ++ m.addr :: []) :=
    insert_node_dll apart marked [] [] p.base m.addr alone (by simpa using nodeF) nodeM (by simp; omega)
      (fun _ => (unlinked _ cellM).1)
  have endOpen : links.next chained p.last = none := by
    have kept := insert_node_frame apart marked [] [] p.base m.addr p.last alone (by simpa using nodeF) nodeM
      (by simp; omega) nodeL (by omega) (by simp; omega)
    rw [kept.1]
    exact (unlinked _ cellL).1
  have three :=
    insert_node_dll apart chained [p.base] [] m.addr p.last two (by simp [nodeF, nodeM]) nodeL (by simp; omega)
    (fun _ => endOpen)
  have firstD : ∀ x ∈ links.next marked p.base, Nodes [p] x := by simp [(unlinked _ cellF).1]
  have secondD := (is_dll_neighbours _ _ _ _ _ two (Nodes [p]) (by simp [nodeF, nodeM])).1
  have keeps {α : Type} (view : State σ → α) (nextKept : ∀ h a v, Nodes [p] a → view (links.setNext h a v) = view h)
      (prevKept : ∀ h a v, Nodes [p] a → view (links.setPrev h a v) = view h) :
      view (formatPage p.base m.addr p.last h) = view marked := by
    rw [result, insert_node_keeps view chained m.addr p.last nodeM nodeL secondD nextKept prevKept]
    exact insert_node_keeps view marked p.base m.addr nodeF nodeM firstD nextKept prevKept
  have usedKept (a : Nat) (cell : a ∈ cells [p]) :
      (formatPage p.base m.addr p.last h).mem (a + usedOffset) = marked.mem (a + usedOffset) :=
    keeps (fun h => h.mem (a + usedOffset)) (fun h b v => set_next_used distinct a cell h b v)
      (fun h b v => set_prev_used distinct a cell h b v)
  refine ⟨?_, ?_, ?_, ?_, ?_, keeps State.freeBucket (fun _ _ _ _ => rfl) (fun _ _ _ _ => rfl),
    keeps State.first (fun _ _ _ _ => rfl) (fun _ _ _ _ => rfl), keeps State.last (fun _ _ _ _ => rfl)
      (fun _ _ _ _ => rfl),
    keeps State.pages (fun _ _ _ _ => rfl) (fun _ _ _ _ => rfl)⟩
  · rw [single_cells only, result]
    exact three
  · rw [usedKept _ cellF]
    simp only [marked, setUsed]
    rw [write_byte_frame _ _ _ _ (by omega), write_byte_frame _ _ _ _ (by omega), write_byte_here]
    rfl
  · rw [usedKept _ cellM]
    simp only [marked, setUsed]
    rw [write_byte_frame _ _ _ _ (by omega), write_byte_here]
    rfl
  · rw [usedKept _ cellL]
    simp only [marked, setUsed]
    rw [write_byte_here]
    rfl
  · intro x outside
    have notScratch : ¬ Scratch [p] x := by
      rintro ⟨⟨q, member, low, high⟩, -⟩
      rw [List.mem_singleton.mp member] at low high
      omega
    simp only [pageSize] at outside
    rw [keeps (fun h => h.mem x) (fun h a v => set_next_outside distinct x notScratch h a v)
      (fun h a v => set_prev_outside distinct x notScratch h a v)]
    simp only [marked, setUsed, usedOffset]
    rw [write_byte_frame _ _ _ _ (by omega), write_byte_frame _ _ _ _ (by omega), write_byte_frame _ _ _ _ (by omega)]
    simp only [zeroed, kmemset_eq_fill, pageSize]
    exact fill_frame _ _ _ _ _ (by omega)

end NewPage

end X86OS.Heap
