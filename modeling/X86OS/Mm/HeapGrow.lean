import X86OS.Mm.HeapCounters
import X86OS.Mm.HeapPages

set_option autoImplicit false

namespace X86OS.Heap

open Function Dll Mem

variable {σ : Type}

theorem page_apart (pages : List HeapPage) (p : HeapPage) (fresh : p.base ∉ pages.map HeapPage.base) (e : Nat × Nat)
    (member : e ∈ extents pages) : e.1 + e.2 ≤ p.base ∨ p.base + pageSize ≤ e.1 := by
  obtain ⟨q, inPages, inQ⟩ := List.mem_flatMap.mp member
  have other : q.base ≠ p.base := fun same => fresh (same ▸ List.mem_map_of_mem inPages)
  have inside := q.extent_inside e inQ
  have alignedP := p.aligned
  have alignedQ := q.aligned
  simp only [pageSize] at *
  omega

theorem cells_append (pages pages' : List HeapPage) : cells (pages ++ pages') = cells pages ++ cells pages' :=
  List.flatMap_append

section Create

variable {h : State σ} {pages : List HeapPage} {p : HeapPage} {m : Chunk} (only : p.chunks = [m])
  (fresh : p.base ∉ pages.map HeapPage.base)

include only fresh

omit fresh in
theorem chunks_new : chunks (pages ++ [p]) = chunks pages ++ [m] := by
  simp [chunks, only]

omit only in
theorem new_page_distinct (distinct : (pages.map HeapPage.base).Nodup) : ((pages ++ [p]).map HeapPage.base).Nodup := by
  rw [List.map_append, List.nodup_append]
  refine ⟨distinct, by simp, ?_⟩
  rintro a member b memberB rfl
  simp only [List.map_cons, List.map_nil, List.mem_singleton] at memberB
  exact fresh (memberB ▸ member)

theorem new_page_scratch (unowned : m.status ≠ .used) (x : Nat) (low : p.base ≤ x) (high : x < p.base + pageSize) :
    Scratch (pages ++ [p]) x := by
  refine ⟨⟨p, by simp, low, high⟩, ?_⟩
  rintro ⟨c, member, used, lowC, highC⟩
  rw [chunks_new only] at member
  rcases List.mem_append.mp member with inPages | inNew
  · have apart := page_apart pages p fresh _ (chunk_extent pages c inPages)
    simp only [headerSize] at apart lowC highC
    omega
  · exact unowned (List.mem_singleton.mp inNew ▸ used)

theorem body_format (hand : m.status = .hand) (body : Body h pages) :
    Body (formatPage p.base m.addr p.last h) (pages ++ [p]) ∧
      (∀ a, Nodes pages a → links.next (formatPage p.base m.addr p.last h) a = links.next h a ∧
        links.prev (formatPage p.base m.addr p.last h) a = links.prev h a) ∧
      SameOutside (pages ++ [p]) h (formatPage p.base m.addr p.last h) := by
  obtain ⟨-, front, -, last, frame, bucket, -, -, owner⟩ := format_page_list (h := h) only
  have outer (e : Nat × Nat) (member : e ∈ extents pages) (x : Nat) (low : e.1 ≤ x) (high : x < e.1 + e.2) :
      (formatPage p.base m.addr p.last h).mem x = h.mem x := by
    have apart := page_apart pages p fresh e member
    exact frame x (by omega)
  have sameLinks (a : Nat) (node : Nodes pages a) : links.next (formatPage p.base m.addr p.last h) a = links.next h a ∧
      links.prev (formatPage p.base m.addr p.last h) a = links.prev h a := by
    obtain ⟨e, extent, place, room⟩ := node_home a node
    simp only [headerSize] at place
    simp only [links]
    rw [read_word_congr h.mem _ a (fun x low high => outer e extent x (by omega) (by omega)),
      read_word_congr h.mem _ (a + 4) (fun x low high => outer e extent x (by omega) (by omega))]
    exact ⟨rfl, rfl⟩
  refine ⟨⟨new_page_distinct fresh body.distinct, ?_, ?_, ?_⟩, sameLinks, ⟨?_, owner⟩⟩
  · intro q member
    rcases List.mem_append.mp member with inPages | inNew
    · rw [outer _ (front_extent pages q inPages) _ (by simp) (by simp [usedOffset, sizeofChunk]),
        outer _ (last_extent pages q inPages) _ (by simp) (by simp [usedOffset, sizeofChunk])]
      exact body.ends q inPages
    · rw [List.mem_singleton.mp inNew]
      exact ⟨front, last⟩
  · intro c member
    rw [chunks_new only] at member
    rcases List.mem_append.mp member with inPages | inNew
    · rw [outer _ (chunk_extent pages c inPages) _ (by simp) (by simp only [usedOffset, headerSize]; omega)]
      exact body.flags c inPages
    · rw [List.mem_singleton.mp inNew, hand]
      trivial
  · apply buckets_congr h _ pages _ body.buckets bucket
    · intro i x
      simp only [FreeNode, chunks_new only, List.mem_append]
      constructor
      · rintro ⟨c, inPages | inNew, free, rest⟩
        · exact ⟨c, inPages, free, rest⟩
        · rw [List.mem_singleton.mp inNew, hand] at free
          cases free
      · rintro ⟨c, inPages, rest⟩
        exact ⟨c, .inl inPages, rest⟩
    · exact fun i x node => sameLinks x (free_node_nodes pages i x node)
  · intro x outside
    apply frame
    by_contra inside
    exact outside (new_page_scratch only fresh (by rw [hand]; decide) x (by omega) (by omega))

omit only fresh in
theorem link_page_rep (body : Body h (pages ++ [p])) (old : IsDll (links.next h) (links.prev h) (cells pages))
    (new : IsDll (links.next h) (links.prev h) p.cells) (first : h.first = (cells pages).head?)
    (last : h.last = (cells pages).getLast?) :
    Rep (linkPage p.base p.last h) (pages ++ [p]) ∧ SameOutside (pages ++ [p]) h (linkPage p.base p.last h) ∧
      SameLists h (linkPage p.base p.last h) := by
  have distinct := body.distinct
  have apart := links_apart (σ := σ) distinct
  have place : cells (pages ++ [p]) = cells pages ++ p.cells := by rw [cells_append, cells_single]
  have newEnds : p.cells.head? = some p.base ∧ p.cells.getLast? = some p.last := by
    constructor
    · rfl
    · rw [HeapPage.cells, ← List.cons_append, List.getLast?_append]
      simp
  have nodup := cells_nodup _ distinct
  rw [place, List.nodup_append] at nodup
  have baseD : Nodes (pages ++ [p]) p.base := .inl (page_cells _ p (by simp)).1
  cases empty : (cells pages).getLast? with
  | none =>
      have nothing := List.getLast?_eq_none_iff.mp empty
      rw [nothing, List.head?_nil] at first
      have linked : linkPage p.base p.last h = { h with first := some p.base, last := some p.last } := by
        simp only [linkPage, first]
      rw [linked]
      refine ⟨⟨body_congr h _ _ rfl rfl body, ?_, ?_, ?_⟩, ⟨fun _ _ => rfl, rfl⟩, lists_same h _ rfl rfl⟩
      · rw [place, nothing, List.nil_append]
        exact new
      · rw [place, nothing, List.nil_append, newEnds.1]
      · rw [place, nothing, List.nil_append, newEnds.2]
  | some lastCell =>
      obtain ⟨front, frontEq⟩ := List.getLast?_eq_some_iff.mp empty
      have firstSome : h.first = (cells pages ++ p.cells).head? := by
        rw [first, frontEq]
        simp
      obtain ⟨start, startEq⟩ : ∃ start, h.first = some start := by
        rw [first, frontEq]
        cases front with
        | nil => exact ⟨_, rfl⟩
        | cons x front => exact ⟨_, rfl⟩
      rw [empty] at last
      have linked : linkPage p.base p.last h = { insertNode links lastCell p.base h with last := some p.last } := by
        simp only [linkPage, startEq, last]
      have dll : IsDll (links.next h) (links.prev h) (front ++ lastCell :: []) := by
        rw [← frontEq]
        exact old
      have cellD (x : Nat) (member : x ∈ cells pages) : Nodes (pages ++ [p]) x := .inl (by rw [place]; simp [member])
      have newD (x : Nat) (member : x ∈ p.cells) : Nodes (pages ++ [p]) x := .inl (by rw [place]; simp [member])
      have nodesD : ∀ x ∈ front ++ lastCell :: [], Nodes (pages ++ [p]) x := fun x member => cellD x (frontEq ▸ member)
      have lastD : Nodes (pages ++ [p]) lastCell := nodesD lastCell (by simp)
      have open_ : links.next h lastCell = none := (is_dll_links _ _ front [] lastCell dll).2
      have nextD : ∀ x ∈ links.next h lastCell, Nodes (pages ++ [p]) x := by simp [open_]
      have baseIn : p.base ∈ p.cells := by simp [HeapPage.cells]
      have lastIn : lastCell ∈ cells pages := by rw [frontEq]; simp
      have fromNew : lastCell ≠ p.base := nodup.2.2 lastCell lastIn p.base baseIn
      have fresh' : p.base ∉ front ++ lastCell :: [] := by
        rw [← frontEq]
        exact fun member => nodup.2.2 p.base member p.base baseIn rfl
      have keeps {α : Type} (view : State σ → α)
          (nextKept : ∀ h a v, Nodes (pages ++ [p]) a → view (links.setNext h a v) = view h)
          (prevKept : ∀ h a v, Nodes (pages ++ [p]) a → view (links.setPrev h a v) = view h) :=
        insert_node_keeps view h lastCell p.base lastD baseD nextD nextKept prevKept
      have usedKept (a : Nat) (cell : a ∈ cells (pages ++ [p])) :
          (insertNode links lastCell p.base h).mem (a + usedOffset) = h.mem (a + usedOffset) :=
        keeps (fun h => h.mem (a + usedOffset)) (fun h b v => set_next_used distinct a cell h b v)
          (fun h b v => set_prev_used distinct a cell h b v)
      have heads := keeps State.freeBucket (fun _ _ _ _ => rfl) (fun _ _ _ _ => rfl)
      have freeLinks (i x : Nat) (node : FreeNode (pages ++ [p]) i x) :
          links.next (insertNode links lastCell p.base h) x = links.next h x ∧
            links.prev (insertNode links lastCell p.base h) x = links.prev h x := by
        have outside := free_node_outside _ distinct i x node
        rw [place] at outside
        apply insert_node_frame apart h front [] lastCell p.base x dll nodesD baseD fresh' (free_node_nodes _ i x node)
        · rintro rfl
          exact outside (by simp [baseIn])
        · rw [← frontEq]
          exact fun member => outside (by simp [member])
      rw [linked]
      refine ⟨⟨body_congr (insertNode links lastCell p.base h) _ _ rfl rfl ⟨distinct, ?_, ?_, ?_⟩, ?_, ?_, ?_⟩,
        ⟨?_, ?_⟩, lists_congr h _ _ body.buckets heads freeLinks⟩
      · intro q member
        rw [usedKept _ (page_cells _ q member).1, usedKept _ (page_cells _ q member).2]
        exact body.ends q member
      · intro c member
        rw [usedKept _ (chunk_cell _ c member)]
        exact body.flags c member
      · exact buckets_congr h _ _ _ body.buckets heads (fun _ _ => Iff.rfl) freeLinks
      · rw [place]
        change IsDll (links.next (insertNode links lastCell p.base h))
          (links.prev (insertNode links lastCell p.base h)) _
        have cross (y : Nat) (member : y ∈ cells pages) : y ≠ p.base := nodup.2.2 y member p.base baseIn
        have crossNew (y : Nat) (member : y ∈ p.cells) : y ≠ lastCell := (nodup.2.2 lastCell lastIn y member).symm
        apply is_dll_join _ _ _ _ _ _ old new (fun y member memberNew => nodup.2.2 y member y memberNew rfl)
        · intro y member
          rw [insert_node_next apart h lastCell p.base y lastD baseD (cellD y member) nextD fromNew,
            if_neg (cross y member), empty, newEnds.1]
          simp [eq_comm]
        · intro y member
          rw [insert_node_prev apart h lastCell p.base y lastD baseD (cellD y member) nextD, open_, if_neg (by simp),
            if_neg (cross y member)]
        · intro y member
          rw [insert_node_next apart h lastCell p.base y lastD baseD (newD y member) nextD fromNew,
            if_neg (crossNew y member), open_, Option.none_or]
          split
          · next same => rw [same]
          · rfl
        · intro y member
          rw [insert_node_prev apart h lastCell p.base y lastD baseD (newD y member) nextD, open_,
            if_neg (by simp), newEnds.1, empty]
          simp [eq_comm]
      · rw [place, ← firstSome]
        exact keeps State.first (fun _ _ _ _ => rfl) (fun _ _ _ _ => rfl)
      · rw [place, List.getLast?_append, newEnds.2]
        rfl
      · intro x outside
        exact keeps (fun h => h.mem x) (fun h a v => set_next_outside distinct x outside h a v)
          (fun h a v => set_prev_outside distinct x outside h a v)
      · exact keeps State.pages (fun _ _ _ _ => rfl) (fun _ _ _ _ => rfl)

end Create

theorem size_of_next (h : State σ) (a size : Nat) (next : links.next h a = some (a + headerSize + size))
    (small : a + headerSize + size < 2 ^ 32) :
    getTotalSize h a = headerSize + size ∧ getChunkSize h a = size ∧ getBucketIndex h a = bucketIndex size := by
  have total : getTotalSize h a = headerSize + size := by
    rw [getTotalSize, next, Option.getD_some, Word.sub_exact _ _ small (by omega)]
    omega
  have chunk : getChunkSize h a = size := by
    rw [getChunkSize, total, Word.sub_exact _ _ (by omega) (by omega)]
    omega
  exact ⟨total, chunk, by rw [getBucketIndex, chunk, bucketIndex]⟩

theorem sizes_same (h h' : State σ) (same : h'.mem = h.mem) (a : Nat) :
    getTotalSize h' a = getTotalSize h a ∧ getChunkSize h' a = getChunkSize h a := by
  simp only [getChunkSize, getTotalSize, (links_same h h' same).1, and_self]

theorem single_page_sizes (h : State σ) (p : HeapPage) (m : Chunk) (only : p.chunks = [m])
    (new : IsDll (links.next h) (links.prev h) p.cells) :
    getTotalSize h p.base = sizeofChunk ∧ getChunkSize h m.addr = m.size ∧
      getBucketIndex h m.addr = bucketIndex m.size := by
  rw [single_cells only] at new
  have nextF : links.next h p.base = some m.addr := (is_dll_links _ _ [] [m.addr, p.last] p.base new).2
  have nextM : links.next h m.addr = some p.last := (is_dll_links _ _ [p.base] [p.last] m.addr new).2
  obtain ⟨addr, size⟩ := single_places only
  have fits := p.fits
  simp only [pageSize] at fits
  have startM : m.addr = p.base + headerSize + minSize := by simp only [addr, sizeofChunk, headerSize, minSize]
  have endM : p.last = m.addr + headerSize + m.size := by
    simp only [HeapPage.last, addr, size, pageSize, sizeofChunk, headerSize]
  rw [startM] at nextF
  rw [endM] at nextM
  refine ⟨(size_of_next h p.base minSize nextF ?_).1, (size_of_next h m.addr m.size nextM ?_).2⟩
  · simp only [headerSize, minSize]
    omega
  · simp only [addr, size, sizeofChunk, headerSize]
    omega

theorem place_page_spec (h : State σ) (pages : List HeapPage) (p p' : HeapPage) (m : Chunk) (only : p.chunks = [m])
    (hand : m.status = .hand) (base : p'.base = p.base) (only' : p'.chunks = [{ m with status := .free }])
    (body : Body h (pages ++ [p])) (old : IsDll (links.next h) (links.prev h) (cells pages))
    (new : IsDll (links.next h) (links.prev h) p.cells) (flag : h.mem (m.addr + usedOffset) = 0)
    (first : h.first = (cells pages).head?) (last : h.last = (cells pages).getLast?) :
    Rep (linkPage p.base p.last (pushNode links (bucketRef (getBucketIndex h m.addr)) (m.addr + headerSize) h))
      (pages ++ [p']) ∧
      SameOutside (pages ++ [p']) h
        (linkPage p.base p.last (pushNode links (bucketRef (getBucketIndex h m.addr)) (m.addr + headerSize) h)) ∧
      Relists (pushed (bucketIndex m.size) (m.addr + headerSize)) h
        (linkPage p.base p.last (pushNode links (bucketRef (getBucketIndex h m.addr)) (m.addr + headerSize) h)) := by
  have lastEq : p'.last = p.last := by simp only [HeapPage.last, base]
  have cells' : p'.cells = p.cells := by
    simp only [HeapPage.cells, base, lastEq, only, only', List.map_cons, List.map_nil]
  have index := (single_page_sizes h p m only new).2.2
  rw [index]
  have alone : p.chunks = [] ++ [m] ++ [] := only
  have alone' : p'.chunks = [] ++ [{ m with status := .free }] ++ [] := only'
  obtain ⟨body', kept, lists⟩ := body_bucket alone body hand flag base alone'
  generalize pushNode links (bucketRef (bucketIndex m.size)) (m.addr + headerSize) h = h' at body' kept lists
  have oldList : IsDll (links.next h') (links.prev h') (cells pages) := by
    apply is_dll_congr _ _ _ _ _ old
    intro a member
    exact kept.links a (by rw [cells_append]; exact List.mem_append_left _ member)
  have newList : IsDll (links.next h') (links.prev h') p'.cells := by
    rw [cells']
    apply is_dll_congr _ _ _ _ _ new
    intro a member
    exact kept.links a (by rw [cells_append, cells_single]; exact List.mem_append_right _ member)
  have scratch :=
    scratch_edit pages [] p p' [] [m] [{ m with status := .free }] [] only only' base (by simp [hand]) (by simp)
  have linked := link_page_rep body' oldList newList (kept.first.trans first) (kept.last.trans last)
  rw [base, lastEq] at linked
  exact ⟨linked.1, same_outside_trans _ _ _ _
    (same_outside_congr (pages ++ [p]) _ _ _ (fun x inside => (scratch x).mpr inside) kept.outside) linked.2.1,
    relists_same lists linked.2.2⟩

theorem install_page_spec (h : State σ) (pages : List HeapPage) (p p' : HeapPage) (m : Chunk) (rep : Rep h pages)
    (only : p.chunks = [m]) (hand : m.status = .hand) (base : p'.base = p.base)
    (only' : p'.chunks = [{ m with status := .free }]) (fresh : p.base ∉ pages.map HeapPage.base) :
    Rep (installPage p.base m.addr p.last h) (pages ++ [p']) ∧
      SameOutside (pages ++ [p']) h (installPage p.base m.addr p.last h) ∧
      Relists (pushed (bucketIndex m.size) (m.addr + headerSize)) h (installPage p.base m.addr p.last h) := by
  obtain ⟨body, sameLinks, outside⟩ := body_format only fresh hand rep.toBody
  obtain ⟨new, -, flag, -, -, heads, first, last, -⟩ := format_page_list (h := h) only
  have formatLists :=
    lists_congr h _ pages rep.buckets heads (fun i x node => sameLinks x (free_node_nodes pages i x node))
  have scratch :=
    scratch_edit pages [] p p' [] [m] [{ m with status := .free }] [] only only' base (by simp [hand]) (by simp)
  have before := same_outside_congr (pages ++ [p]) (pages ++ [p']) _ _ (fun x inside => (scratch x).mpr inside) outside
  simp only [installPage]
  generalize formatPage p.base m.addr p.last h = formatted at *
  have old : IsDll (links.next formatted) (links.prev formatted) (cells pages) :=
    is_dll_congr _ _ _ _ _ rep.all (fun a member => sameLinks a (.inl member))
  -- The counters change between formatting the page and filling the bucket.
  have same (i j k n : Nat) : SameData formatted (addFree n (addMeta k (addMeta j (addMeta i formatted)))) :=
    ⟨rfl, rfl, rfl, rfl, rfl⟩
  have counted (h' : State σ) (same : SameData formatted h') := place_page_spec h' pages p p' m only hand base only'
    (body_congr formatted h' _ same.mem same.bucket body)
    (by rw [(links_same formatted h' same.mem).1, (links_same formatted h' same.mem).2]; exact old)
    (by rw [(links_same formatted h' same.mem).1, (links_same formatted h' same.mem).2]; exact new)
    (by rw [same.mem]; exact flag) (same.first.trans (first.trans rep.first)) (same.last.trans (last.trans rep.last))
  obtain ⟨rep', outside', lists⟩ := counted _ (same _ _ _ _)
  exact ⟨rep',
    same_outside_trans _ _ _ _ before (same_outside_trans _ _ _ _ (outside_same _ _ _ (same _ _ _ _)) outside'),
    same_relists formatLists (same_relists (lists_same formatted _ (same _ _ _ _).mem (same _ _ _ _).bucket) lists)⟩

theorem install_page_counted (h : State σ) (p p' : HeapPage) (m : Chunk) (only : p.chunks = [m])
    (only' : p'.chunks = [{ m with status := .free }]) :
    counters (installPage p.base m.addr p.last h) = counters h + pageWeight p' := by
  obtain ⟨sizeF, sizeM, -⟩ := single_page_sizes _ p m only (format_page_list (h := h) only).1
  have formatted := counters_of_tallies _ _ (tallies_format p.base m.addr p.last h)
  have linked (g : State σ) := counters_of_tallies _ _ (tallies_link p.base p.last g)
  rw [installPage]
  generalize formatPage p.base m.addr p.last h = page at sizeF sizeM formatted
  -- The counters do not matter for what is read between their changes.
  have sizeF' (k : Nat) : getTotalSize (addMeta k page) p.base = sizeofChunk :=
    (sizes_same page (addMeta k page) rfl p.base).1.trans sizeF
  have sizeM' (i j k : Nat) : getChunkSize (addMeta i (addMeta j (addMeta k page))) m.addr = m.size :=
    (sizes_same page (addMeta i (addMeta j (addMeta k page))) rfl m.addr).2.trans sizeM
  simp only [linked, counters_push, counters_add_free, counters_add_meta, formatted, sizeF, sizeF', sizeM',
    pageWeight, only', tally_cons, tally_nil, weight, add_assoc, count_add, add_zero]
  rfl

theorem body_unlink (h : State σ) (pages : List HeapPage) (front back : List Nat) (x : Nat) (body : Body h pages)
    (dll : IsDll (links.next h) (links.prev h) (front ++ x :: back))
    (inCells : ∀ a ∈ front ++ x :: back, a ∈ cells pages) :
    Body (unlinkNode links x h) pages ∧
      IsDll (links.next (unlinkNode links x h)) (links.prev (unlinkNode links x h)) (front ++ back) ∧
      (unlinkNode links x h).first = h.first ∧ (unlinkNode links x h).last = h.last ∧
      SameOutside pages h (unlinkNode links x h) ∧ SameLists h (unlinkNode links x h) := by
  have distinct := body.distinct
  have apart := links_apart (σ := σ) distinct
  have nodesD : ∀ a ∈ front ++ x :: back, Nodes pages a := fun a member => .inl (inCells a member)
  obtain ⟨nextD, prevD⟩ := is_dll_neighbours _ _ _ _ _ dll _ nodesD
  have keeps {α : Type} (view : State σ → α) (nextKept : ∀ h a v, Nodes pages a → view (links.setNext h a v) = view h)
      (prevKept : ∀ h a v, Nodes pages a → view (links.setPrev h a v) = view h) :=
    unlink_node_keeps view h x (nodesD x (by simp)) nextD prevD nextKept prevKept
  have usedKept (a : Nat) (cell : a ∈ cells pages) :
      (unlinkNode links x h).mem (a + usedOffset) = h.mem (a + usedOffset) :=
    keeps (fun h => h.mem (a + usedOffset)) (fun h b v => set_next_used distinct a cell h b v)
      (fun h b v => set_prev_used distinct a cell h b v)
  have heads := keeps State.freeBucket (fun _ _ _ _ => rfl) (fun _ _ _ _ => rfl)
  have freeLinks (i y : Nat) (node : FreeNode pages i y) :=
    unlink_node_frame apart h front back x y dll nodesD (free_node_nodes _ i y node)
      (fun member => free_node_outside _ distinct i y node (inCells y member))
  refine ⟨⟨distinct, ?_, ?_, ?_⟩, unlink_node_dll apart h front back x dll nodesD,
    keeps State.first (fun _ _ _ _ => rfl) (fun _ _ _ _ => rfl), keeps State.last (fun _ _ _ _ => rfl)
      (fun _ _ _ _ => rfl),
    ⟨?_, keeps State.pages (fun _ _ _ _ => rfl) (fun _ _ _ _ => rfl)⟩, lists_congr h _ _ body.buckets heads freeLinks⟩
  · intro p member
    rw [usedKept _ (page_cells pages p member).1, usedKept _ (page_cells pages p member).2]
    exact body.ends p member
  · intro c member
    rw [usedKept _ (chunk_cell pages c member)]
    exact body.flags c member
  · exact buckets_congr h _ _ _ body.buckets heads (fun _ _ => Iff.rfl) freeLinks
  · intro y outside
    exact keeps (fun h => h.mem y) (fun h a v => set_next_outside distinct y outside h a v)
      (fun h a v => set_prev_outside distinct y outside h a v)

theorem body_drop (h : State σ) (before after : List HeapPage) (p : HeapPage) (m : Chunk) (only : p.chunks = [m])
    (hand : m.status = .hand) (body : Body h (before ++ p :: after)) : Body h (before ++ after) := by
  have sub (q : HeapPage) (member : q ∈ before ++ after) : q ∈ before ++ p :: after := by
    simp only [List.mem_append, List.mem_cons] at member ⊢
    tauto
  have subChunks (c : Chunk) (member : c ∈ chunks (before ++ after)) : c ∈ chunks (before ++ p :: after) := by
    obtain ⟨q, inPages, inQ⟩ := List.mem_flatMap.mp member
    exact List.mem_flatMap.mpr ⟨q, sub q inPages, inQ⟩
  refine ⟨?_, fun q member => body.ends q (sub q member), fun c member => body.flags c (subChunks c member), ?_⟩
  · have distinct := body.distinct
    rw [List.map_append, List.map_cons] at distinct
    rw [List.map_append]
    exact (List.nodup_cons.mp (List.nodup_middle.mp distinct)).2
  · apply buckets_congr h h _ _ body.buckets rfl _ (fun _ _ _ => ⟨rfl, rfl⟩)
    intro i x
    constructor
    · rintro ⟨c, member, rest⟩
      exact ⟨c, subChunks c member, rest⟩
    · rintro ⟨c, member, free, rest⟩
      refine ⟨c, ?_, free, rest⟩
      obtain ⟨q, inPages, inQ⟩ := List.mem_flatMap.mp member
      simp only [List.mem_append, List.mem_cons] at inPages
      rcases inPages with inBefore | rfl | inAfter
      · exact List.mem_flatMap.mpr ⟨q, by simp [inBefore], inQ⟩
      · rw [only] at inQ
        rw [List.mem_singleton.mp inQ, hand] at free
        cases free
      · exact List.mem_flatMap.mpr ⟨q, by simp [inAfter], inQ⟩

theorem return_page_spec (A : PageAllocator σ) (h : State σ) (before after : List HeapPage) (p : HeapPage) (m : Chunk)
    (only : p.chunks = [m]) (hand : m.status = .hand) (notFirst : before ≠ []) (rep : Rep h (before ++ p :: after)) :
    ∃ h', returnPage A p.base h = .ok h' ∧ Rep h' (before ++ after) ∧ h'.pages = A.free (v2p p.base) h.pages ∧
      (∀ x, ¬ Scratch (before ++ p :: after) x → h'.mem x = h.mem x) ∧ SameLists h h' := by
  have place : cells (before ++ p :: after) = cells before ++ p.base :: m.addr :: p.last :: cells after := by
    rw [cells_append]
    simp [cells, HeapPage.cells, only]
  have long : 2 ≤ (cells before).length := by
    obtain ⟨q, rest, rfl⟩ := List.exists_cons_of_ne_nil notFirst
    simp [cells, HeapPage.cells]
    omega
  have nonempty : cells before ≠ [] := by
    rintro nothing
    rw [nothing] at long
    simp at long
  have nodup := rep.all.1
  have all := rep.all
  have first := rep.first
  have last := rep.last
  rw [place] at nodup all first last
  have nextF : links.next h p.base = some m.addr :=
    (is_dll_links _ _ (cells before) (m.addr :: p.last :: cells after) p.base all).2
  have all' :
      IsDll (links.next h) (links.prev h) ((cells before ++ [p.base]) ++ m.addr :: (p.last :: cells after)) := by
    simpa using all
  have nextM : links.next h m.addr = some p.last := (is_dll_links _ _ _ _ m.addr all').2
  have inCells (a : Nat) (member : a ∈ cells before ++ p.base :: m.addr :: p.last :: cells after) :
      a ∈ cells (before ++ p :: after) := place ▸ member
  -- The chunk, then the front sentinel, then the end sentinel leave the list.
  have notFirstM : firstRef.load h ≠ some m.addr := by
    change h.first ≠ some m.addr
    rw [first, List.head?_append_of_ne_nil _ nonempty]
    intro same
    have := List.mem_of_mem_head? same
    grind
  obtain ⟨body1, all1, first1, last1, outside1, lists1⟩ :=
    body_unlink h _ _ _ m.addr rep.toBody all' (fun a member => inCells a (by grind))
  have same1 := sub_meta_same headerSize (unlinkNode links m.addr h)
  generalize step1 : subMeta headerSize (unlinkNode links m.addr h) = h1 at same1
  have body1' := body_congr _ h1 _ same1.mem same1.bucket body1
  rw [List.append_assoc, List.singleton_append, ← (links_same _ h1 same1.mem).1,
    ← (links_same _ h1 same1.mem).2] at all1
  have firstF := (same1.first.trans first1).trans first
  have headF : (cells before ++ p.base :: p.last :: cells after).head? = (cells before).head? :=
    List.head?_append_of_ne_nil _ nonempty
  rw [List.head?_append_of_ne_nil _ nonempty, ← headF] at firstF
  have notFirstF := first_next_ne h1 _ _ p.base all1 firstF long
  obtain ⟨body2, all2, first2, last2, outside2, lists2⟩ :=
    body_unlink h1 _ _ _ p.base body1' all1 (fun a member => inCells a (by grind))
  have same2 := sub_meta_same (headerSize + minSize) (unlinkNode links p.base h1)
  generalize step2 : subMeta (headerSize + minSize) (unlinkNode links p.base h1) = h2 at same2
  have body2' := body_congr _ h2 _ same2.mem same2.bucket body2
  rw [← (links_same _ h2 same2.mem).1, ← (links_same _ h2 same2.mem).2] at all2
  have lastL : h2.last = h.last := (same2.last.trans last2).trans (same1.last.trans last1)
  have prevL : links.prev h2 p.last = (cells before).getLast? := (is_dll_links _ _ _ _ p.last all2).1
  obtain ⟨h3, step3, mem3, bucket3, first3, last3, pages3⟩ : ∃ h3 : State σ,
      (if h2.last = some p.last then { h2 with last := links.prev h2 p.last } else h2) = h3 ∧ h3.mem = h2.mem ∧
        h3.freeBucket = h2.freeBucket ∧ h3.first = h2.first ∧ h3.last = (cells before ++ cells after).getLast? ∧
        h3.pages = h2.pages := by
    refine ⟨_, rfl, ?_⟩
    cases ending : cells after with
    | nil =>
        have isLast : h2.last = some p.last := by rw [lastL, last, ending]; simp
        rw [if_pos isLast, List.append_nil]
        exact ⟨rfl, rfl, rfl, prevL, rfl⟩
    | cons y rest =>
        have lastRest : h2.last = (y :: rest).getLast? := by
          have regroup : cells before ++ p.base :: m.addr :: p.last :: y :: rest =
            (cells before ++ [p.base, m.addr, p.last]) ++ (y :: rest) := by simp
          rw [lastL, last, ending, regroup, List.getLast?_append_of_ne_nil _ (by simp)]
        have notLast : h2.last ≠ some p.last := by
          rw [lastRest]
          intro same
          have := List.mem_of_getLast? same
          rw [ending] at nodup
          grind
        rw [if_neg notLast, lastRest, List.getLast?_append_of_ne_nil _ (by simp)]
        exact ⟨rfl, rfl, rfl, rfl, rfl⟩
  have body3 := body_congr h2 h3 _ mem3 bucket3 body2'
  rw [← (links_same _ h3 mem3).1, ← (links_same _ h3 mem3).2] at all2
  have firstL : h3.first = (cells before ++ p.last :: cells after).head? := by
    rw [first3, same2.first, first2, same1.first, first1, first, List.head?_append_of_ne_nil _ nonempty,
      List.head?_append_of_ne_nil _ nonempty]
  have notFirstL := first_next_ne h3 _ _ p.last all2 firstL long
  obtain ⟨body4, all4, first4, last4, outside4, lists4⟩ :=
    body_unlink h3 _ _ _ p.last body3 all2 (fun a member => inCells a (by grind))
  have same4 := sub_meta_same (headerSize + minSize) (unlinkNode links p.last h3)
  generalize step4 : subMeta (headerSize + minSize) (unlinkNode links p.last h3) = h4 at same4
  refine ⟨{ h4 with pages := A.free (v2p p.base) h4.pages }, ?_, ?_, ?_, ?_, ?_⟩
  · have removed1 : removeNode links firstRef m.addr h = unlinkNode links m.addr h := if_neg notFirstM
    have removed2 : removeNode links firstNextRef p.base h1 = unlinkNode links p.base h1 := if_neg notFirstF
    have removed4 : removeNode links firstNextRef p.last h3 = unlinkNode links p.last h3 := if_neg notFirstL
    simp only [returnPage, nextF, nextM, removed1, step1, removed2, step2, step3, removed4, step4]
  · apply rep_owner
    refine ⟨body_congr _ h4 _ same4.mem same4.bucket (body_drop _ before after p m only hand body4), ?_, ?_, ?_⟩
    · rw [(links_same _ h4 same4.mem).1, (links_same _ h4 same4.mem).2, cells_append]
      exact all4
    · rw [same4.first, first4, firstL, cells_append, List.head?_append_of_ne_nil _ nonempty,
        List.head?_append_of_ne_nil _ nonempty]
    · rw [same4.last, last4, last3, cells_append]
  · rw [same4.pages, outside4.owner, pages3, same2.pages, outside2.owner, same1.pages, outside1.owner]
  · intro x outside
    change h4.mem x = h.mem x
    rw [same4.mem, outside4.bytes x outside, mem3, same2.mem, outside2.bytes x outside, same1.mem,
      outside1.bytes x outside]
  · have upTo1 := relists_same lists1 (lists_same _ h1 same1.mem same1.bucket)
    have upTo2 := relists_same (relists_same upTo1 lists2) (lists_same _ h2 same2.mem same2.bucket)
    have upTo3 := relists_same upTo2 (lists_same h2 h3 mem3 bucket3)
    have upTo4 := relists_same (relists_same upTo3 lists4) (lists_same _ h4 same4.mem same4.bucket)
    exact relists_same upTo4 (lists_same h4 { h4 with pages := A.free (v2p p.base) h4.pages } rfl rfl)

theorem return_page_counted (A : PageAllocator σ) (f : Nat) (h h' : State σ) (done : returnPage A f h = .ok h') :
    counters h' + count 0 0 (2 * sizeofChunk + headerSize) = counters h := by
  rw [returnPage] at done
  split at done
  · cases done
  · split at done
    · cases done
    · next m _ l _ =>
        have skipped (g : State σ) :
            counters (if g.last = some l then { g with last := links.prev g l } else g) = counters g := by
          split <;> rfl
        have returned (g : State σ) (s : σ) : counters { g with pages := s } = counters g := rfl
        simp only [Except.ok.injEq] at done
        rw [← done, returned, counters_sub_meta, counters_remove_next, skipped, counters_sub_meta, counters_remove_next,
          counters_sub_meta, counters_remove_first]
        have sum : count 0 0 (2 * sizeofChunk + headerSize) =
            count 0 0 headerSize + (count 0 0 (headerSize + minSize) + count 0 0 (headerSize + minSize)) := by
          simp only [count_add]
          rfl
        rw [sum]
        abel

theorem create_chunk_spec (A : PageAllocator σ) (h : State σ) (s' : σ) (pages : List HeapPage) (addr : Nat)
    (rep : Rep h pages) (done : A.alloc 0 h.pages = .ok (addr, s')) (aligned : 0x1000 ∣ addr)
    (low : addr + 0x1000 ≤ 2 ^ 30) (fresh : p2v addr ∉ pages.map HeapPage.base) :
    ∃ p h', createChunk A h = .ok (p2v addr, h') ∧ p.base = p2v addr ∧
      p.chunks = [⟨p.base + sizeofChunk, 4044, .free⟩] ∧
      Rep h' (pages ++ [p]) ∧ h'.pages = s' ∧ (∀ x, ¬ Scratch (pages ++ [p]) x → h'.mem x = h.mem x) ∧
      counters h' = counters h + pageWeight p ∧
      Relists (pushed (bucketIndex 4044) (p.base + sizeofChunk + headerSize)) h h' := by
  have high : p2v addr = addr + kernelVirtualBase := p2v_low addr (by omega)
  have alignedBase : 0x1000 ∣ p2v addr := by
    rw [high]
    exact Nat.dvd_add aligned (by decide)
  have fits : p2v addr + pageSize ≤ 2 ^ 32 := by
    simp only [high, kernelVirtualBase, pageSize]
    omega
  have mAddr : Word.add (p2v addr) sizeofChunk = p2v addr + sizeofChunk :=
    Word.add_exact _ _ (by simp only [sizeofChunk, pageSize] at fits ⊢; omega)
  have lAddr : Word.sub (Word.add (p2v addr) pageSize) sizeofChunk = p2v addr + (pageSize - sizeofChunk) := by
    simp only [Word.add, Word.sub, pageSize, sizeofChunk] at fits ⊢
    omega
  have rep0 := rep_owner h pages s' rep
  obtain ⟨rep', outside, lists⟩ := install_page_spec _ pages (wholePage (p2v addr) .hand alignedBase (by omega) fits)
    (wholePage (p2v addr) .free alignedBase (by omega) fits) ⟨p2v addr + sizeofChunk, 4044, .hand⟩ rep0
      rfl rfl rfl rfl fresh
  have counted := install_page_counted { h with pages := s' } (wholePage (p2v addr) .hand alignedBase (by omega) fits)
    (wholePage (p2v addr) .free alignedBase (by omega) fits) ⟨p2v addr + sizeofChunk, 4044, .hand⟩ rfl rfl
  refine ⟨wholePage (p2v addr) .free alignedBase (by omega) fits, _, ?_, rfl, rfl, rep', outside.owner,
    outside.bytes, counted, same_relists (lists_same h { h with pages := s' } rfl rfl) lists⟩
  simp only [createChunk, done, mAddr, lAddr]
  rfl

end X86OS.Heap
