import X86OS.Mm.HeapGrow

set_option autoImplicit false

namespace X86OS.Heap

open Function Dll Mem

variable {σ : Type}

-- The bytes the representation is made of.
def MetaByte (pages : List HeapPage) (x : Nat) : Prop :=
  (∃ a ∈ cells pages, a ≤ x ∧ x < a + headerSize) ∨
    ∃ c ∈ chunks pages, c.status = .free ∧ c.addr + headerSize ≤ x ∧ x < c.addr + headerSize + minSize

theorem rep_mem (h : State σ) (pages : List HeapPage) (mem' : Mem) (rep : Rep h pages)
    (same : ∀ x, MetaByte pages x → mem' x = h.mem x) :
    Rep { h with mem := mem' } pages ∧ SameLists h { h with mem := mem' } := by
  have byte (a : Nat) (cell : a ∈ cells pages) : mem' (a + usedOffset) = h.mem (a + usedOffset) :=
    same _ (.inl ⟨a, cell, by omega, by simp [usedOffset, headerSize]⟩)
  have cellLinks (a : Nat) (cell : a ∈ cells pages) :
      links.next { h with mem := mem' } a = links.next h a ∧ links.prev { h with mem := mem' } a = links.prev h a := by
    simp only [links]
    rw [read_word_congr h.mem mem' a (fun x low high => same x (.inl ⟨a, cell, low, by simp only [headerSize]; omega⟩)),
      read_word_congr h.mem mem' (a + 4)
        (fun x low high => same x (.inl ⟨a, cell, by omega, by simp only [headerSize]; omega⟩))]
    exact ⟨rfl, rfl⟩
  have freeLinks (i a : Nat) (node : FreeNode pages i a) :
      links.next { h with mem := mem' } a = links.next h a ∧ links.prev { h with mem := mem' } a = links.prev h a := by
    obtain ⟨c, member, free, -, rfl⟩ := node
    simp only [links]
    rw [read_word_congr h.mem mem' _
      (fun x low high => same x (.inr ⟨c, member, free, low, by simp only [minSize]; omega⟩)),
      read_word_congr h.mem mem' _
        (fun x low high => same x (.inr ⟨c, member, free, by omega, by simp only [minSize]; omega⟩))]
    exact ⟨rfl, rfl⟩
  refine ⟨⟨⟨rep.distinct, ?_, ?_, ?_⟩, is_dll_congr _ _ _ _ _ rep.all cellLinks, rep.first, rep.last⟩,
    lists_congr h _ pages rep.buckets rfl freeLinks⟩
  · intro p member
    obtain ⟨base, last⟩ := page_cells pages p member
    change mem' _ = 1 ∧ mem' _ = 1
    rw [byte _ base, byte _ last]
    exact rep.ends p member
  · intro c member
    change StatusOk c.status (mem' _)
    rw [byte _ (chunk_cell pages c member)]
    exact rep.flags c member
  · exact buckets_congr h _ pages pages rep.buckets rfl (fun _ _ => Iff.rfl) freeLinks

theorem data_not_meta (pages : List HeapPage) (distinct : (pages.map HeapPage.base).Nodup) (c : Chunk) (x : Nat)
    (member : c ∈ chunks pages) (busy : c.status ≠ .free) (low : c.addr + headerSize ≤ x)
    (high : x < c.addr + headerSize + c.size) : ¬ MetaByte pages x := by
  have extent := chunk_extent pages c member
  rintro (⟨a, cell, lowA, highA⟩ | ⟨d, memberD, free, lowD, highD⟩)
  · obtain ⟨n, extentA⟩ := (mem_cells pages a).mp cell
    have bounds := extent_bounds pages _ extentA
    by_cases same : ((a, n) : Nat × Nat) = (c.addr, headerSize + c.size)
    · simp only [Prod.mk.injEq] at same
      omega
    · have apart := extents_disjoint pages distinct _ _ extentA extent same
      simp only [Disjoint, sizeofChunk, headerSize] at *
      omega
  · by_cases same : ((d.addr, headerSize + d.size) : Nat × Nat) = (c.addr, headerSize + c.size)
    · have equal := chunk_unique pages distinct d c memberD member (congrArg Prod.fst same)
      exact busy (equal ▸ free)
    · have apart := extents_disjoint pages distinct _ _ (chunk_extent pages d memberD) extent same
      have bounds := extent_bounds pages _ (chunk_extent pages d memberD)
      simp only [Disjoint, sizeofChunk, headerSize, minSize] at *
      omega

theorem chunk_place (pages : List HeapPage) (c : Chunk) (member : c ∈ chunks pages) :
    ∃ before p after left right, pages = before ++ p :: after ∧ p.chunks = left ++ [c] ++ right := by
  obtain ⟨p, inPages, inP⟩ := List.mem_flatMap.mp member
  obtain ⟨before, after, rfl⟩ := List.append_of_mem inPages
  obtain ⟨left, right, split⟩ := List.append_of_mem inP
  exact ⟨before, p, after, left, right, rfl, by simpa using split⟩

theorem chunk_next (h : State σ) (pages : List HeapPage) (rep : Rep h pages) (c : Chunk) (member : c ∈ chunks pages) :
    links.next h c.addr = some (c.addr + headerSize + c.size) ∧ c.addr + headerSize + c.size < 2 ^ 32 := by
  obtain ⟨before, p, after, left, right, rfl, split⟩ := chunk_place pages c member
  have laid := p.laid
  rw [split, List.append_assoc, List.singleton_append] at laid
  obtain ⟨-, -, -, back⟩ := laid_split _ _ left right c laid
  have all := rep.all
  rw [cells_at before after p left [c] right split] at all
  have next := (is_dll_links _ _ _ (backCells p right after) c.addr all).2
  have head : (backCells p right after).head? = some (c.addr + headerSize + c.size) := by
    have following := laid_head _ _ right back
    rw [backCells, List.append_cons, List.head?_append_of_ne_nil _ (by simp)]
    exact following
  have bound := laid_le _ _ _ back
  have fits := p.fits
  simp only [pageSize, sizeofChunk] at bound fits
  exact ⟨next.trans head, by omega⟩

theorem chunk_sizes (h : State σ) (pages : List HeapPage) (rep : Rep h pages) (c : Chunk) (member : c ∈ chunks pages) :
    getChunkSize h c.addr = c.size ∧ getBucketIndex h c.addr = bucketIndex c.size := by
  obtain ⟨next, small⟩ := chunk_next h pages rep c member
  exact (size_of_next h c.addr c.size next small).2

theorem search_buckets_spec (h : State σ) (pages : List HeapPage) (fuel i : Nat) (rep : Rep h pages)
    (enough : numSizes ≤ i + fuel) :
    (searchBuckets fuel i h = (none, h) ∧ ∀ j, i ≤ j → j < numSizes → h.freeBucket j = none) ∨
      ∃ c ∈ chunks pages, c.status = .free ∧ i ≤ bucketIndex c.size ∧
        h.freeBucket (bucketIndex c.size) = some (c.addr + headerSize) ∧
        searchBuckets fuel i h =
          (some c.addr, removeNode links (bucketRef (bucketIndex c.size)) (c.addr + headerSize) h) := by
  induction fuel generalizing i with
  | zero => exact .inl ⟨rfl, fun j low high => absurd high (by omega)⟩
  | succ fuel ih =>
      rw [searchBuckets]
      by_cases small : i < numSizes
      · rw [if_pos small]
        cases head : h.freeBucket i with
        | none =>
            rw [if_neg (by simp)]
            rcases ih (i + 1) (by omega) with ⟨result, empty⟩ | ⟨c, member, free, above, found⟩
            · refine .inl ⟨result, ?_⟩
              intro j low high
              by_cases same : j = i
              · exact same ▸ head
              · exact empty j (by omega) high
            · exact .inr ⟨c, member, free, by omega, found⟩
        | some node =>
            rw [if_pos (by simp)]
            obtain ⟨nodes, dll, headEq, members⟩ := rep.buckets i small
            rw [head] at headEq
            obtain ⟨c, member, free, index, rfl⟩ := (members node).mp (List.mem_of_mem_head? headEq.symm)
            have loaded : (bucketRef i).load h = some (c.addr + headerSize) := head
            have popped : popNode links (bucketRef i) h =
                (some (c.addr + headerSize), removeNode links (bucketRef i) (c.addr + headerSize) h) := by
              rw [removeNode, if_pos loaded, popNode, loaded]
            refine .inr ⟨c, member, free, by omega, index ▸ head, ?_⟩
            rw [popFreeChunk, if_neg (by omega), popped, index]
            simp
      · rw [if_neg small]
        exact .inl ⟨rfl, fun j low high => absurd high (by omega)⟩

theorem scratch_mono (pages pages' : List HeapPage) (bases : ∀ q ∈ pages', ∃ p ∈ pages, p.base = q.base)
    (clients : ∀ x, ClientByte pages x → ClientByte pages' x) (x : Nat) (inside : Scratch pages' x) :
    Scratch pages x := by
  obtain ⟨⟨q, member, low, high⟩, notClient⟩ := inside
  obtain ⟨p, inPages, base⟩ := bases q member
  exact ⟨⟨p, inPages, base ▸ low, base ▸ high⟩, fun client => notClient (clients x client)⟩

section split

variable {before after : List HeapPage} {p p' : HeapPage} {left mid mid' right : List Chunk}

theorem page_bases (base : p'.base = p.base) (q : HeapPage) (member : q ∈ before ++ p' :: after) :
    ∃ o ∈ before ++ p :: after, o.base = q.base := by
  simp only [List.mem_append, List.mem_cons] at member ⊢
  rcases member with inBefore | rfl | inAfter
  · exact ⟨q, .inl inBefore, rfl⟩
  · exact ⟨p, .inr (.inl rfl), base.symm⟩
  · exact ⟨q, .inr (.inr inAfter), rfl⟩

theorem edit_scratch (split : p.chunks = left ++ mid ++ right) (split' : p'.chunks = left ++ mid' ++ right)
    (base : p'.base = p.base) (unowned : ∀ c ∈ mid, c.status ≠ .used) (x : Nat)
    (inside : Scratch (before ++ p' :: after) x) : Scratch (before ++ p :: after) x := by
  refine scratch_mono _ _ (page_bases base) ?_ x inside
  rintro y ⟨d, memberD, used, range⟩
  refine ⟨d, ?_, used, range⟩
  rw [mem_chunks_at before after p left mid right split] at memberD
  rw [mem_chunks_at before after p' left mid' right split']
  rcases memberD with inMid | others
  · exact absurd used (unowned d inMid)
  · exact .inr others

variable {h : State σ} {c : Chunk} {allocSize rest : Nat}

theorem split_laid (size : c.size = allocSize + headerSize + rest) (four : 4 ∣ allocSize) (least : minSize ≤ allocSize)
    (leastRest : minSize ≤ rest) (s s' : Status) (a b : Nat) (run : Laid a [c] b) :
    Laid a [⟨c.addr, allocSize, s⟩, ⟨c.addr + headerSize + allocSize, rest, s'⟩] b := by
  simp only [Laid, headerSize] at *
  omega

-- The `used` byte of the new chunk is written while it is still data of the old one.
theorem rep_cut (split : p.chunks = left ++ [c] ++ right) (rep : Rep h (before ++ p :: after)) (hand : c.status = .hand)
    (size : c.size = allocSize + headerSize + rest) :
    Rep (setUsed (c.addr + headerSize + allocSize) false h) (before ++ p :: after) ∧
      SameOutside (before ++ p :: after) h (setUsed (c.addr + headerSize + allocSize) false h) ∧
      SameLists h (setUsed (c.addr + headerSize + allocSize) false h) := by
  have member : c ∈ chunks (before ++ p :: after) := chunk_here split
  have busy : c.status ≠ .free := by rw [hand]; decide
  have unowned : c.status ≠ .used := by rw [hand]; decide
  have low : c.addr + headerSize ≤ c.addr + headerSize + allocSize + usedOffset := by omega
  have high : c.addr + headerSize + allocSize + usedOffset < c.addr + headerSize + c.size := by
    simp only [headerSize, usedOffset] at *
    omega
  obtain ⟨rep', lists⟩ :=
    rep_mem h (before ++ p :: after) (setUsed (c.addr + headerSize + allocSize) false h).mem rep (by
    intro x isMeta
    apply write_byte_frame
    rintro rfl
    exact data_not_meta _ rep.distinct c _ member busy low high isMeta)
  refine ⟨rep', ⟨?_, rfl⟩, lists⟩
  intro x outside
  apply write_byte_frame
  rintro rfl
  exact outside (chunk_scratch rep.distinct c _ member unowned (by omega) (by omega))

theorem file_tail (c n : Chunk) (k : Nat) (split : p.chunks = left ++ [c, n] ++ right)
    (rep : Rep h (before ++ p :: after)) (hand : c.status = .hand) (handN : n.status = .hand)
    (flag : h.mem (c.addr + usedOffset) = 1) (flagN : h.mem (n.addr + usedOffset) = 0) (base : p'.base = p.base)
    (split' : p'.chunks = left ++ [{ c with status := .used }, { n with status := .free }] ++ right) :
    Rep (addFree k (pushNode links (bucketRef (getBucketIndex h n.addr)) (n.addr + headerSize) h))
      (before ++ p' :: after) ∧
      SameOutside (before ++ p :: after) h
        (addFree k (pushNode links (bucketRef (getBucketIndex h n.addr)) (n.addr + headerSize) h)) ∧
      Relists (pushed (bucketIndex n.size) (n.addr + headerSize)) h
        (addFree k (pushNode links (bucketRef (getBucketIndex h n.addr)) (n.addr + headerSize) h)) := by
  have member : n ∈ chunks (before ++ p :: after) :=
    (mem_chunks_at before after p left _ right split _).mpr (.inl (by simp))
  rw [(chunk_sizes h _ rep n member).2]
  let p1 := p.replace left [c, n] [{ c with status := .used }, n] right split (by simp [Laid])
  have split1 : p1.chunks = left ++ [{ c with status := .used }, n] ++ right := rfl
  have splitC : p.chunks = left ++ [c] ++ n :: right := by simpa using split
  have splitN : p1.chunks = left ++ [{ c with status := .used }] ++ [n] ++ right := by simpa using split1
  have rep1 : Rep h (before ++ p1 :: after) :=
    rep_relabel splitC rep .used (by rw [hand]; decide) (by decide) flag rfl (by rw [split1]; simp)
  obtain ⟨rep2, outside2, lists2⟩ := rep_bucket splitN rep1 handN flagN base (by rw [split']; simp)
  have unowned (d : Chunk) (inMid : d ∈ [c, n]) : d.status ≠ .used := by
    simp only [List.mem_cons, List.not_mem_nil, or_false] at inMid
    rcases inMid with rfl | rfl
    · rw [hand]
      decide
    · rw [handN]
      decide
  have outside3 := same_outside_congr _ _ _ _ (edit_scratch split split1 rfl unowned) outside2
  exact ⟨rep_same _ _ _ (add_free_same k _) rep2,
    same_outside_trans _ _ _ _ outside3 (outside_same _ _ _ (add_free_same k _)),
    relists_same lists2 (lists_same _ (addFree k _) rfl rfl)⟩

theorem split_chunk_spec (split : p.chunks = left ++ [c] ++ right) (rep : Rep h (before ++ p :: after))
    (hand : c.status = .hand) (flag : h.mem (c.addr + usedOffset) = 1) (size : c.size = allocSize + headerSize + rest)
    (four : 4 ∣ allocSize) (least : minSize ≤ allocSize) (leastRest : minSize ≤ rest) :
    ∃ p' : HeapPage, p'.base = p.base ∧
      p'.chunks = left ++ [⟨c.addr, allocSize, .used⟩, ⟨c.addr + headerSize + allocSize, rest, .free⟩] ++ right ∧
      Rep (splitChunk c.addr allocSize c.size h) (before ++ p' :: after) ∧
      SameOutside (before ++ p :: after) h (splitChunk c.addr allocSize c.size h) ∧
      counters (splitChunk c.addr allocSize c.size h) = counters h + count 0 rest headerSize ∧
      Relists (pushed (bucketIndex rest) (c.addr + headerSize + allocSize + headerSize)) h
        (splitChunk c.addr allocSize c.size h) := by
  have member : c ∈ chunks (before ++ p :: after) := chunk_here split
  have sizeBound := chunk_size_small _ c member
  obtain ⟨-, small⟩ := chunk_next h _ rep c member
  have start : Word.add c.addr (allocSize + headerSize) = c.addr + headerSize + allocSize := by
    rw [Word.add_exact _ _ (by omega)]
    omega
  have long : Word.sub c.size allocSize ≥ minSize + headerSize := by
    rw [Word.sub_exact _ _ (by omega) (by omega)]
    omega
  let n : Chunk := ⟨c.addr + headerSize + allocSize, rest, .hand⟩
  let c' : Chunk := ⟨c.addr, allocSize, .hand⟩
  have cut := split_laid size four least leastRest
  let p1 := p.replace left [c] [c', n] right split (cut .hand .hand)
  let p2 := p.replace left [c] [⟨c.addr, allocSize, .used⟩, ⟨n.addr, rest, .free⟩] right split (cut .used .free)
  have split1 : p1.chunks = left ++ [c', n] ++ right := rfl
  have split2 : p2.chunks = left ++ [{ c' with status := .used }, { n with status := .free }] ++ right := rfl
  have memberC : c' ∈ chunks (before ++ p1 :: after) :=
    (mem_chunks_at before after p1 left _ right split1 _).mpr (.inl (by simp))
  have memberN : n ∈ chunks (before ++ p1 :: after) :=
    (mem_chunks_at before after p1 left _ right split1 _).mpr (.inl (by simp))
  obtain ⟨repCut, outsideCut, listsCut⟩ := rep_cut split rep hand size
  obtain ⟨repSplit, outsideSplit, usedSplit, listsSplit⟩ := rep_split c c' n split split1 rfl repCut hand rfl rfl rfl
  have flagC : (insertNode links c.addr n.addr (setUsed n.addr false h)).mem (c'.addr + usedOffset) = 1 := by
    refine (usedSplit _ (chunk_cell _ _ memberC)).trans (Eq.trans ?_ flag)
    apply write_byte_frame
    simp only [c', usedOffset, headerSize]
    omega
  have flagN : (insertNode links c.addr n.addr (setUsed n.addr false h)).mem (n.addr + usedOffset) = 0 :=
    (usedSplit _ (chunk_cell _ _ memberN)).trans (write_byte_here _ _ _)
  have outside := same_outside_trans _ _ _ _ outsideCut outsideSplit
  rw [splitChunk, if_pos long, start]
  have same := add_meta_same headerSize (insertNode links c.addr n.addr (setUsed n.addr false h))
  have filed (k : Nat) :=
    file_tail c' n k split1 (rep_same _ _ _ same repSplit) rfl rfl ((congrFun same.mem _).trans flagC)
    ((congrFun same.mem _).trans flagN) (rfl : p2.base = p1.base) split2
  have scratch (x : Nat) (inside : Scratch (before ++ p1 :: after) x) : Scratch (before ++ p :: after) x :=
    edit_scratch split split1 rfl (by simp [hand]) x inside
  refine ⟨p2, rfl, rfl, (filed _).1, ?_, ?_, ?_⟩
  · exact same_outside_trans _ _ _ _ outside (same_outside_trans _ _ _ _ (outside_same _ _ _ same)
      (same_outside_congr _ _ _ _ scratch (filed _).2.1))
  · have tail : (⟨n.addr, rest, .free⟩ : Chunk) ∈ chunks (before ++ p2 :: after) :=
      (mem_chunks_at before after p2 left _ right split2 _).mpr (.inl (by simp [n]))
    have tailSize := (chunk_sizes _ _ (filed 0).1 _ tail).1
    rw [(sizes_same _ _ (add_free_same 0 _).mem _).2] at tailSize
    rw [counters_add_free, tailSize, counters_push, counters_add_meta, counters_insert, counters_set_used,
      add_assoc, count_add, Nat.zero_add, Nat.zero_add, Nat.add_zero]
  · exact same_relists listsCut
      (same_relists listsSplit (same_relists (lists_same _ _ same.mem same.bucket) (filed _).2.2))

end split

theorem taken_whole_count (base : Count) (size : Nat) :
    base - count 0 size 0 + count size 0 0 + count 0 size headerSize = base + (count size 0 headerSize + 0) := by
  have header : count 0 size headerSize + count size 0 0 = count size 0 headerSize + count 0 size 0 := by
    simp [count_add]
  calc base - count 0 size 0 + count size 0 0 + count 0 size headerSize
      = base + (count 0 size headerSize + count size 0 0 - count 0 size 0) := by abel
    _ = base + (count size 0 headerSize + 0) := by rw [header]; abel

theorem taken_split_count (base : Count) (size allocSize rest : Nat) :
    base - count 0 size 0 + count 0 rest headerSize + count allocSize 0 0 + count 0 size headerSize =
      base + (count allocSize 0 headerSize + (count 0 rest headerSize + 0)) := by
  have header : count 0 size headerSize + count allocSize 0 0 = count allocSize 0 headerSize + count 0 size 0 := by
    simp [count_add]
  calc base - count 0 size 0 + count 0 rest headerSize + count allocSize 0 0 + count 0 size headerSize
      = base + (count 0 size headerSize + count allocSize 0 0 - count 0 size 0 + count 0 rest headerSize) := by abel
    _ = base + (count allocSize 0 headerSize + (count 0 rest headerSize + 0)) := by rw [header]; abel

theorem take_chunk_spec (h : State σ) (before after : List HeapPage) (p : HeapPage) (left right : List Chunk)
    (c : Chunk) (allocSize : Nat) (split : p.chunks = left ++ [c] ++ right) (rep : Rep h (before ++ p :: after))
    (hand : c.status = .hand) (fits : allocSize ≤ c.size) (four : 4 ∣ allocSize) (least : minSize ≤ allocSize) :
    ∃ (p' : HeapPage) (mid : List Chunk) (h' : State σ),
      takeChunk c.addr allocSize h = (some (c.addr + headerSize), h') ∧
      p'.base = p.base ∧ p'.chunks = left ++ mid ++ right ∧
      ((mid = [⟨c.addr, c.size, .used⟩] ∧ SameLists h h') ∨
        ∃ rest, c.size = allocSize + headerSize + rest ∧
          mid = [⟨c.addr, allocSize, .used⟩, ⟨c.addr + headerSize + allocSize, rest, .free⟩] ∧
          Relists (pushed (bucketIndex rest) (c.addr + headerSize + allocSize + headerSize)) h h') ∧
      Rep h' (before ++ p' :: after) ∧ SameOutside (before ++ p :: after) h h' ∧
      counters h' + weight { c with status := .free } = counters h + tally mid := by
  have member : c ∈ chunks (before ++ p :: after) := chunk_here split
  have sizeBound := chunk_size_small _ c member
  obtain ⟨rep1, outside1, flag1, lists1⟩ := rep_set_used h _ c true rep member hand
  have size1 := (chunk_sizes _ _ rep1 c member).1
  have same2 := sub_free_same c.size (setUsed c.addr true h)
  have rep2 := rep_same _ _ _ same2 rep1
  have flag2 := (congrFun same2.mem (c.addr + usedOffset)).trans flag1
  have outside2 := same_outside_trans _ _ _ _ outside1 (outside_same _ _ (before ++ p :: after) same2)
  have lists2 := relists_same lists1 (lists_same _ (subFree c.size (setUsed c.addr true h)) rfl rfl)
  have counted2 : counters (subFree c.size (setUsed c.addr true h)) = counters h - count 0 c.size 0 := by
    rw [counters_sub_free, counters_set_used]
  simp only [takeChunk, size1]
  generalize subFree c.size (setUsed c.addr true h) = h2 at rep2 flag2 outside2 counted2 lists2
  have wrap (k : Nat) (h3 : State σ) (pages : List HeapPage) (rep3 : Rep h3 pages)
      (outside3 : SameOutside (before ++ p :: after) h2 h3) :
      Rep (addUsed k h3) pages ∧ SameOutside (before ++ p :: after) h (addUsed k h3) :=
    ⟨rep_same _ _ _ (add_used_same k h3) rep3, same_outside_trans _ _ _ _ outside2 (same_outside_trans _ _ _ _ outside3
      (outside_same _ _ _ (add_used_same k h3)))⟩
  by_cases long : minSize + headerSize ≤ c.size - allocSize
  · obtain ⟨rest, restEq⟩ : ∃ rest, c.size = allocSize + headerSize + rest :=
      ⟨c.size - allocSize - headerSize, by omega⟩
    obtain ⟨p', base, split', rep3, outside3, counted3, lists3⟩ :=
      split_chunk_spec split rep2 hand flag2 restEq four least (by omega)
    have front : (⟨c.addr, allocSize, .used⟩ : Chunk) ∈ chunks (before ++ p' :: after) :=
      (mem_chunks_at before after p' left _ right split' _).mpr (.inl (by simp))
    have size3 : getChunkSize _ c.addr = allocSize := (chunk_sizes _ _ rep3 _ front).1
    obtain ⟨rep4, outside4⟩ := wrap allocSize _ _ rep3 outside3
    rw [size3]
    refine ⟨p', _, _, rfl, base, split', .inr ⟨rest, restEq, rfl, ?_⟩, rep4, outside4, ?_⟩
    · exact same_relists lists2 (relists_same lists3 (lists_same _ (addUsed allocSize _) rfl rfl))
    rw [counters_add_used, counted3, counted2]
    exact taken_split_count (counters h) c.size allocSize rest
  · have short : ¬ Word.sub c.size allocSize ≥ minSize + headerSize := by
      rw [Word.sub_exact _ _ (by omega) fits]
      exact long
    let p' := p.replace left [c] [⟨c.addr, c.size, .used⟩] right split (by simp [Laid])
    rw [splitChunk, if_neg short]
    have rep3 : Rep h2 (before ++ p' :: after) :=
      rep_relabel split rep2 .used (by rw [hand]; decide) (by decide) flag2 rfl rfl
    have whole : (⟨c.addr, c.size, .used⟩ : Chunk) ∈ chunks (before ++ p' :: after) := chunk_here rfl
    have size3 : getChunkSize h2 c.addr = c.size := (chunk_sizes _ _ rep3 _ whole).1
    obtain ⟨rep4, outside4⟩ := wrap c.size _ _ rep3 (same_outside_refl _ h2)
    rw [size3]
    refine ⟨p', _, _, rfl, rfl, rfl, .inl ⟨rfl, relists_same lists2 (lists_same h2 (addUsed c.size h2) rfl rfl)⟩,
      rep4, outside4, ?_⟩
    rw [counters_add_used, counted2]
    exact taken_whole_count (counters h) c.size

end X86OS.Heap
