import X86OS.Mm.HeapReturn

set_option autoImplicit false

namespace X86OS.Heap

open Function Dll Mem Relation

variable {σ : Type}

theorem removed_pushed (k x i : Nat) (nodes : List Nat) : removed k x i (pushed k x i nodes) = nodes := by
  by_cases same : i = k
  · rw [removed, pushed, if_pos same, if_pos same, List.erase_cons_head]
  · rw [removed, pushed, if_neg same, if_neg same]

theorem pushed_removed (k x i : Nat) (nodes : List Nat) (first : i = k → nodes.head? = some x) :
    pushed k x i (removed k x i nodes) = nodes := by
  by_cases same : i = k
  · obtain ⟨rest, rfl⟩ := List.head?_eq_some_iff.mp (first same)
    rw [removed, pushed, if_pos same, if_pos same, List.erase_cons_head]
  · rw [removed, pushed, if_neg same, if_neg same]

theorem relists_congr {f g : Nat → List Nat → List Nat} {h h' : State σ} (step : Relists f h h')
    (same : ∀ i nodes, ListAt h i nodes → f i nodes = g i nodes) : Relists g h h' := by
  intro i small nodes list
  rw [← same i nodes list]
  exact step i small nodes list

-- A chunk on the way from its bucket to a client and back: it is in hand as if it had just
-- been taken off its bucket.
structure Recalled (A : PageAllocator σ) (h : State σ) (before after : List HeapPage) (p : HeapPage)
    (left right : List Chunk) (c : Chunk) (h' h'' : State σ) (p'' : HeapPage) : Prop where
  merged : kfreeChunk A c.addr h' = releaseChunk A c.addr h''
  held : Held h'' before after p'' left { c with status := .hand } right
  base : p''.base = p.base
  owner : h''.pages = h.pages
  lists : Relists (removed (bucketIndex c.size) (c.addr + headerSize)) h h''
  counted : counters h'' + count 0 c.size 0 = counters h

section Chunk

variable {h : State σ} {before after : List HeapPage} {p : HeapPage} {left right : List Chunk} {c : Chunk}

theorem neighbours_busy (split : p.chunks = left ++ [c] ++ right) (spread : p.chunks.IsChain Calm)
    (free : c.status = .free) :
    (∀ d ∈ left.getLast?, d.status ≠ .free) ∧ ∀ d ∈ right.head?, d.status ≠ .free := by
  simp only [split, List.isChain_append] at spread
  obtain ⟨⟨-, -, fromLeft⟩, -, toRight⟩ := spread
  exact ⟨fun d member freeD => fromLeft d member c (by simp) ⟨freeD, free⟩,
    fun d member freeD => toRight c (by simp) d member ⟨free, freeD⟩⟩

theorem held_next_used (held : Held h before after p left c right) (busy : ∀ d ∈ right.head?, d.status ≠ .free) :
    isUsed h ((right.map Chunk.addr).head?.getD p.last) = true := by
  cases right with
  | nil => exact (sentinel_used held.rep).2
  | cons d right => exact (held_used_byte held d (by simp)).mpr (busy d (by simp))

theorem held_prev_used (held : Held h before after p left c right) (busy : ∀ d ∈ left.getLast?, d.status ≠ .free) :
    isUsed h ((left.map Chunk.addr).getLast?.getD p.base) = true := by
  rcases List.eq_nil_or_concat left with rfl | ⟨left', d, rfl⟩
  · exact (sentinel_used held.rep).1
  · rw [List.concat_eq_append] at held busy ⊢
    have place : ((left' ++ [d]).map Chunk.addr).getLast?.getD p.base = d.addr := by simp
    rw [place]
    exact (held_used_byte held d (by simp)).mpr (busy d (by simp))

theorem kfree_alone (A : PageAllocator σ) (held : Held h before after p left c right)
    (busyLeft : ∀ d ∈ left.getLast?, d.status ≠ .free) (busyRight : ∀ d ∈ right.head?, d.status ≠ .free) :
    kfreeChunk A c.addr h = releaseChunk A c.addr (subUsed (getChunkSize h c.addr) h) := by
  have held1 := held_counters _ (sub_used_same (getChunkSize h c.addr) h) held
  simp only [kfreeChunk, held_next held, held_prev held]
  rw [if_pos (held_next_used held1 busyRight), if_pos (held_prev_used held1 busyLeft)]

theorem kfree_before_free (A : PageAllocator σ) (n : Chunk) (held : Held h before after p left c (n :: right))
    (free : n.status = .free) (busyLeft : ∀ d ∈ left.getLast?, d.status ≠ .free) :
    ∃ p' : HeapPage, p'.base = p.base ∧
      kfreeChunk A c.addr h = releaseChunk A c.addr (absorb n.addr n.addr (subUsed (getChunkSize h c.addr) h)) ∧
      Held (absorb n.addr n.addr (subUsed (getChunkSize h c.addr) h)) before after p' left
        ⟨c.addr, c.size + headerSize + n.size, .hand⟩ right ∧
      (absorb n.addr n.addr (subUsed (getChunkSize h c.addr) h)).pages = h.pages ∧
      Relists (removed (bucketIndex n.size) (n.addr + headerSize)) h
        (absorb n.addr n.addr (subUsed (getChunkSize h c.addr) h)) ∧
      counters (absorb n.addr n.addr (subUsed (getChunkSize h c.addr) h)) + weight n +
        count c.size 0 0 = counters h := by
  have size := (chunk_sizes h _ held.rep c (chunk_here held.split)).1
  have same := sub_used_same (getChunkSize h c.addr) h
  have held1 := held_counters _ same held
  have split : p.chunks = left ++ [c, n] ++ right := by simpa using held.split
  obtain ⟨p', base, split', rep', outside', counted, lists⟩ :=
    absorb_spec c n n split held1.rep free (.inr ⟨rfl, held.hand⟩)
  have merged : Held (absorb n.addr n.addr (subUsed (getChunkSize h c.addr) h)) before after p' left
      ⟨c.addr, c.size + headerSize + n.size, .hand⟩ right :=
    ⟨split', rep', rfl, fun e member => held.quiet e (member.imp_right (List.mem_cons_of_mem n)), held.calmLeft,
      held.calmRight.tail⟩
  have unused : ¬ isUsed (subUsed (getChunkSize h c.addr) h) n.addr = true := by
    rw [held_used_byte held1 n (by simp)]
    simpa using free
  have busy := held_prev_used merged busyLeft
  rw [base] at busy
  refine ⟨p', base, ?_, merged, outside'.owner, same_relists (lists_same h _ same.mem same.bucket) lists, ?_⟩
  · simp only [kfreeChunk, held_next held, held_prev held, List.map_cons, List.head?_cons, Option.getD_some]
    rw [if_neg unused, if_pos busy]
  · rw [counted, counters_sub_used, size]
    abel

theorem take_recalled (A : PageAllocator σ) (allocSize : Nat) (split : p.chunks = left ++ [c] ++ right)
    (settled : Settled h (before ++ p :: after)) (free : c.status = .free) (fits : allocSize ≤ c.size)
    (four : 4 ∣ allocSize) (least : minSize ≤ allocSize) :
    ∃ h' h'' p'',
      takeChunk c.addr allocSize (removeNode links (bucketRef (bucketIndex c.size)) (c.addr + headerSize) h) =
        (some (c.addr + headerSize), h') ∧ Recalled A h before after p left right c h' h'' p'' := by
  obtain ⟨busyLeft, busyRight⟩ := neighbours_busy split (settled.spread p (by simp)) free
  have chain := settled.spread p (by simp)
  simp only [split, List.isChain_append] at chain
  have quiet (d : Chunk) (side : d ∈ left ∨ d ∈ right) : d.status ≠ .hand :=
    settled.noHand d ((mem_chunks_at before after p left [c] right split d).mpr (by tauto))
  let p1 := p.replace left [c] [{ c with status := .hand }] right split (by simp [Laid])
  obtain ⟨rep1, outside1, lists1⟩ := rep_unbucket split settled.toRep free (rfl : p1.base = p.base) rfl
  obtain ⟨p', mid, h', result, base', split', shape, rep', outside', counted⟩ :=
    take_chunk_spec _ before after p1 left right { c with status := .hand } allocSize rfl rep1 rfl fits four least
  have owner' : h'.pages = h.pages := outside'.owner.trans outside1.owner
  rw [counters_remove_bucket] at counted
  rcases shape with ⟨rfl, lists'⟩ | ⟨rest, whole, rfl, lists'⟩
  · -- The whole chunk: neither neighbour joins it.
    let p2 := p'.replace left [⟨c.addr, c.size, .used⟩] [{ c with status := .hand }] right split' (by simp [Laid])
    have rep2 : Rep h' (before ++ p2 :: after) := rep_relabel split' rep' .hand (by simp) (by decide) trivial rfl rfl
    have held : Held h' before after p2 left { c with status := .hand } right :=
      ⟨rfl, rep2, rfl, quiet, chain.1.1, chain.2.1⟩
    have size := (chunk_sizes h' _ rep2 _ (chunk_here held.split)).1
    have same := sub_used_same (getChunkSize h' c.addr) h'
    have merged := kfree_alone A held busyLeft busyRight
    refine ⟨h', _, p2, result, merged, held_counters _ same held, base', owner',
      relists_same (relists_same lists1 lists') (lists_same _ _ same.mem same.bucket), ?_⟩
    have weighed : count c.size 0 headerSize + count 0 c.size 0 = count 0 c.size headerSize + count c.size 0 0 := by
      simp [count_add]
    simp only [tally_cons, tally_nil, weight] at counted
    rw [counters_sub_used, size]
    linear_combination counted + weighed
  · -- The tail cut off the chunk joins it again.
    let n : Chunk := ⟨c.addr + headerSize + allocSize, rest, .free⟩
    have split2 : p'.chunks = left ++ [⟨c.addr, allocSize, .used⟩] ++ n :: right := by
      rw [split']
      simp [n]
    let p2 :=
      p'.replace left [⟨c.addr, allocSize, .used⟩] [⟨c.addr, allocSize, .hand⟩] (n :: right) split2 (by simp [Laid])
    have rep2 : Rep h' (before ++ p2 :: after) := rep_relabel split2 rep' .hand (by simp) (by decide) trivial rfl rfl
    have calmRight : (n :: right).IsChain Calm := by
      rw [List.isChain_cons]
      exact ⟨fun d member => calm_right _ _ (busyRight d member), chain.2.1⟩
    have held : Held h' before after p2 left ⟨c.addr, allocSize, .hand⟩ (n :: right) := by
      refine ⟨rfl, rep2, rfl, ?_, chain.1.1, calmRight⟩
      rintro d (inLeft | inRight)
      · exact quiet d (.inl inLeft)
      · rcases List.mem_cons.mp inRight with rfl | inRight
        · simp [n]
        · exact quiet d (.inr inRight)
    obtain ⟨p3, base3, merged, held3, owner3, lists3, counted3⟩ := kfree_before_free A n held rfl busyLeft
    have size : allocSize + headerSize + rest = c.size := whole.symm
    simp only [n, size] at held3
    refine ⟨h', _, p3, result, merged, held3, base3.trans base', owner3.trans owner', ?_, ?_⟩
    · refine relists_congr (relists_trans (relists_trans lists1 lists') lists3) ?_
      intro i nodes _
      exact removed_pushed _ _ i _
    · have weighed : count allocSize 0 headerSize + count 0 rest headerSize + count 0 c.size 0 =
          count 0 c.size headerSize + count 0 rest headerSize + count allocSize 0 0 := by
        simp only [count_add]
        congr 1 <;> omega
      simp only [tally_cons, tally_nil, weight, n] at counted counted3
      linear_combination counted + counted3 + weighed

end Chunk

-- The second state has the chunks of the first in the same order with the same sizes and
-- flags, every bucket list in the same order, both ends and the counters.
structure Restored (h h' : State σ) : Prop where
  chunks : ∃ list, IsDll (links.next h) (links.prev h) list ∧ h.first = list.head? ∧
    IsDll (links.next h') (links.prev h') list ∧ h'.first = list.head? ∧
    ∀ a ∈ list, getChunkSize h' a = getChunkSize h a ∧ isUsed h' a = isUsed h a
  buckets : ∀ i, i < numSizes → ∃ nodes, ListAt h i nodes ∧ ListAt h' i nodes
  ends : h'.first = h.first ∧ h'.last = h.last
  counts : tallies h' = tallies h

theorem dll_next_same (next prev next' prev' : Nat → Option Nat) (list : List Nat) (dll : IsDll next prev list)
    (dll' : IsDll next' prev' list) (a : Nat) (member : a ∈ list) : next' a = next a := by
  obtain ⟨front, back, rfl⟩ := List.append_of_mem member
  rw [(is_dll_links _ _ front back a dll).2, (is_dll_links _ _ front back a dll').2]

-- A state that represents the same pages and keeps the lists in order is the same heap.
theorem rep_restored (h h' : State σ) (pages : List HeapPage) (settled : Settled h pages) (rep : Rep h' pages)
    (lists : SameLists h h') (counts : tallies h' = tallies h) : Restored h h' := by
  have settled' : Settled h' pages := ⟨rep, settled.noHand, settled.spread⟩
  refine ⟨⟨cells pages, settled.all, settled.first, rep.all, rep.first, ?_⟩, ?_, ⟨rep.first.trans settled.first.symm,
    rep.last.trans settled.last.symm⟩, counts⟩
  · intro a cell
    constructor
    · simp only [getChunkSize, getTotalSize, dll_next_same _ _ _ _ _ settled.all rep.all a cell]
    · obtain ⟨n, extent⟩ := (mem_cells pages a).mp cell
      rcases extent_cases pages _ extent with ⟨c, member, same⟩ | ⟨p, member, same⟩
      · obtain rfl : a = c.addr := (Prod.mk.inj same).1
        exact Bool.eq_iff_iff.mpr
          ((settled_used h' pages settled' c member).1.trans (settled_used h pages settled c member).1.symm)
      · obtain ⟨front, last⟩ := settled.ends p member
        obtain ⟨front', last'⟩ := rep.ends p member
        rcases same with same | same
        · obtain rfl : a = p.base := (Prod.mk.inj same).1
          rw [isUsed, isUsed, front, front']
        · obtain rfl : a = p.last := (Prod.mk.inj same).1
          rw [isUsed, isUsed, last, last']
  · intro i small
    obtain ⟨nodes, dll, head, -⟩ := settled.buckets i small
    exact ⟨nodes, ⟨dll, head⟩, lists i small nodes ⟨dll, head⟩⟩

theorem page_ext (p q : HeapPage) (base : p.base = q.base) (chunks : p.chunks = q.chunks) : p = q := by
  cases p
  cases q
  simp only at base chunks
  subst base
  subst chunks
  rfl

section Calls

variable {A : PageAllocator σ} {Live : σ → List (Nat × Nat) → Prop} (lawful : A.Lawful Live)

theorem served_undone (h : State σ) (before after : List HeapPage) (p : HeapPage) (left right : List Chunk) (c : Chunk)
    (settled : Settled h (before ++ p :: after)) (populated : Populated (before ++ p :: after))
    (split : p.chunks = left ++ [c] ++ right) (free : c.status = .free)
    (head : h.freeBucket (bucketIndex c.size) = some (c.addr + headerSize)) (h' h'' : State σ) (p'' : HeapPage)
    (recalled : Recalled A h before after p left right c h' h'' p'') :
    ∃ last, kfreeChunk A c.addr h' = .ok last ∧ Rep last (before ++ p :: after) ∧ SameLists h last ∧
      last.pages = h.pages ∧
      counters last = counters h := by
  obtain ⟨busyLeft, busyRight⟩ := neighbours_busy split (settled.spread p (by simp)) free
  obtain ⟨last, result, -, ⟨q, base, splitQ, -, rep, owner, -, counted, lists⟩ | ⟨only, nonempty, -⟩⟩ :=
    release_spec A recalled.held busyLeft busyRight
  · have chunk : (⟨c.addr, c.size, .free⟩ : Chunk) = c := by
      rw [← free]
    obtain rfl : q = p := page_ext q p (base.trans recalled.base) (by rw [splitQ, split, chunk])
    refine ⟨last, recalled.merged.trans result, rep, ?_, owner.trans recalled.owner, by rw [counted, recalled.counted]⟩
    refine relists_congr (relists_trans recalled.lists lists) ?_
    intro i nodes list
    refine pushed_removed _ _ i nodes ?_
    rintro rfl
    exact list.2.symm.trans head
  · -- A page that is all free is the first one.
    have alone : left = [] ∧ right = [] := by
      have lengths := congrArg List.length (only.symm.trans recalled.held.split)
      simp only [List.length_append, List.length_singleton] at lengths
      exact ⟨List.length_eq_zero_iff.mp (by omega), List.length_eq_zero_iff.mp (by omega)⟩
    have inTail : p ∈ (before ++ p :: after).tail := by
      obtain ⟨q, rest, rfl⟩ := List.exists_cons_of_ne_nil nonempty
      simp
    obtain ⟨d, inP, used⟩ := populated p inTail
    rw [split, alone.1, alone.2] at inP
    obtain rfl : d = c := by simpa using inP
    rw [free] at used
    cases used

theorem grown_undone (h : State σ) (pages : List HeapPage) (p : HeapPage) (c : Chunk) (grown : pages ≠ [])
    (only : p.chunks = [c]) (free : c.status = .free) (h' h'' : State σ) (p'' : HeapPage)
    (recalled : Recalled A h pages [] p [] [] c h' h'' p'') :
    ∃ last, kfreeChunk A c.addr h' = .ok last ∧ Rep last pages ∧
      Relists (removed (bucketIndex c.size) (c.addr + headerSize)) h last ∧ last.pages = A.free (v2p p.base) h.pages ∧
      counters last + pageWeight p = counters h := by
  obtain ⟨last, result, -, ⟨-, -, -, -, -, -, company, -⟩ | ⟨-, -, rep, owner, counted, lists⟩⟩ :=
    release_spec A recalled.held (by simp) (by simp)
  · rcases company grown with impossible | impossible <;> exact absurd rfl impossible
  · rw [List.append_nil] at rep
    refine ⟨last, recalled.merged.trans result, rep, relists_same recalled.lists lists, ?_, ?_⟩
    · rw [owner, recalled.owner, recalled.base]
    · have weighed : pageWeight p = count 0 0 (2 * sizeofChunk + headerSize) + count 0 c.size 0 := by
        simp only [pageWeight, only, tally_cons, tally_nil, weight, free, add_zero, count_add, Nat.zero_add]
      rw [weighed, ← recalled.counted, ← counted]
      abel

include lawful

theorem kmalloc_chunk_undone (h h' : State σ) (pages : List HeapPage) (rest : List (Nat × Nat)) (size ptr : Nat)
    (owned : Owned Live h pages rest) (populated : Populated pages) (least : minSize ≤ size) (small : size < 0x1000)
    (done : kmallocChunk A size h = .ok (some ptr, h')) :
    ∃ last, kfree A ptr h' = .ok last ∧ Rep last pages ∧ SameLists h last ∧
      Live last.pages (pages.map pageBlock ++ rest) ∧
      counters last = counters h := by
  obtain ⟨enough, four⟩ := align_up_spec size small
  have leastAlloc : minSize ≤ alignUp size align := by omega
  -- The address handed out is that of a chunk, so `kfree` takes the way of chunks.
  have freed (pages' : List HeapPage) (c : Chunk) (member : c ∈ chunks pages') (g : State σ) :
      kfree A (c.addr + headerSize) g = kfreeChunk A c.addr g := by
    have bounds := extent_bounds pages' _ (chunk_extent pages' c member)
    have leastC := chunk_least pages' c member
    simp only [minSize] at bounds leastC
    rw [kfree, if_neg (chunk_unaligned pages' c member), Word.sub_exact _ _ (by omega) (by omega), Nat.add_sub_cancel]
  rcases kmalloc_chunk_cases lawful h pages rest size owned least small with ⟨-, refused⟩ | ⟨e, -, failed⟩ |
    ⟨c, member, free, above, head, result⟩ |
    ⟨addr, s', p, h1, c, -, -, new, only, owned1, -, counted1, lists1, above, -, result⟩
  · cases refused.symm.trans done
  · cases failed.symm.trans done
  · have fits := order_fits _ _ leastAlloc (chunk_least pages c member) above
    have place := freed pages c member h'
    obtain ⟨before, p, after, left, right, rfl, split⟩ := chunk_place pages c member
    obtain ⟨taken, h'', p'', take, recalled⟩ := take_recalled A _ split owned.toSettled free fits four leastAlloc
    rw [result, take] at done
    cases done
    obtain ⟨last, undone, rep, lists, owner, counted⟩ :=
      served_undone h before after p left right c owned.toSettled populated split free head h' h'' p'' recalled
    exact ⟨last, place.trans undone, rep, lists, owner ▸ owned.owner, counted⟩
  · have free : c.status = .free := by rw [new]
    have member : c ∈ chunks (pages ++ [p]) := by simp [chunks, only]
    have fits := order_fits _ _ leastAlloc (chunk_least _ c member) above
    have place := freed (pages ++ [p]) c member h'
    have split : p.chunks = [] ++ [c] ++ [] := only
    obtain ⟨taken, h'', p'', take, recalled⟩ := take_recalled A _ split owned1.toSettled free fits four leastAlloc
    rw [result, take] at done
    cases done
    obtain ⟨last, undone, rep, lists, owner, counted⟩ :=
      grown_undone h1 pages p c owned.grown only free h' h'' p'' recalled
    refine ⟨last, place.trans undone, rep, ?_, ?_, ?_⟩
    · refine relists_congr (relists_trans lists1 lists) ?_
      intro i nodes _
      exact removed_pushed _ _ i nodes
    · rw [owner]
      apply lawful.freed _ _ 0
      apply lawful.reorder _ _ _ _ owned1.owner
      rw [List.map_append, List.map_singleton, List.append_assoc]
      exact List.perm_middle
    · exact add_right_cancel (counted.trans counted1)

omit lawful in
theorem kmalloc_pages_data (h h' : State σ) (size ptr : Nat) (done : kmallocPages A size h = .ok (some ptr, h')) :
    h'.mem = h.mem ∧ h'.freeBucket = h.freeBucket ∧ h'.first = h.first ∧ h'.last = h.last := by
  simp only [kmallocPages] at done
  split at done
  · cases done
  · split at done
    · cases done
    · cases done
      exact ⟨rfl, rfl, rfl, rfl⟩

theorem kmalloc_pages_undone (h h' : State σ) (pages : List HeapPage) (rest : List (Nat × Nat)) (size ptr : Nat)
    (owned : Owned Live h pages rest) (large : 0x1000 ≤ size) (done : kmallocPages A size h = .ok (some ptr, h')) :
    ∃ last, kfree A ptr h' = .ok last ∧ Rep last pages ∧ SameLists h last ∧
      Live last.pages (pages.map pageBlock ++ rest) ∧
      counters last = counters h := by
  obtain ⟨mem, heads, -⟩ := kmalloc_pages_data h h' size ptr done
  rcases kmalloc_pages_spec lawful h pages rest size owned large with ⟨e, -, failed⟩ | ⟨addr, k, h1, result, -,
    owned1, -, counted1⟩
  · cases failed.symm.trans done
  · cases result.symm.trans done
    obtain ⟨last, freed, ownedLast, memLast, countedLast⟩ :=
      kfree_block_spec lawful h' pages _ rest addr k owned1 (List.Perm.refl _)
    have headsLast : last.freeBucket = h'.freeBucket := by
      have high := live_high lawful _ _ addr k owned1.owner (by simp)
      have aligned : isAligned (p2v addr) pageSize = true := (is_aligned_iff (p2v addr) 12).mpr high.2.1
      rw [kfree, if_pos aligned] at freed
      cases freed
      rfl
    refine ⟨last, freed, ownedLast.toRep, lists_same h last (memLast.trans mem) (headsLast.trans heads),
      ownedLast.owner, ?_⟩
    exact add_right_cancel (countedLast.trans counted1)

theorem kmalloc_undone (h h' : State σ) (pages : List HeapPage) (rest : List (Nat × Nat)) (size ptr : Nat)
    (owned : Owned Live h pages rest) (populated : Populated pages) (done : kmalloc A size h = .ok (some ptr, h')) :
    ∃ last, kfree A ptr h' = .ok last ∧ Rep last pages ∧ SameLists h last ∧
      Live last.pages (pages.map pageBlock ++ rest) ∧
      counters last = counters h := by
  rw [kmalloc] at done
  split at done
  · cases done
  · simp only at done
    by_cases large : 0x1000 ≤ (if size < minSize then minSize else size)
    · rw [if_pos large] at done
      exact kmalloc_pages_undone lawful h h' pages rest _ ptr owned large done
    · rw [if_neg large] at done
      refine kmalloc_chunk_undone lawful h h' pages rest _ ptr owned populated ?_ (Nat.not_le.mp large) done
      split <;> omega

end Calls

theorem kfree_undoes_kmalloc {A : PageAllocator σ} {Live : σ → List (Nat × Nat) → Prop} (lawful : A.Lawful Live)
    (h₀ h₁ : State (σ × List PageEvent)) (foreign : List (Nat × Nat)) (blank : Blank h₀) (words : Words h₀)
    (owner : LoggedLive Live h₀.pages foreign) (start : initKmalloc A.logged h₀ = .ok h₁)
    (config : Config (σ × List PageEvent)) (run : ReflTransGen (Step A.logged) ⟨h₁, [], foreign⟩ config)
    (size ptr : Nat) (h' : State (σ × List PageEvent)) (done : kmalloc A.logged size config.heap = .ok (some ptr, h')) :
    ∃ last, kfree A.logged ptr h' = .ok last ∧ Restored config.heap last ∧
      (outstanding last.pages.2).Perm (outstanding config.heap.pages.2) := by
  have logged := logged_lawful A Live lawful
  obtain ⟨p, complete, -⟩ := init_complete logged h₀ h₁ foreign blank words owner start
  obtain ⟨pages, big, complete'⟩ := run_complete logged _ config [p] [] _ _ complete run
  obtain ⟨last, freed, rep, lists, live, counted⟩ :=
    kmalloc_undone logged config.heap h' pages _ size ptr complete'.owned complete'.populated done
  have wordsLast := kfree_words A.logged ptr h' last (kmalloc_words A.logged size _ h' _ complete'.words done) freed
  refine ⟨last, freed, rep_restored _ last pages complete'.owned.toSettled rep lists ?_, ?_⟩
  · exact counters_inj last config.heap wordsLast complete'.words counted
  · exact live.held.trans complete'.owned.owner.held.symm

theorem kfree_undoes_kmalloc_small : ∃ h₁ ptr h' last, initKmalloc pmm.logged loggedHeap = .ok h₁ ∧
    kmalloc pmm.logged 0x1000 h₁ = .ok (some ptr, h') ∧ kfree pmm.logged ptr h' = .ok last ∧ Restored h₁ last := by
  obtain ⟨s', s'', first, second⟩ := Buddy.small_alloc_twice
  obtain ⟨h₁, start, pages⟩ := logged_heap_init s' first
  have available : pmm.logged.alloc 0 h₁.pages = .ok (0x3000, s'', [.taken 0x3000 0, .taken 0x2000 0]) := by
    rw [pages]
    exact logged_alloc pmm 0 0x3000 s' s'' _ second
  obtain ⟨h', done⟩ := kmalloc_one_page pmm.logged h₁ 0x3000 _ available (by decide)
  obtain ⟨last, freed, restored, -⟩ := kfree_undoes_kmalloc small_heap_lawful loggedHeap h₁ [] logged_heap_blank
    ⟨by decide, by decide, by decide⟩ logged_heap_live start _ .refl 0x1000 _ h' done
  exact ⟨h₁, _, h', last, start, done, freed, restored⟩

end X86OS.Heap
