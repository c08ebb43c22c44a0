import X86OS.Mm.HeapKmalloc

set_option autoImplicit false

namespace X86OS.Heap

open Function Dll Mem

variable {σ : Type}

-- The state in the middle of `kfree`: the chunk `c` is in hand, the others are settled.
structure Held (h : State σ) (before after : List HeapPage) (p : HeapPage) (left : List Chunk) (c : Chunk)
    (right : List Chunk) : Prop where
  split : p.chunks = left ++ [c] ++ right
  rep : Rep h (before ++ p :: after)
  hand : c.status = .hand
  quiet : ∀ d, d ∈ left ∨ d ∈ right → d.status ≠ .hand
  calmLeft : left.IsChain Calm
  calmRight : right.IsChain Calm

-- From one such state to the next: the clients' chunks and bytes stay.
structure Absorbed (before after : List HeapPage) (h : State σ) (p : HeapPage) (left right : List Chunk) (h' : State σ)
    (p' : HeapPage) (left' right' : List Chunk) : Prop where
  base : p'.base = p.base
  clients : ∀ d : Chunk, d.status = .used → (d ∈ left' ∨ d ∈ right' ↔ d ∈ left ∨ d ∈ right)
  outside : SameOutside (before ++ p :: after) h h'

section Steps

variable {h : State σ} {before after : List HeapPage} {p : HeapPage} {left right : List Chunk} {c : Chunk}

theorem held_counters (h' : State σ) (same : SameData h h') (held : Held h before after p left c right) :
    Held h' before after p left c right :=
  { held with rep := rep_same h h' _ same held.rep }

theorem held_used_byte (held : Held h before after p left c right) (d : Chunk) (member : d ∈ left ∨ d ∈ right) :
    isUsed h d.addr = true ↔ d.status ≠ .free := by
  have inChunks : d ∈ chunks (before ++ p :: after) :=
    (mem_chunks_at before after p left [c] right held.split d).mpr (by tauto)
  have flag := held.rep.flags d inChunks
  have quiet := held.quiet d member
  cases status : d.status with
  | free =>
      rw [status] at flag
      simp [isUsed, show h.mem (d.addr + usedOffset) = 0 from flag]
  | used =>
      rw [status] at flag
      simp [isUsed, show h.mem (d.addr + usedOffset) = 1 from flag]
  | hand => exact absurd status quiet

theorem sentinel_used (rep : Rep h (before ++ p :: after)) : isUsed h p.base = true ∧ isUsed h p.last = true := by
  obtain ⟨front, last⟩ := rep.ends p (by simp)
  simp [isUsed, front, last]

theorem merge_hands (x y : Chunk) (k : Nat) (split : p.chunks = left ++ [x, y] ++ right)
    (rep : Rep h (before ++ p :: after)) (handX : x.status = .hand) (handY : y.status = .hand) :
    ∃ p' : HeapPage, p'.base = p.base ∧ p'.chunks = left ++ [⟨x.addr, x.size + headerSize + y.size, .hand⟩] ++ right ∧
      Rep (subMeta headerSize (removeNode links firstNextRef y.addr (subFree k h))) (before ++ p' :: after) ∧
      SameOutside (before ++ p :: after) h (subMeta headerSize (removeNode links firstNextRef y.addr (subFree k h))) ∧
      SameLists h (subMeta headerSize (removeNode links firstNextRef y.addr (subFree k h))) := by
  let p' := p.replace left [x, y] [⟨x.addr, x.size + headerSize + y.size, .hand⟩] right split (by
    intro a b run
    simp only [Laid, headerSize, minSize] at *
    omega)
  have same := sub_free_same k h
  obtain ⟨rep', outside', lists'⟩ :=
    rep_merge x y ⟨x.addr, x.size + headerSize + y.size, .hand⟩ split (rfl : p'.chunks = _) rfl
    (rep_same _ _ _ same rep) handX handY rfl rfl
  have same' := sub_meta_same headerSize (removeNode links firstNextRef y.addr (subFree k h))
  exact ⟨p', rfl, rfl, rep_same _ _ _ same' rep', same_outside_trans _ _ _ _ (outside_same _ _ _ same)
    (same_outside_trans _ _ _ _ outside' (outside_same _ _ _ same')),
    same_relists (lists_same h _ same.mem same.bucket) (relists_same lists' (lists_same _ _ same'.mem same'.bucket))⟩

theorem absorb_spec (x y f : Chunk) (split : p.chunks = left ++ [x, y] ++ right) (rep : Rep h (before ++ p :: after))
    (free : f.status = .free) (pair : (f = x ∧ y.status = .hand) ∨ (f = y ∧ x.status = .hand)) :
    ∃ p' : HeapPage, p'.base = p.base ∧ p'.chunks = left ++ [⟨x.addr, x.size + headerSize + y.size, .hand⟩] ++ right ∧
      Rep (absorb f.addr y.addr h) (before ++ p' :: after) ∧
      SameOutside (before ++ p :: after) h (absorb f.addr y.addr h) ∧
      counters (absorb f.addr y.addr h) + weight f = counters h ∧
      Relists (removed (bucketIndex f.size) (f.addr + headerSize)) h (absorb f.addr y.addr h) := by
  have member : f ∈ chunks (before ++ p :: after) := by
    rw [mem_chunks_at before after p left [x, y] right split]
    rcases pair with ⟨rfl, -⟩ | ⟨rfl, -⟩ <;> simp
  rw [absorb, (chunk_sizes h _ rep f member).2]
  obtain ⟨x', y', p1, base1, split1, xAddr, xSize, yAddr, ySize, handX, handY, rep1, outside1, lists1⟩ :
      ∃ (x' y' : Chunk) (p1 : HeapPage), p1.base = p.base ∧ p1.chunks = left ++ [x', y'] ++ right ∧ x'.addr = x.addr ∧
        x'.size = x.size ∧ y'.addr = y.addr ∧ y'.size = y.size ∧ x'.status = .hand ∧ y'.status = .hand ∧
        Rep (removeNode links (bucketRef (bucketIndex f.size)) (f.addr + headerSize) h) (before ++ p1 :: after) ∧
        SameOutside (before ++ p :: after) h
          (removeNode links (bucketRef (bucketIndex f.size)) (f.addr + headerSize) h) ∧
        Relists (removed (bucketIndex f.size) (f.addr + headerSize)) h
          (removeNode links (bucketRef (bucketIndex f.size)) (f.addr + headerSize) h) := by
    rcases pair with ⟨rfl, handY⟩ | ⟨rfl, handX⟩
    · let p1 := p.replace left [f, y] [{ f with status := .hand }, y] right split (by simp [Laid])
      have splitF : p.chunks = left ++ [f] ++ y :: right := by simpa using split
      have splitF' : p1.chunks = left ++ [{ f with status := .hand }] ++ y :: right := by
        simp [p1, HeapPage.replace, HeapPage.withChunks]
      exact ⟨_, _, p1, rfl, rfl, rfl, rfl, rfl, rfl, rfl, handY, rep_unbucket splitF rep free rfl splitF'⟩
    · let p1 := p.replace left [x, f] [x, { f with status := .hand }] right split (by simp [Laid])
      have splitF : p.chunks = left ++ [x] ++ [f] ++ right := by simpa using split
      have splitF' : p1.chunks = left ++ [x] ++ [{ f with status := .hand }] ++ right := by
        simp [p1, HeapPage.replace, HeapPage.withChunks]
      exact ⟨_, _, p1, rfl, rfl, rfl, rfl, rfl, rfl, handX, rfl, rep_unbucket splitF rep free rfl splitF'⟩
  obtain ⟨p', base', split', rep', outside', lists'⟩ := merge_hands x' y'
    (getChunkSize (removeNode links (bucketRef (bucketIndex f.size)) (f.addr + headerSize) h) f.addr)
      split1 rep1 handX handY
  rw [yAddr] at rep' outside' lists'
  rw [xAddr, xSize, ySize] at split'
  have scratch (z : Nat) (inside : Scratch (before ++ p1 :: after) z) : Scratch (before ++ p :: after) z := by
    apply edit_scratch split split1 base1 _ z inside
    intro d inMid
    simp only [List.mem_cons, List.not_mem_nil, or_false] at inMid
    rcases pair with ⟨rfl, handY⟩ | ⟨rfl, handX⟩ <;> rcases inMid with rfl | rfl <;> simp_all
  have size :
      getChunkSize (removeNode links (bucketRef (bucketIndex f.size)) (f.addr + headerSize) h) f.addr = f.size := by
    have atX := (chunk_sizes _ _ rep1 x' ((mem_chunks_at before after p1 left _ right split1 _).mpr (.inl (by simp)))).1
    have atY := (chunk_sizes _ _ rep1 y' ((mem_chunks_at before after p1 left _ right split1 _).mpr (.inl (by simp)))).1
    rw [xAddr, xSize] at atX
    rw [yAddr, ySize] at atY
    rcases pair with ⟨rfl, -⟩ | ⟨rfl, -⟩
    · exact atX
    · exact atY
  refine ⟨p', base'.trans base1, split', rep',
    same_outside_trans _ _ _ _ outside1 (same_outside_congr _ _ _ _ scratch outside'), ?_,
    relists_same lists1 lists'⟩
  have weighed : weight f = count 0 f.size 0 + count 0 0 headerSize := by
    simp only [weight, free, count_add, Nat.zero_add, Nat.add_zero]
  rw [counters_sub_meta, counters_remove_next, counters_sub_free, counters_remove_bucket, size, weighed]
  abel

theorem held_next (held : Held h before after p left c right) :
    links.next h c.addr = some ((right.map Chunk.addr).head?.getD p.last) := by
  have all := held.rep.all
  rw [cells_at before after p left [c] right held.split] at all
  refine (is_dll_links _ _ _ (backCells p right after) c.addr all).2.trans ?_
  cases right with
  | nil => simp [backCells]
  | cons d right => simp [backCells]

theorem held_prev (held : Held h before after p left c right) :
    links.prev h c.addr = some ((left.map Chunk.addr).getLast?.getD p.base) := by
  have all := held.rep.all
  rw [cells_at before after p left [c] right held.split] at all
  refine (is_dll_links _ _ _ (backCells p right after) c.addr all).1.trans ?_
  rcases List.eq_nil_or_concat left with rfl | ⟨left', b, rfl⟩
  · simp [frontCells]
  · simp only [frontCells, List.concat_eq_append, List.map_append, List.map_cons, List.map_nil, List.getLast?_append,
      List.getLast?_cons]
    simp

theorem absorb_next_spec (next : Nat) (here : next = (right.map Chunk.addr).head?.getD p.last)
    (held : Held h before after p left c right) :
    ∃ (p' : HeapPage) (c' : Chunk) (right' : List Chunk), c'.addr = c.addr ∧
      Held (if isUsed h next then h else absorb next next h) before after p' left c' right' ∧
      (∀ d ∈ right'.head?, d.status ≠ .free) ∧
      Absorbed before after h p left right (if isUsed h next then h else absorb next next h) p' left right' ∧
      counters (if isUsed h next then h else absorb next next h) + tally right = counters h + tally right' := by
  subst here
  cases right with
  | nil =>
      rw [show isUsed h (([].map Chunk.addr).head?.getD p.last) = true from (sentinel_used held.rep).2, if_pos rfl]
      exact ⟨p, c, [], rfl, held, by simp, ⟨rfl, fun _ _ => Iff.rfl, same_outside_refl _ h⟩, rfl⟩
  | cons d right =>
      change ∃ p' c' right', _ ∧ Held (if isUsed h d.addr then h else absorb d.addr d.addr h) _ _ _ _ _ _ ∧ _ ∧
        Absorbed _ _ _ _ _ _ (if isUsed h d.addr then h else absorb d.addr d.addr h) _ _ _ ∧
        counters (if isUsed h d.addr then h else absorb d.addr d.addr h) + _ = _
      by_cases free : d.status = .free
      · rw [if_neg (by rw [held_used_byte held d (by simp)]; simpa using free)]
        have split : p.chunks = left ++ [c, d] ++ right := by simpa using held.split
        obtain ⟨p', base, split', rep', outside', counted, -⟩ :=
          absorb_spec c d d split held.rep free (.inr ⟨rfl, held.hand⟩)
        have chain := held.calmRight
        refine ⟨p', ⟨c.addr, c.size + headerSize + d.size, .hand⟩, right, rfl,
          ⟨split', rep', rfl, ?_, held.calmLeft, chain.tail⟩, ?_,
          ⟨base, ?_, outside'⟩, by rw [tally_cons, ← add_assoc, counted]⟩
        · exact fun e member => held.quiet e (member.imp_right (List.mem_cons_of_mem d))
        · intro e member freeE
          cases right with
          | nil => simp at member
          | cons e' right =>
              obtain rfl : e' = e := by simpa using member
              exact (List.isChain_cons_cons.mp chain).1 ⟨free, freeE⟩
        · intro e used
          rw [List.mem_cons, or_iff_right (a := e = d)]
          rintro rfl
          rw [free] at used
          cases used
      · rw [if_pos ((held_used_byte held d (by simp)).mpr free)]
        exact ⟨p, c, d :: right, rfl, held, by simpa using free, ⟨rfl, fun _ _ => Iff.rfl, same_outside_refl _ h⟩, rfl⟩

-- The chunk before the one in hand takes it up when it is unused; either way one chunk
-- between two that are not free is left in hand.
theorem absorb_prev_spec (prev : Nat) (here : prev = (left.map Chunk.addr).getLast?.getD p.base)
    (held : Held h before after p left c right) :
    ∃ (p' : HeapPage) (c' : Chunk) (left' : List Chunk), c'.addr = (if isUsed h prev then c.addr else prev) ∧
      Held (if isUsed h prev then h else absorb prev c.addr h) before after p' left' c' right ∧
      (∀ d ∈ left'.getLast?, d.status ≠ .free) ∧
      Absorbed before after h p left right (if isUsed h prev then h else absorb prev c.addr h) p' left' right ∧
      counters (if isUsed h prev then h else absorb prev c.addr h) + tally left = counters h + tally left' := by
  subst here
  rcases List.eq_nil_or_concat left with rfl | ⟨left', b, rfl⟩
  · rw [show isUsed h (([].map Chunk.addr).getLast?.getD p.base) = true from (sentinel_used held.rep).1,
      if_pos rfl, if_pos rfl]
    exact ⟨p, c, [], rfl, held, by simp, ⟨rfl, fun _ _ => Iff.rfl, same_outside_refl _ h⟩, rfl⟩
  · rw [List.concat_eq_append] at held ⊢
    have place : ((left' ++ [b]).map Chunk.addr).getLast?.getD p.base = b.addr := by simp
    rw [place]
    by_cases free : b.status = .free
    · have unused : ¬ isUsed h b.addr = true := by
        rw [held_used_byte held b (by simp)]
        simpa using free
      rw [if_neg unused, if_neg unused]
      have split : p.chunks = left' ++ [b, c] ++ right := by simpa using held.split
      obtain ⟨p', base, split', rep', outside', counted, -⟩ :=
        absorb_spec b c b split held.rep free (.inl ⟨rfl, held.hand⟩)
      have chain := held.calmLeft
      obtain ⟨chainLeft, -, calm⟩ := List.isChain_append.mp chain
      have counted' : counters (absorb b.addr c.addr h) + tally (left' ++ [b]) = counters h + tally left' := by
        rw [tally_append, tally_cons, tally_nil, add_zero, ← counted]
        abel
      refine ⟨p', ⟨b.addr, b.size + headerSize + c.size, .hand⟩, left', rfl,
        ⟨split', rep', rfl, ?_, chainLeft, held.calmRight⟩, ?_, ⟨base, ?_, outside'⟩, counted'⟩
      · exact fun e member => held.quiet e (member.imp_left (List.mem_append_left [b]))
      · exact fun e member freeE => calm e member b (by simp) ⟨freeE, free⟩
      · intro e used
        rw [List.mem_append, List.mem_singleton, or_iff_left (a := e ∈ left') (b := e = b)]
        rintro rfl
        rw [free] at used
        cases used
    · have busy := (held_used_byte held b (by simp)).mpr free
      rw [if_pos busy, if_pos busy]
      exact ⟨p, c, left' ++ [b], rfl, held, by simpa using free, ⟨rfl, fun _ _ => Iff.rfl, same_outside_refl _ h⟩, rfl⟩

theorem whole_page (split : p.chunks = left ++ [c] ++ right) (size : c.size = 4044) : left = [] ∧ right = [] := by
  have laid := p.laid
  rw [split, List.append_assoc, List.singleton_append] at laid
  obtain ⟨front, -, -, back⟩ := laid_split _ _ left right c laid
  have low := laid_le _ _ _ front
  have high := laid_le _ _ _ back
  simp only [headerSize, sizeofChunk, pageSize] at low high
  constructor
  · cases left with
    | nil => rfl
    | cons d left =>
        obtain ⟨-, -, least, rest⟩ := front
        have further := laid_le _ _ _ rest
        simp only [headerSize, sizeofChunk, minSize] at further least
        omega
  · cases right with
    | nil => rfl
    | cons d right =>
        obtain ⟨-, -, least, rest⟩ := back
        have further := laid_le _ _ _ rest
        simp only [headerSize, sizeofChunk, pageSize, minSize] at further least
        omega

theorem bucket_spec (held : Held h before after p left c right) :
    ∃ p' : HeapPage, p'.base = p.base ∧ p'.chunks = left ++ [⟨c.addr, c.size, .free⟩] ++ right ∧
      Rep (addFree c.size
        (pushNode links (bucketRef (getBucketIndex (setUsed c.addr false h) c.addr)) (c.addr + headerSize)
        (setUsed c.addr false h))) (before ++ p' :: after) ∧
      SameOutside (before ++ p :: after) h (addFree c.size (pushNode links
        (bucketRef (getBucketIndex (setUsed c.addr false h) c.addr)) (c.addr + headerSize) (setUsed c.addr false h))) ∧
      Relists (pushed (bucketIndex c.size) (c.addr + headerSize)) h (addFree c.size (pushNode links
        (bucketRef (getBucketIndex (setUsed c.addr false h) c.addr)) (c.addr + headerSize)
          (setUsed c.addr false h))) := by
  have member : c ∈ chunks (before ++ p :: after) := chunk_here held.split
  obtain ⟨rep1, outside1, flag1, lists1⟩ := rep_set_used h _ c false held.rep member held.hand
  let p' := p.replace left [c] [⟨c.addr, c.size, .free⟩] right held.split (by simp [Laid])
  have split' : p'.chunks = left ++ [{ c with status := .free }] ++ right := rfl
  obtain ⟨rep2, outside2, lists2⟩ := rep_bucket held.split rep1 held.hand flag1 (rfl : p'.base = p.base) split'
  rw [(chunk_sizes _ _ rep1 c member).2]
  have same := add_free_same c.size
    (pushNode links (bucketRef (bucketIndex c.size)) (c.addr + headerSize) (setUsed c.addr false h))
  exact ⟨p', rfl, rfl, rep_same _ _ _ same rep2,
    same_outside_trans _ _ _ _ outside1 (same_outside_trans _ _ _ _ outside2
    (outside_same _ _ _ same)), same_relists lists1 (relists_same lists2 (lists_same _ _ same.mem same.bucket))⟩

theorem spread_free (calmLeft : left.IsChain Calm) (calmRight : right.IsChain Calm)
    (busyLeft : ∀ d ∈ left.getLast?, d.status ≠ .free) (busyRight : ∀ d ∈ right.head?, d.status ≠ .free) :
    (left ++ [c] ++ right).IsChain Calm := by
  simp only [List.isChain_append, List.isChain_singleton]
  refine ⟨⟨calmLeft, trivial, fun a member b _ => ?_⟩, calmRight, fun a _ b member => ?_⟩
  · exact calm_left _ _ (busyLeft a member)
  · exact calm_right _ _ (busyRight b member)

theorem base_not_head (before after : List HeapPage) (p : HeapPage) (nonempty : before ≠ [])
    (distinct : ((before ++ p :: after).map HeapPage.base).Nodup) :
    some p.base ≠ (cells before ++ cells (p :: after)).head? := by
  obtain ⟨first, before, rfl⟩ := List.exists_cons_of_ne_nil nonempty
  intro same
  have equal : p.base = first.base := by simpa [cells, HeapPage.cells] using same
  simp [equal] at distinct

theorem release_spec (A : PageAllocator σ) (held : Held h before after p left c right)
    (busyLeft : ∀ d ∈ left.getLast?, d.status ≠ .free) (busyRight : ∀ d ∈ right.head?, d.status ≠ .free) :
    ∃ h', releaseChunk A c.addr h = .ok h' ∧ (∀ x, ¬ Scratch (before ++ p :: after) x → h'.mem x = h.mem x) ∧
      ((∃ p' : HeapPage, p'.base = p.base ∧ p'.chunks = left ++ [⟨c.addr, c.size, .free⟩] ++ right ∧
          p'.chunks.IsChain Calm ∧ Rep h' (before ++ p' :: after) ∧ h'.pages = h.pages ∧
          (before ≠ [] → left ≠ [] ∨ right ≠ []) ∧ counters h' = counters h + count 0 c.size 0 ∧
            Relists (pushed (bucketIndex c.size) (c.addr + headerSize)) h h') ∨
        (p.chunks = [c] ∧ before ≠ [] ∧ Rep h' (before ++ after) ∧ h'.pages = A.free (v2p p.base) h.pages ∧
          counters h' + count 0 0 (2 * sizeofChunk + headerSize) = counters h ∧ SameLists h h')) := by
  have sizes := chunk_sizes h _ held.rep c (chunk_here held.split)
  rw [releaseChunk, sizes.1, held_prev held]
  by_cases whole : c.size = pageSize - 2 * (headerSize + minSize) - headerSize ∧
      some ((left.map Chunk.addr).getLast?.getD p.base) ≠ h.first
  · rw [if_pos whole]
    obtain ⟨size, notFirst⟩ := whole
    obtain ⟨rfl, rfl⟩ := whole_page held.split size
    have only : p.chunks = [c] := held.split
    have nonempty : before ≠ [] := by
      rintro rfl
      apply notFirst
      rw [held.rep.first]
      simp [cells, HeapPage.cells]
    obtain ⟨h', result, rep', owner', outside', lists'⟩ :=
      return_page_spec A h before after p c only held.hand nonempty held.rep
    exact ⟨h', result, outside', .inr ⟨only, nonempty, rep', owner', return_page_counted A p.base h h' result, lists'⟩⟩
  · rw [if_neg whole]
    obtain ⟨p', base, split', rep', outside', lists'⟩ := bucket_spec held
    refine ⟨_, rfl, outside'.bytes, .inl ⟨p', base, split', ?_, rep', outside'.owner, ?_, ?_, lists'⟩⟩
    · rw [split']
      exact spread_free held.calmLeft held.calmRight busyLeft busyRight
    · -- A page in the middle that is one chunk passes the test above.
      intro nonempty
      by_contra alone
      simp only [not_or, not_not] at alone
      obtain ⟨rfl, rfl⟩ := alone
      refine whole ⟨(single_places held.split).2, ?_⟩
      rw [held.rep.first, cells_append]
      exact base_not_head before after p nonempty held.rep.distinct
    · rw [counters_add_free, counters_push, counters_set_used]

-- The chunks other than the one in hand.
def Others (before after : List HeapPage) (left right : List Chunk) (d : Chunk) : Prop :=
  d ∈ chunks before ∨ d ∈ left ∨ d ∈ right ∨ d ∈ chunks after

theorem others_congr (before after : List HeapPage) {left right left' right' : List Chunk} (d : Chunk)
    (same : d ∈ left' ∨ d ∈ right' ↔ d ∈ left ∨ d ∈ right) :
    Others before after left' right' d ↔ Others before after left right d := by
  have regroup (left right : List Chunk) :
      Others before after left right d ↔ d ∈ chunks before ∨ (d ∈ left ∨ d ∈ right) ∨ d ∈ chunks after := by
    rw [Others, or_assoc]
  rw [regroup, regroup, same]

theorem absorbed_scratch {h' : State σ} {p' : HeapPage} {left' right' : List Chunk} {c' : Chunk}
    (held : Held h before after p left c right) (held' : Held h' before after p' left' c' right')
    (absorbed : Absorbed before after h p left right h' p' left' right') (x : Nat)
    (inside : Scratch (before ++ p' :: after) x) : Scratch (before ++ p :: after) x := by
  refine scratch_mono _ _ (page_bases absorbed.base) ?_ x inside
  rintro y ⟨d, member, used, range⟩
  refine ⟨d, ?_, used, range⟩
  rw [mem_chunks_at before after p left [c] right held.split] at member
  rw [mem_chunks_at before after p' left' [c'] right' held'.split]
  rcases member with here | others
  · rw [List.mem_singleton.mp here, held.hand] at used
    cases used
  · exact .inr ((others_congr before after d (absorbed.clients d used)).mpr others)

theorem absorbed_trans {h' h'' : State σ} {p' p'' : HeapPage} {left' right' left'' right'' : List Chunk} {c' : Chunk}
    (held : Held h before after p left c right) (held' : Held h' before after p' left' c' right')
    (first : Absorbed before after h p left right h' p' left' right')
    (second : Absorbed before after h' p' left' right' h'' p'' left'' right'') :
    Absorbed before after h p left right h'' p'' left'' right'' :=
  ⟨second.base.trans first.base, fun d used => (second.clients d used).trans (first.clients d used),
    same_outside_trans _ _ _ _ first.outside
      (same_outside_congr _ _ _ _ (absorbed_scratch held held' first) second.outside)⟩

theorem coalesce_spec (A : PageAllocator σ) (held : Held h before after p left c right) :
    ∃ (h' : State σ) (p' : HeapPage) (c' : Chunk) (left' right' : List Chunk),
      kfreeChunk A c.addr h = releaseChunk A c'.addr h' ∧ Held h' before after p' left' c' right' ∧
      (∀ d ∈ left'.getLast?, d.status ≠ .free) ∧ (∀ d ∈ right'.head?, d.status ≠ .free) ∧
      Absorbed before after h p left right h' p' left' right' ∧
      counters h' + (count c.size 0 0 + tally left + tally right) = counters h + (tally left' + tally right') := by
  have same := sub_used_same (getChunkSize h c.addr) h
  have held1 := held_counters _ same held
  obtain ⟨p2, c2, right2, addr2, held2, busyRight, absorbed2, counted2⟩ := absorb_next_spec _ rfl held1
  obtain ⟨p3, c3, left3, addr3, held3, busyLeft, absorbed3, counted3⟩ := absorb_prev_spec _ rfl held2
  refine ⟨_, p3, c3, left3, right2, ?_, held3, busyLeft, busyRight, ?_, ?_⟩
  · rw [addr3, addr2, absorbed2.base, kfreeChunk, held_next held, held_prev held]
    exact (apply_ite₂ (releaseChunk A) _ _ _ _ _).symm
  · have counted : Absorbed before after h p left right (subUsed (getChunkSize h c.addr) h) p left right :=
      ⟨rfl, fun _ _ => Iff.rfl, outside_same _ _ _ same⟩
    exact absorbed_trans held held1 counted (absorbed_trans held1 held2 absorbed2 absorbed3)
  · have size := (chunk_sizes h _ held.rep c (chunk_here held.split)).1
    have start : counters (subUsed (getChunkSize h c.addr) h) = counters h - count c.size 0 0 := by
      rw [counters_sub_used, size]
    linear_combination counted3 + counted2 + start

theorem hold_spec (split : p.chunks = left ++ [c] ++ right) (settled : Settled h (before ++ p :: after))
    (used : c.status = .used) :
    ∃ p0 : HeapPage, p0.base = p.base ∧ Held h before after p0 left { c with status := .hand } right ∧
      ∀ d, Others before after left right d ↔ d ∈ chunks (before ++ p :: after) ∧ d ≠ c := by
  let p0 := p.replace left [c] [{ c with status := .hand }] right split (by simp [Laid])
  have split0 : p0.chunks = left ++ [{ c with status := .hand }] ++ right := rfl
  have rep0 : Rep h (before ++ p0 :: after) :=
    rep_relabel split settled.toRep .hand (by rw [used]; decide) (by decide) trivial rfl split0
  have inPages := mem_chunks_at before after p left [c] right split
  have inPages0 := mem_chunks_at before after p0 left _ right split0
  have chain : (left ++ [c] ++ right).IsChain Calm := split ▸ settled.spread p (by simp)
  obtain ⟨⟨calmLeft, -, -⟩, calmRight, -⟩ := by simpa only [List.isChain_append] using chain
  have once (others : Others before after left right c) : False := by
    have same := chunk_unique _ rep0.distinct c { c with status := .hand } ((inPages0 c).mpr (.inr others))
      ((inPages0 _).mpr (.inl (by simp))) rfl
    rw [same] at used
    cases used
  refine ⟨p0, rfl, ⟨split0, rep0, rfl, ?_, calmLeft, calmRight⟩, ?_⟩
  · exact fun d side => settled.noHand d ((inPages d).mpr (by tauto))
  · intro d
    rw [inPages d, List.mem_singleton]
    constructor
    · intro others
      refine ⟨.inr others, ?_⟩
      rintro rfl
      exact once others
    · rintro ⟨here | others, other⟩
      · exact absurd here other
      · exact others

theorem held_safe (held : Held h before after p left c right) (pages' : List HeapPage) (x : Nat)
    (clients : ∀ d ∈ chunks pages', d.status = .used → Others before after left right d)
    (safe : ClientByte pages' x ∨ ¬ InPages (before ++ p :: after) x) : ¬ Scratch (before ++ p :: after) x := by
  apply not_scratch
  rcases safe with ⟨d, member, used, range⟩ | outside
  · exact .inl
      ⟨d, (mem_chunks_at before after p left [c] right held.split d).mpr (.inr (clients d member used)), used, range⟩
  · exact .inr outside

end Steps

-- The chunk `c` is no client's any more, and nothing of the other clients has changed.
structure Released (Live : σ → List (Nat × Nat) → Prop) (h : State σ) (pages : List HeapPage) (rest : List (Nat × Nat))
    (c : Chunk) (h' : State σ) (pages' : List HeapPage) : Prop where
  clients : ∀ d : Chunk, d.status = .used → (d ∈ chunks pages' ↔ d ∈ chunks pages ∧ d ≠ c)
  owned : Owned Live h' pages' rest
  frame : ∀ x, ClientByte pages' x ∨ ¬ InPages pages x → h'.mem x = h.mem x
  first : pages'.head?.map HeapPage.base = pages.head?.map HeapPage.base
  others : ∀ q ∈ pages'.tail, (∃ d ∈ q.chunks, d.status = .used) ∨ q ∈ pages.tail
  counted : counters h' + total pages = counters h + total pages'

section Requests

variable {A : PageAllocator σ} {Live : σ → List (Nat × Nat) → Prop} (lawful : A.Lawful Live)

include lawful

omit lawful in
theorem tail_cases (before after : List HeapPage) (p q : HeapPage) (member : q ∈ (before ++ p :: after).tail) :
    (q = p ∧ before ≠ []) ∨ q ∈ before.tail ∨ q ∈ after := by
  cases before with
  | nil => exact .inr (.inr member)
  | cons first before =>
      simp only [List.cons_append, List.tail_cons, List.mem_append, List.mem_cons] at member
      rcases member with inBefore | rfl | inAfter
      · exact .inr (.inl inBefore)
      · exact .inl ⟨rfl, by simp⟩
      · exact .inr (.inr inAfter)

omit lawful in
theorem neighbour_used {h : State σ} {before after : List HeapPage} {p : HeapPage} {left right : List Chunk} {c : Chunk}
    (held : Held h before after p left c right) (busyLeft : ∀ d ∈ left.getLast?, d.status ≠ .free)
    (busyRight : ∀ d ∈ right.head?, d.status ≠ .free) (company : left ≠ [] ∨ right ≠ []) :
    ∃ d, (d ∈ left ∨ d ∈ right) ∧ d.status = .used := by
  have settled (d : Chunk) (side : d ∈ left ∨ d ∈ right) (busy : d.status ≠ .free) : d.status = .used := by
    have quiet := held.quiet d side
    cases status : d.status with
    | free => exact absurd status busy
    | used => rfl
    | hand => exact absurd status quiet
  rcases company with some | some
  · have member := List.getLast_mem some
    exact ⟨_, .inl member, settled _ (.inl member) (busyLeft _ (List.getLast?_eq_some_getLast some))⟩
  · have member := List.head_mem some
    exact ⟨_, .inr member, settled _ (.inr member) (busyRight _ (List.head?_eq_some_head some))⟩

theorem release_owned (h : State σ) (before after : List HeapPage) (p : HeapPage) (left right : List Chunk) (c : Chunk)
    (rest : List (Nat × Nat)) (held : Held h before after p left c right)
    (busyLeft : ∀ d ∈ left.getLast?, d.status ≠ .free) (busyRight : ∀ d ∈ right.head?, d.status ≠ .free)
    (quiet : ∀ d, d ∈ chunks before ∨ d ∈ chunks after → d.status ≠ .hand)
    (spread : ∀ q, q ∈ before ∨ q ∈ after → q.chunks.IsChain Calm)
    (owner : Live h.pages ((before ++ p :: after).map pageBlock ++ rest)) :
    ∃ h' pages', releaseChunk A c.addr h = .ok h' ∧ Owned Live h' pages' rest ∧
      (∀ x, ¬ Scratch (before ++ p :: after) x → h'.mem x = h.mem x) ∧
      (∀ d : Chunk, d.status = .used → (d ∈ chunks pages' ↔ Others before after left right d)) ∧
      pages'.head?.map HeapPage.base = (before ++ p :: after).head?.map HeapPage.base ∧
      (∀ q ∈ pages'.tail, (∃ d ∈ q.chunks, d.status = .used) ∨ q ∈ before.tail ∨ q ∈ after) ∧
      counters h' + total (before ++ p :: after) = counters h + total pages' := by
  have quietAll (d : Chunk) (others : Others before after left right d) : d.status ≠ .hand := by
    rcases others with inBefore | inLeft | inRight | inAfter
    · exact quiet d (.inl inBefore)
    · exact held.quiet d (.inl inLeft)
    · exact held.quiet d (.inr inRight)
    · exact quiet d (.inr inAfter)
  obtain ⟨h', result, outside, ⟨p', base, split', spread', rep', owner', company, counted, -⟩ |
      ⟨only, nonempty, rep', owner', counted, -⟩⟩ := release_spec A held busyLeft busyRight
  · have inPages := mem_chunks_at before after p' left _ right split'
    refine ⟨h', before ++ p' :: after, result, ⟨⟨rep', ?_, ?_⟩, ?_, by simp⟩, outside, ?_, ?_, ?_, ?_⟩
    · intro d member
      rcases (inPages d).mp member with here | others
      · rw [List.mem_singleton.mp here]
        simp
      · exact quietAll d others
    · intro q member
      simp only [List.mem_append, List.mem_cons] at member
      rcases member with inBefore | rfl | inAfter
      · exact spread q (.inl inBefore)
      · exact spread'
      · exact spread q (.inr inAfter)
    · rw [owner', blocks_of_bases (before ++ p :: after) (before ++ p' :: after) (by simp [base])]
      exact owner
    · intro d used
      rw [inPages d, or_iff_right]
      · rfl
      · intro here
        rw [List.mem_singleton.mp here] at used
        cases used
    · cases before with
      | nil => simp [base]
      | cons first before => rfl
    · intro q member
      refine (tail_cases before after p' q member).imp_left ?_
      rintro ⟨rfl, nonempty⟩
      obtain ⟨d, side, used⟩ := neighbour_used held busyLeft busyRight (company nonempty)
      refine ⟨d, ?_, used⟩
      rw [split']
      simp only [List.mem_append]
      tauto
    · have edit := total_edit before after p p' left [c] [⟨c.addr, c.size, .free⟩] right held.split split'
      have weighed : tally [⟨c.addr, c.size, .free⟩] = tally [c] + count 0 c.size 0 := by
        simp only [tally_cons, tally_nil, weight, held.hand, add_zero, count_add, Nat.zero_add]
      refine count_exchange _ _ _ _ _ _ ?_ edit
      rw [counted, weighed]
      abel
  · have alone : left = [] ∧ right = [] := by
      have split := held.split
      rw [only] at split
      simpa [eq_comm, List.append_eq_singleton_iff] using split
    obtain ⟨rfl, rfl⟩ := alone
    have inPages (d : Chunk) : d ∈ chunks (before ++ after) ↔ Others before after [] [] d := by simp [chunks, Others]
    refine ⟨h', before ++ after, result, ⟨⟨rep', ?_, ?_⟩, ?_, by simp [nonempty]⟩, outside,
      fun d _ => inPages d, ?_, ?_, ?_⟩
    · exact fun d member => quietAll d ((inPages d).mp member)
    · exact fun q member => spread q (List.mem_append.mp member)
    · rw [owner']
      apply lawful.freed _ _ 0
      apply lawful.reorder _ _ _ _ owner
      simp only [List.map_append, List.map_cons, List.append_assoc, List.cons_append]
      exact List.perm_middle
    · rw [List.head?_append_of_ne_nil _ nonempty, List.head?_append_of_ne_nil _ nonempty]
    · intro q member
      rw [List.tail_append_of_ne_nil nonempty, List.mem_append] at member
      exact .inr member
    · have weighed : pageWeight p = count 0 0 (2 * sizeofChunk + headerSize) := by
        simp only [pageWeight, only, tally_cons, tally_nil, weight, held.hand, add_zero, count_add]
      rw [total_append, total_cons, total_append, weighed, ← counted]
      abel

omit lawful in
theorem tail_mem (before after : List HeapPage) (q : HeapPage) (member : q ∈ before.tail ∨ q ∈ after.tail) :
    q ∈ (before ++ after).tail := by
  cases before with
  | nil => exact member.resolve_left (by simp)
  | cons first before =>
      simp only [List.cons_append, List.tail_cons, List.mem_append] at member ⊢
      exact member.imp_right List.mem_of_mem_tail

omit lawful in
theorem total_release (before after : List HeapPage) (p p1 : HeapPage) (left right left1 right1 : List Chunk)
    (c c1 : Chunk) (split : p.chunks = left ++ [c] ++ right) (split1 : p1.chunks = left1 ++ [c1] ++ right1)
    (used : c.status = .used) (hand : c1.status = .hand) :
    total (before ++ p :: after) + (tally left1 + tally right1) =
      total (before ++ p1 :: after) + (count c.size 0 0 + tally left + tally right) := by
  have weighed : weight c = weight c1 + count c.size 0 0 := by
    simp only [weight, used, hand, count_add, Nat.zero_add, Nat.add_zero]
  simp only [total_append, total_cons, page_weight_split p left [c] right split,
    page_weight_split p1 left1 [c1] right1 split1, tally_cons, tally_nil, weighed]
  abel

omit lawful in
theorem freed_count (a b b1 s s1 t x y : Count) (counted : b1 + x = b + y) (released : a + s1 = b1 + t)
    (edit : s + y = s1 + x) :
    a + s = b + t := by
  have both : a + s + y = b + t + y :=
    calc a + s + y = a + (s + y) := by abel
      _ = a + s1 + x := by rw [edit]; abel
      _ = b1 + x + t := by rw [released]; abel
      _ = b + t + y := by rw [counted]; abel
  exact add_right_cancel both

theorem kfree_chunk_spec (h : State σ) (pages : List HeapPage) (rest : List (Nat × Nat)) (c : Chunk)
    (owned : Owned Live h pages rest) (member : c ∈ chunks pages) (used : c.status = .used) :
    ∃ h' pages', kfreeChunk A c.addr h = .ok h' ∧ Released Live h pages rest c h' pages' := by
  obtain ⟨before, p, after, left, right, rfl, split⟩ := chunk_place pages c member
  have inPages := mem_chunks_at before after p left [c] right split
  obtain ⟨p0, base0, held0, others0⟩ := hold_spec split owned.toSettled used
  obtain ⟨h1, p1, c1, left1, right1, result1, held1, busyLeft, busyRight, absorbed, counted1⟩ := coalesce_spec A held0
  have base1 : p1.base = p.base := absorbed.base.trans base0
  have owner1 : Live h1.pages ((before ++ p1 :: after).map pageBlock ++ rest) := by
    rw [absorbed.outside.owner, blocks_of_bases (before ++ p :: after) (before ++ p1 :: after) (by simp [base1])]
    exact owned.owner
  have quiet (d : Chunk) (side : d ∈ chunks before ∨ d ∈ chunks after) : d.status ≠ .hand :=
    owned.noHand d ((inPages d).mpr (.inr (side.imp_right (fun inAfter => .inr (.inr inAfter)))))
  have spread (q : HeapPage) (side : q ∈ before ∨ q ∈ after) : q.chunks.IsChain Calm :=
    owned.spread q (List.mem_append.mpr (side.imp_right (List.mem_cons_of_mem p)))
  obtain ⟨h', pages', result, owned', outside', clients', first', others', counted'⟩ :=
    release_owned lawful h1 before after p1 left1 right1 c1 rest held1 busyLeft busyRight quiet spread owner1
  have others (d : Chunk) (usedD : d.status = .used) : Others before after left1 right1 d ↔
      Others before after left right d :=
    others_congr before after d (absorbed.clients d usedD)
  refine ⟨h', pages', result1.trans result, ?_, owned', ?_, ?_, ?_, ?_⟩
  · intro d usedD
    rw [clients' d usedD, others d usedD, others0 d]
  · intro x safe
    have safe0 : ¬ Scratch (before ++ p0 :: after) x := by
      apply held_safe held0 pages' x
      · exact fun d memberD usedD => (others d usedD).mp ((clients' d usedD).mp memberD)
      · rw [in_pages_of_bases (before ++ p :: after) (before ++ p0 :: after) (by simp [base0])]
        exact safe
    rw [outside' x (fun inside => safe0 (absorbed_scratch held0 held1 absorbed x inside)),
      absorbed.outside.bytes x safe0]
  · rw [first']
    cases before with
    | nil => simp [base1]
    | cons first before => rfl
  · intro q member
    refine (others' q member).imp_right ?_
    rintro (inBefore | inAfter)
    · exact tail_mem before (p :: after) q (.inl inBefore)
    · exact tail_mem before (p :: after) q (.inr inAfter)
  · exact freed_count _ _ _ _ _ _ _ _ counted1 counted'
      (total_release before after p p1 left right left1 right1 c c1 split held1.split used held1.hand)

end Requests

end X86OS.Heap
