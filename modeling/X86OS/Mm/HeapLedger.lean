import X86OS.Mm.HeapReturn

set_option autoImplicit false

namespace X86OS.Heap

open Function Dll Mem Relation

variable {σ : Type}

def usedSize (c : Chunk) : Nat :=
  match c.status with
  | .used => c.size
  | _ => 0

def freeSize (c : Chunk) : Nat :=
  match c.status with
  | .free => c.size
  | _ => 0

def usedBytes (pages : List HeapPage) : Nat := ((chunks pages).map usedSize).sum

def freeBytes (pages : List HeapPage) : Nat := ((chunks pages).map freeSize).sum

def metaBytes (pages : List HeapPage) : Nat := 2 * sizeofChunk * pages.length + headerSize * (chunks pages).length

def blockBytes (blocks : List (Nat × Nat)) : Nat := (blocks.map (fun block => 0x1000 * 2 ^ block.2)).sum

theorem chunks_cons (p : HeapPage) (pages : List HeapPage) : chunks (p :: pages) = p.chunks ++ chunks pages := rfl

theorem count_zero : count 0 0 0 = 0 := by
  simp only [count, Nat.cast_zero]
  rfl

theorem tally_eq (list : List Chunk) :
    tally list = count (list.map usedSize).sum (list.map freeSize).sum (headerSize * list.length) := by
  induction list with
  | nil => exact count_zero.symm
  | cons c list ih =>
      have weighed : weight c = count (usedSize c) (freeSize c) headerSize := by
        cases status : c.status <;> simp only [weight, usedSize, freeSize, status]
      rw [tally_cons, ih, weighed, count_add]
      simp only [List.map_cons, List.sum_cons, List.length_cons, Nat.mul_succ, Nat.add_comm headerSize]

theorem total_eq (pages : List HeapPage) :
    total pages = count (usedBytes pages) (freeBytes pages) (metaBytes pages) := by
  induction pages with
  | nil => exact count_zero.symm
  | cons p pages ih =>
      rw [total_cons, pageWeight, tally_eq, ih, count_add, count_add]
      simp only [usedBytes, freeBytes, metaBytes, chunks_cons, List.map_append, List.sum_append,
        List.length_append, List.length_cons, Nat.zero_add]
      congr 1
      ring

theorem blocks_weight_eq (big : List (Nat × Nat)) : blocksWeight big = count (blockBytes big) 0 0 := by
  induction big with
  | nil => exact count_zero.symm
  | cons block big ih =>
      rw [blocks_weight_cons, ih, count_add]
      rfl

theorem laid_bytes (start stop : Nat) (list : List Chunk) (laid : Laid start list stop) :
    start + (list.map Chunk.size).sum + headerSize * list.length = stop := by
  induction list generalizing start with
  | nil => simpa [Laid] using laid
  | cons c list ih =>
      obtain ⟨here, -, -, rest⟩ := laid
      have following := ih _ rest
      simp only [List.map_cons, List.sum_cons, List.length_cons, Nat.mul_succ]
      omega

theorem page_bytes (pages : List HeapPage) :
    ((chunks pages).map Chunk.size).sum + metaBytes pages = pageSize * pages.length := by
  induction pages with
  | nil => rfl
  | cons p pages ih =>
      have filled := laid_bytes _ _ _ p.laid
      simp only [metaBytes, chunks_cons, List.map_append, List.sum_append, List.length_append, List.length_cons,
        sizeofChunk, headerSize, pageSize] at *
      omega

theorem sizes_le (list : List Chunk) :
    (list.map usedSize).sum + (list.map freeSize).sum ≤ (list.map Chunk.size).sum := by
  induction list with
  | nil => simp
  | cons c list ih =>
      have here : usedSize c + freeSize c ≤ c.size := by
        cases status : c.status <;> simp [usedSize, freeSize, status]
      simp only [List.map_cons, List.sum_cons]
      omega

theorem sizes_eq (list : List Chunk) (settled : ∀ c ∈ list, c.status ≠ .hand) :
    (list.map usedSize).sum + (list.map freeSize).sum = (list.map Chunk.size).sum := by
  induction list with
  | nil => simp
  | cons c list ih =>
      have rest := ih (fun d member => settled d (List.mem_cons_of_mem c member))
      have here : usedSize c + freeSize c = c.size := by
        have quiet := settled c List.mem_cons_self
        cases status : c.status with
        | hand => exact absurd status quiet
        | _ => simp [usedSize, freeSize, status]
      simp only [List.map_cons, List.sum_cons]
      omega

theorem apart_bytes (limit : Nat) (blocks : List (Nat × Nat)) (apart : blocks.Pairwise Apart)
    (below : ∀ block ∈ blocks, block.1 + 0x1000 * 2 ^ block.2 ≤ limit) : blockBytes blocks ≤ limit := by
  obtain ⟨bytes, card, covered⟩ : ∃ bytes : Finset Nat, bytes.card = blockBytes blocks ∧
      ∀ x ∈ bytes, ∃ block ∈ blocks, block.1 ≤ x ∧ x < block.1 + 0x1000 * 2 ^ block.2 := by
    induction blocks with
    | nil => exact ⟨∅, rfl, by simp⟩
    | cons block blocks ih =>
        obtain ⟨others, rest⟩ := List.pairwise_cons.mp apart
        obtain ⟨bytes, card, covered⟩ := ih rest (fun b member => below b (List.mem_cons_of_mem _ member))
        refine ⟨Finset.Ico block.1 (block.1 + 0x1000 * 2 ^ block.2) ∪ bytes, ?_, ?_⟩
        · rw [Finset.card_union_of_disjoint, Nat.card_Ico, card, Nat.add_sub_cancel_left]
          · rfl
          · rw [Finset.disjoint_left]
            intro x inside inBytes
            obtain ⟨other, member, low, high⟩ := covered x inBytes
            have disjoint := others other member
            simp only [Apart, Finset.mem_Ico] at disjoint inside
            omega
        · intro x member
          rcases Finset.mem_union.mp member with inside | inBytes
          · exact ⟨block, List.mem_cons_self, Finset.mem_Ico.mp inside⟩
          · obtain ⟨other, inBlocks, range⟩ := covered x inBytes
            exact ⟨other, List.mem_cons_of_mem _ inBlocks, range⟩
  rw [← card, ← Finset.card_range limit]
  apply Finset.card_le_card
  intro x member
  obtain ⟨block, inBlocks, -, high⟩ := covered x member
  have bound := below block inBlocks
  exact Finset.mem_range.mpr (by omega)

theorem page_blocks_bytes (pages : List HeapPage) : blockBytes (pages.map pageBlock) = pageSize * pages.length := by
  induction pages with
  | nil => rfl
  | cons p pages ih =>
      simp only [blockBytes, List.map_cons, List.sum_cons, pageBlock, List.length_cons, Nat.mul_succ] at ih ⊢
      rw [ih, Nat.add_comm]
      rfl

theorem block_bytes_append (left right : List (Nat × Nat)) :
    blockBytes (left ++ right) = blockBytes left + blockBytes right := by
  simp [blockBytes]

-- The counters agree with the pages and the large allocations, as natural numbers.
structure Exact (h : State σ) (pages : List HeapPage) (big : List (Nat × Nat)) : Prop where
  used : h.memUsed = usedBytes pages + blockBytes big
  free : h.memFree = freeBytes pages
  bookkeeping : h.memMeta = metaBytes pages

-- No more than the machine has.
def Fits (pages : List HeapPage) (big : List (Nat × Nat)) : Prop := pageSize * pages.length + blockBytes big ≤ 2 ^ 30

theorem owner_fits {A : PageAllocator σ} {Live : σ → List (Nat × Nat) → Prop} (lawful : A.Lawful Live) (s : σ)
    (pages : List HeapPage) (big foreign : List (Nat × Nat))
    (owner : Live s (pages.map pageBlock ++ (big ++ foreign))) : Fits pages big := by
  have bound :=
    apart_bytes (2 ^ 30) _ (lawful.apart _ _ owner) (fun block member => (lawful.inRam _ _ owner block member).2)
  rw [block_bytes_append, block_bytes_append, page_blocks_bytes] at bound
  rw [Fits]
  omega

theorem counted_exact (h : State σ) (pages : List HeapPage) (big : List (Nat × Nat)) (words : Words h)
    (fits : Fits pages big) (counted : counters h = total pages + blocksWeight big) : Exact h pages big := by
  have filled := page_bytes pages
  have sizes := sizes_le (chunks pages)
  have low : usedBytes pages + freeBytes pages + metaBytes pages ≤ pageSize * pages.length := by
    simp only [usedBytes, freeBytes]
    omega
  rw [total_eq, blocks_weight_eq, count_add] at counted
  obtain ⟨used, rest⟩ := Prod.mk.inj counted
  obtain ⟨free, bookkeeping⟩ := Prod.mk.inj rest
  simp only [Fits] at fits
  have bound : pageSize * pages.length + blockBytes big < 2 ^ 32 := by omega
  refine ⟨cast_inj _ _ words.used (by omega) used, cast_inj _ _ words.free ?_ free,
    cast_inj _ _ words.bookkeeping ?_ bookkeeping⟩ <;>
    omega

theorem free_size_le (pages : List HeapPage) (c : Chunk) (member : c ∈ chunks pages) (free : c.status = .free) :
    c.size ≤ freeBytes pages := by
  have inList : freeSize c ∈ (chunks pages).map freeSize := List.mem_map_of_mem member
  have bound := List.le_sum_of_mem inList
  rwa [freeSize, free] at bound

theorem used_size_le (pages : List HeapPage) (c : Chunk) (member : c ∈ chunks pages) (used : c.status = .used) :
    c.size ≤ usedBytes pages := by
  have inList : usedSize c ∈ (chunks pages).map usedSize := List.mem_map_of_mem member
  have bound := List.le_sum_of_mem inList
  rwa [usedSize, used] at bound

theorem block_le (big : List (Nat × Nat)) (block : Nat × Nat) (member : block ∈ big) :
    0x1000 * 2 ^ block.2 ≤ blockBytes big :=
  List.le_sum_of_mem (List.mem_map.mpr ⟨block, member, rfl⟩)

theorem meta_least (pages : List HeapPage) (c : Chunk) (member : c ∈ chunks pages) : 52 ≤ metaBytes pages := by
  obtain ⟨p, inPages, -⟩ := List.mem_flatMap.mp member
  have somePage := List.length_pos_of_mem inPages
  have someChunk := List.length_pos_of_mem member
  simp only [metaBytes, sizeofChunk, headerSize]
  omega

-- A `counter -= amount` of the code, with the counter as it is before.
structure Subtraction where
  counter : Nat
  amount : Nat
deriving DecidableEq

def Subtraction.Covered (s : Subtraction) : Prop := s.amount ≤ s.counter

-- The subtractions each function makes, in its order.
def takeSubtractions (chunk : Nat) (h : State σ) : List Subtraction :=
  let h := setUsed chunk true h
  [⟨h.memFree, getChunkSize h chunk⟩]

def kmallocChunkSubtractions (A : PageAllocator σ) (size : Nat) (h : State σ) : List Subtraction :=
  let order := getAllocOrder (alignUp size align)
  if order ≥ numSizes then []
  else
    match searchBuckets numSizes order h with
    | (some chunk, h) => takeSubtractions chunk h
    | (none, h) =>
        match createChunk A h with
        | .error _ => []
        | .ok (_, h) =>
            match searchBuckets numSizes order h with
            | (some chunk, h) => takeSubtractions chunk h
            | (none, _) => []

def kmallocSubtractions (A : PageAllocator σ) (size : Nat) (h : State σ) : List Subtraction :=
  if size ≤ 0 then []
  else
    let size := if size < minSize then minSize else size
    if size ≥ 0x1000 then [] else kmallocChunkSubtractions A size h

def absorbSubtractions (chunk node : Nat) (h : State σ) : List Subtraction :=
  let h := removeNode links (bucketRef (getBucketIndex h chunk)) (chunk + headerSize) h
  let h' := removeNode links firstNextRef node (subFree (getChunkSize h chunk) h)
  [⟨h.memFree, getChunkSize h chunk⟩, ⟨h'.memMeta, headerSize⟩]

def returnSubtractions (f : Nat) (h : State σ) : List Subtraction :=
  match links.next h f with
  | none => []
  | some m =>
      match links.next h m with
      | none => []
      | some l =>
          let h := removeNode links firstRef m h
          let h' := removeNode links firstNextRef f (subMeta headerSize h)
          let h'' := subMeta (headerSize + minSize) h'
          let h'' := if h''.last = some l then { h'' with last := links.prev h'' l } else h''
          let h'' := removeNode links firstNextRef l h''
          [⟨h.memMeta, headerSize⟩, ⟨h'.memMeta, headerSize + minSize⟩, ⟨h''.memMeta, headerSize + minSize⟩]

def releaseSubtractions (chunk : Nat) (h : State σ) : List Subtraction :=
  if getChunkSize h chunk = pageSize - 2 * (headerSize + minSize) - headerSize ∧ links.prev h chunk ≠ h.first then
    match links.prev h chunk with
    | none => []
    | some f => returnSubtractions f h
  else []

def kfreeChunkSubtractions (chunk : Nat) (h : State σ) : List Subtraction :=
  match links.next h chunk, links.prev h chunk with
  | some next, some prev =>
      let first : Subtraction := ⟨h.memUsed, getChunkSize h chunk⟩
      let h := subUsed (getChunkSize h chunk) h
      let second := if isUsed h next then [] else absorbSubtractions next next h
      let h := if isUsed h next then h else absorb next next h
      let third := if isUsed h prev then [] else absorbSubtractions prev chunk h
      let chunk' := if isUsed h prev then chunk else prev
      let h := if isUsed h prev then h else absorb prev chunk h
      first :: (second ++ third ++ releaseSubtractions chunk' h)
  | _, _ => []

def kfreeSubtractions (A : PageAllocator σ) (ptr : Nat) (h : State σ) : List Subtraction :=
  if isAligned ptr pageSize then [⟨h.memUsed, 1 <<< (A.orderAddr h.pages (v2p ptr) + baseShift)⟩]
  else kfreeChunkSubtractions (Word.sub ptr headerSize) h

theorem tallies_free (h h' : State σ) (same : tallies h' = tallies h) : h'.memFree = h.memFree :=
  congrArg (fun t => t.2.1) same

theorem tallies_meta (h h' : State σ) (same : tallies h' = tallies h) : h'.memMeta = h.memMeta :=
  congrArg (fun t => t.2.2) same

theorem unbucket_rep (h : State σ) (pages : List HeapPage) (c : Chunk) (rep : Rep h pages) (member : c ∈ chunks pages)
    (free : c.status = .free) : ∃ pages', { c with status := .hand } ∈ chunks pages' ∧
      Rep (removeNode links (bucketRef (bucketIndex c.size)) (c.addr + headerSize) h) pages' := by
  obtain ⟨before, p, after, left, right, rfl, split⟩ := chunk_place pages c member
  let p' := p.replace left [c] [{ c with status := .hand }] right split (by simp [Laid])
  have layout : p'.chunks = left ++ [{ c with status := .hand }] ++ right := rfl
  exact ⟨before ++ p' :: after, chunk_here layout, (rep_unbucket split rep free (rfl : p'.base = p.base) rfl).1⟩

theorem take_covered (h : State σ) (pages : List HeapPage) (big : List (Nat × Nat)) (c : Chunk) (rep : Rep h pages)
    (exact : Exact h pages big) (member : c ∈ chunks pages) (free : c.status = .free) (s : Subtraction)
    (made : s ∈ takeSubtractions c.addr (removeNode links (bucketRef (bucketIndex c.size)) (c.addr + headerSize) h)) :
    s.Covered := by
  obtain ⟨pages', hand, rep'⟩ := unbucket_rep h pages c rep member free
  have same := tallies_free _ _ (tallies_remove_bucket (bucketIndex c.size) (c.addr + headerSize) h)
  have size : getChunkSize (setUsed c.addr true _) c.addr = c.size :=
    (chunk_sizes _ _ (rep_set_used _ pages' _ true rep' hand rfl).1 _ hand).1
  obtain rfl := List.mem_singleton.mp made
  simp only [Subtraction.Covered, size]
  exact (free_size_le pages c member free).trans_eq (exact.free.symm.trans same.symm)

theorem absorb_covered (h : State σ) (pages : List HeapPage) (big : List (Nat × Nat)) (c : Chunk) (node : Nat)
    (rep : Rep h pages) (exact : Exact h pages big) (member : c ∈ chunks pages) (free : c.status = .free)
    (s : Subtraction) (made : s ∈ absorbSubtractions c.addr node h) : s.Covered := by
  obtain ⟨pages', hand, rep'⟩ := unbucket_rep h pages c rep member free
  have same := tallies_remove_bucket (bucketIndex c.size) (c.addr + headerSize) h
  have size := (chunk_sizes _ _ rep' _ hand).1
  rw [absorbSubtractions, (chunk_sizes h pages rep c member).2] at made
  simp only [size, List.mem_cons, List.not_mem_nil, or_false] at made
  rcases made with rfl | rfl
  · exact (free_size_le pages c member free).trans_eq (exact.free.symm.trans (tallies_free _ _ same).symm)
  · have least := meta_least pages c member
    have kept := tallies_meta _ _ (tallies_remove_next node
      (subFree c.size (removeNode links (bucketRef (bucketIndex c.size)) (c.addr + headerSize) h)))
    simp only [Subtraction.Covered]
    rw [kept, subFree, tallies_meta _ _ same, exact.bookkeeping]
    exact Nat.le_trans (by decide) least

theorem return_covered (f : Nat) (h : State σ) (enough : 52 ≤ h.memMeta) (word : h.memMeta < 2 ^ 32) (s : Subtraction)
    (made : s ∈ returnSubtractions f h) : s.Covered := by
  rw [returnSubtractions] at made
  split at made
  · cases made
  · split at made
    · cases made
    · next m _ _ l _ =>
        have skipped (g : State σ) :
            (if g.last = some l then { g with last := links.prev g l } else g).memMeta = g.memMeta := by
          split <;> rfl
        have first : (removeNode links firstRef m h).memMeta = h.memMeta := tallies_meta _ _ (tallies_remove_first m h)
        have second (g : State σ) (x : Nat) : (removeNode links firstNextRef x g).memMeta = g.memMeta :=
          tallies_meta _ _ (tallies_remove_next x g)
        have taken (g : State σ) (n : Nat) : (subMeta n g).memMeta = Word.sub g.memMeta n := rfl
        simp only [List.mem_cons, List.not_mem_nil, or_false] at made
        rcases made with rfl | rfl | rfl
        · simp only [Subtraction.Covered, first, headerSize]
          omega
        · simp only [Subtraction.Covered, second, taken, first, headerSize, minSize]
          rw [Word.sub_exact _ _ word (by omega)]
          omega
        · change headerSize + minSize ≤ (removeNode links firstNextRef l _).memMeta
          rw [second, skipped, taken, second, taken, first]
          simp only [headerSize, minSize]
          rw [Word.sub_exact _ _ word (by omega), Word.sub_exact _ _ (by omega) (by omega)]
          omega

theorem release_covered (chunk : Nat) (h : State σ) (enough : 52 ≤ h.memMeta) (word : h.memMeta < 2 ^ 32)
    (s : Subtraction) (made : s ∈ releaseSubtractions chunk h) : s.Covered := by
  rw [releaseSubtractions] at made
  split at made
  · split at made
    · cases made
    · exact return_covered _ h enough word s made
  · cases made

theorem held_total (h : State σ) (before after : List HeapPage) (p : HeapPage) (left right : List Chunk) (c : Chunk)
    (held : Held h before after p left c right) :
    total (before ++ p :: after) = total before + total after + count 0 0 (2 * sizeofChunk + headerSize) +
      (tally left + tally right) := by
  have sentinels : count 0 0 (2 * sizeofChunk + headerSize) = count 0 0 (2 * sizeofChunk) + weight c := by
    simp only [weight, held.hand, count_add, Nat.add_zero]
  rw [total_append, total_cons, page_weight_split p left [c] right held.split, tally_cons, tally_nil,
    add_zero, sentinels]
  abel

-- The state in the middle of `kfree`, with counters that agree with the pages as they are there.
structure Metered (h : State σ) (before after : List HeapPage) (p : HeapPage) (left : List Chunk) (c : Chunk)
    (right : List Chunk) (big : List (Nat × Nat)) : Prop where
  held : Held h before after p left c right
  exact : Exact h (before ++ p :: after) big
  words : Words h
  counted : counters h = total (before ++ p :: after) + blocksWeight big

theorem fits_replace (before after : List HeapPage) (p p' : HeapPage) (big : List (Nat × Nat))
    (fits : Fits (before ++ p :: after) big) :
    Fits (before ++ p' :: after) big := by
  rw [Fits] at fits ⊢
  simpa using fits

section Steps

variable {h : State σ} {before after : List HeapPage} {p : HeapPage} {left right : List Chunk} {c : Chunk}
  {big : List (Nat × Nat)}

theorem hold_metered (split : p.chunks = left ++ [c] ++ right) (settled : Settled h (before ++ p :: after))
    (used : c.status = .used) (words : Words h) (fits : Fits (before ++ p :: after) big)
    (counted : counters h = total (before ++ p :: after) + blocksWeight big) :
    ∃ p' : HeapPage,
      Metered (subUsed (getChunkSize h c.addr) h) before after p' left { c with status := .hand } right big := by
  have size := (chunk_sizes h _ settled.toRep c (chunk_here split)).1
  obtain ⟨p', -, held, -⟩ := hold_spec split settled used
  have counted' : counters (subUsed (getChunkSize h c.addr) h) = total (before ++ p' :: after) + blocksWeight big := by
    have edit := total_edit before after p p' left [c] [{ c with status := .hand }] right split held.split
    simp only [tally_cons, tally_nil, weight, used, add_zero] at edit
    have grown : count c.size 0 headerSize = count 0 0 headerSize + count c.size 0 0 := by simp [count_add]
    rw [counters_sub_used, size, counted]
    linear_combination -edit + grown
  have words' := words_sub_used (getChunkSize h c.addr) h words
  exact ⟨p', held_counters _ (sub_used_same _ h) held,
    counted_exact _ _ big words' (fits_replace before after p p' big fits) counted',
    words', counted'⟩

theorem absorb_next_metered (metered : Metered h before after p left c right big)
    (fits : Fits (before ++ p :: after) big) (next : Nat) (here : next = (right.map Chunk.addr).head?.getD p.last) :
    (∀ s ∈ (if isUsed h next then [] else absorbSubtractions next next h), s.Covered) ∧
      ∃ (p' : HeapPage) (c' : Chunk) (right' : List Chunk), c'.addr = c.addr ∧ p'.base = p.base ∧
        Metered (if isUsed h next then h else absorb next next h) before after p' left c' right' big := by
  obtain ⟨p', c', right', addr, held', -, absorbed, counts⟩ := absorb_next_spec next here metered.held
  constructor
  · intro s made
    split at made
    · cases made
    · next unused =>
        cases right with
        | nil => exact absurd (here ▸ (sentinel_used metered.held.rep).2) unused
        | cons d right =>
            obtain rfl : next = d.addr := here
            have free : d.status = .free := by
              by_contra busy
              exact unused ((held_used_byte metered.held d (by simp)).mpr busy)
            have member : d ∈ chunks (before ++ p :: after) :=
              (mem_chunks_at before after p left _ _ metered.held.split d).mpr (by simp)
            exact absorb_covered h _ big d d.addr metered.held.rep metered.exact member free s made
  · have words' : Words (if isUsed h next then h else absorb next next h) := by
      split
      · exact metered.words
      · exact absorb_words next next h metered.words
    have counted' : counters (if isUsed h next then h else absorb next next h) =
        total (before ++ p' :: after) + blocksWeight big := by
      have total' := held_total _ before after p' left right' c' held'
      have total0 := held_total _ before after p left right c metered.held
      linear_combination counts + metered.counted - total' + total0
    exact ⟨p', c', right', addr, absorbed.base, held',
      counted_exact _ _ big words' (fits_replace before after p p' big fits) counted',
      words', counted'⟩

theorem absorb_prev_metered (metered : Metered h before after p left c right big)
    (fits : Fits (before ++ p :: after) big) (prev : Nat) (here : prev = (left.map Chunk.addr).getLast?.getD p.base) :
    (∀ s ∈ (if isUsed h prev then [] else absorbSubtractions prev c.addr h), s.Covered) ∧
      ∃ (p' : HeapPage) (c' : Chunk) (left' : List Chunk),
        Metered (if isUsed h prev then h else absorb prev c.addr h) before after p' left' c' right big := by
  obtain ⟨p', c', left', -, held', -, absorbed, counts⟩ := absorb_prev_spec prev here metered.held
  constructor
  · intro s made
    split at made
    · cases made
    · next unused =>
        rcases List.eq_nil_or_concat left with rfl | ⟨left', d, rfl⟩
        · exact absurd (here ▸ (sentinel_used metered.held.rep).1) unused
        · have held := metered.held
          obtain rfl : prev = d.addr := by simpa using here
          have free : d.status = .free := by
            by_contra busy
            exact unused ((held_used_byte held d (by simp)).mpr busy)
          have member : d ∈ chunks (before ++ p :: after) :=
            (mem_chunks_at before after p _ _ right held.split d).mpr (by simp)
          exact absorb_covered h _ big d c.addr held.rep metered.exact member free s made
  · have words' : Words (if isUsed h prev then h else absorb prev c.addr h) := by
      split
      · exact metered.words
      · exact absorb_words prev c.addr h metered.words
    have counted' : counters (if isUsed h prev then h else absorb prev c.addr h) =
        total (before ++ p' :: after) + blocksWeight big := by
      have total' := held_total _ before after p' left' right c' held'
      have total0 := held_total _ before after p left right c metered.held
      linear_combination counts + metered.counted - total' + total0
    exact ⟨p', c', left', held',
      counted_exact _ _ big words' (fits_replace before after p p' big fits) counted', words', counted'⟩

end Steps

theorem kfree_chunk_covered (h : State σ) (pages : List HeapPage) (big : List (Nat × Nat)) (c : Chunk)
    (settled : Settled h pages) (member : c ∈ chunks pages) (used : c.status = .used) (words : Words h)
    (fits : Fits pages big) (counted : counters h = total pages + blocksWeight big) (s : Subtraction)
    (made : s ∈ kfreeChunkSubtractions c.addr h) :
    s.Covered := by
  have exact := counted_exact h pages big words fits counted
  have size := (chunk_sizes h pages settled.toRep c member).1
  have enough := used_size_le pages c member used
  obtain ⟨before, p, after, left, right, rfl, split⟩ := chunk_place pages c member
  obtain ⟨p1, metered1⟩ := hold_metered split settled used words fits counted
  have fits1 := fits_replace before after p p1 big fits
  obtain ⟨covered2, p2, c2, right2, addr2, base2, metered2⟩ := absorb_next_metered metered1 fits1 _ rfl
  obtain ⟨covered3, p3, c3, left3, metered3⟩ :=
    absorb_prev_metered metered2 (fits_replace before after p1 p2 big fits1) _ rfl
  -- The links of the chunk are the same before the first subtraction.
  have next := held_next metered1.held
  have prev := held_prev metered1.held
  change links.next h c.addr = _ at next
  change links.prev h c.addr = _ at prev
  rw [kfreeChunkSubtractions, next, prev] at made
  simp only [List.mem_cons, List.mem_append] at made
  rw [addr2, base2] at covered3 metered3
  rcases made with rfl | (inSecond | inThird) | inRelease
  · simp only [Subtraction.Covered, size]
    rw [exact.used]
    omega
  · exact covered2 s inSecond
  · exact covered3 s inThird
  · have least := meta_least (before ++ p3 :: after) c3 (chunk_here metered3.held.split)
    rw [← metered3.exact.bookkeeping] at least
    exact release_covered _ _ least metered3.words.bookkeeping s inRelease

section Calls

variable {A : PageAllocator σ} {Live : σ → List (Nat × Nat) → Prop} (lawful : A.Lawful Live)

include lawful

theorem kmalloc_chunk_covered (h : State σ) (pages : List HeapPage) (rest big : List (Nat × Nat)) (size : Nat)
    (owned : Owned Live h pages (big ++ rest)) (words : Words h) (counted : counters h = total pages + blocksWeight big)
    (s : Subtraction) (made : s ∈ kmallocChunkSubtractions A size h) : s.Covered := by
  rw [kmallocChunkSubtractions] at made
  split at made
  · cases made
  · rcases search_buckets_spec h pages numSizes (getAllocOrder (alignUp size align)) owned.toRep (by omega) with
      ⟨search, -⟩ | ⟨c, member, free, -, -, search⟩
    · cases done : A.alloc 0 h.pages with
      | error e => simp [search, createChunk, done] at made
      | ok granted =>
          obtain ⟨addr, s'⟩ := granted
          obtain ⟨p, h1, created, -, owned1, -, counted1, -⟩ := grow_spec lawful h pages _ addr s' owned done
          have words1 := create_chunk_words A _ h h1 words created
          have exact1 : Exact h1 (pages ++ [p]) big := by
            refine counted_exact h1 _ big words1 (owner_fits lawful _ _ big rest owned1.owner) ?_
            rw [counted1, counted, total_append, total_cons, total_nil, add_zero]
            abel
          simp only [search, created] at made
          rcases search_buckets_spec h1 (pages ++ [p]) numSizes (getAllocOrder (alignUp size align))
            owned1.toRep (by omega) with
            ⟨again, -⟩ | ⟨c, member, free, -, -, again⟩
          · simp [again] at made
          · rw [again] at made
            exact take_covered h1 _ big c owned1.toRep exact1 member free s made
    · have exact := counted_exact h pages big words (owner_fits lawful _ _ big rest owned.owner) counted
      rw [search] at made
      exact take_covered h pages big c owned.toRep exact member free s made

theorem kmalloc_covered (h : State σ) (pages : List HeapPage) (rest big : List (Nat × Nat)) (size : Nat)
    (owned : Owned Live h pages (big ++ rest)) (words : Words h) (counted : counters h = total pages + blocksWeight big)
    (s : Subtraction) (made : s ∈ kmallocSubtractions A size h) : s.Covered := by
  rw [kmallocSubtractions] at made
  split at made
  · cases made
  · generalize (if size < minSize then minSize else size) = size' at made
    dsimp only at made
    split at made
    · cases made
    · exact kmalloc_chunk_covered lawful h pages rest big size' owned words counted s made

theorem kfree_covered (h : State σ) (pages : List HeapPage) (live foreign big : List (Nat × Nat)) (alloc : Nat × Nat)
    (sound : Sound Live ⟨h, live, foreign⟩ pages big) (inLive : alloc ∈ live) (words : Words h)
    (counted : counters h = total pages + blocksWeight big) (s : Subtraction)
    (made : s ∈ kfreeSubtractions A alloc.1 h) : s.Covered := by
  have owned := sound.owned
  have fits := owner_fits lawful _ _ big foreign owned.owner
  rcases backed_positive _ _ _ (sound.backed alloc inLive) with ⟨c, member, used, place⟩ | ⟨addr, k, inBig, place⟩
  · have small := (chunk_next h pages owned.toRep c member).2
    rw [kfreeSubtractions, place, if_neg (chunk_unaligned pages c member), Word.sub_exact _ _ (by omega) (by omega),
      Nat.add_sub_cancel] at made
    exact kfree_chunk_covered h pages big c owned.toSettled member used words fits counted s made
  · have held : (addr, k) ∈ pages.map pageBlock ++ (big ++ foreign) := by simp [inBig]
    have high := live_high lawful _ _ addr k owned.owner held
    have aligned : isAligned (p2v addr) pageSize = true := (is_aligned_iff (p2v addr) 12).mpr high.2.1
    have low : v2p (p2v addr) = addr := v2p_p2v addr (by have := high.1; simp only [kernelVirtualBase] at this; omega)
    rw [kfreeSubtractions, place, if_pos aligned, low, lawful.orderKept _ _ k addr owned.owner held] at made
    obtain rfl := List.mem_singleton.mp made
    have exact := counted_exact h pages big words fits counted
    have enough := block_le big (addr, k) inBig
    simp only [Subtraction.Covered, exact.used, Nat.shiftLeft_eq, Nat.one_mul, baseShift, pow_add] at enough ⊢
    omega

end Calls

-- What an allocation counts for: the size of its chunk, or of its pages.
def allocBytes (A : PageAllocator σ) (h : State σ) (alloc : Nat × Nat) : Nat :=
  if alloc.2 < 0x1000 then getChunkSize h (alloc.1 - headerSize) else 0x1000 * 2 ^ A.orderAddr h.pages (v2p alloc.1)

def unusedBytes (h : State σ) (pages : List HeapPage) : Nat :=
  (((chunks pages).filter (fun c => !isUsed h c.addr)).map (fun c => getChunkSize h c.addr)).sum

-- `held` are the blocks the heap has from the page allocator: its pages and the large allocations.
structure Accounted (A : PageAllocator σ) (config : Config σ) (pages : List HeapPage)
    (held : List (Nat × Nat)) : Prop where
  invariant : HeapInvariant config.heap pages
  used : config.heap.memUsed = (config.live.map (allocBytes A config.heap)).sum
  free : config.heap.memFree = unusedBytes config.heap pages
  whole :
    config.heap.memUsed + config.heap.memFree + config.heap.memMeta = 0x1000 * (held.map (fun block => 2 ^ block.2)).sum

theorem unused_bytes_eq (h : State σ) (pages : List HeapPage) (settled : Settled h pages) :
    unusedBytes h pages = freeBytes pages := by
  have through (list : List Chunk) (inPages : ∀ c ∈ list, c ∈ chunks pages) :
      ((list.filter (fun c => !isUsed h c.addr)).map (fun c => getChunkSize h c.addr)).sum =
        (list.map freeSize).sum := by
    induction list with
    | nil => rfl
    | cons c list ih =>
        have member := inPages c List.mem_cons_self
        have rest := ih (fun d inList => inPages d (List.mem_cons_of_mem c inList))
        have flag := (settled_used h pages settled c member).2
        have size := (chunk_sizes h pages settled.toRep c member).1
        by_cases free : c.status = .free
        · rw [List.filter_cons_of_pos (by simp [flag.mpr free]), List.map_cons, List.sum_cons, rest, List.map_cons,
            List.sum_cons, size, freeSize, free]
        · have none : freeSize c = 0 := by
            cases status : c.status <;> simp_all [freeSize]
          rw [List.filter_cons_of_neg (by simpa using fun unused => free (flag.mp unused)), rest, List.map_cons,
            List.sum_cons, none, Nat.zero_add]
  exact through (chunks pages) (fun _ member => member)

section Runs

variable {A : PageAllocator σ} {Live : σ → List (Nat × Nat) → Prop} (lawful : A.Lawful Live)

theorem chunk_addrs_nodup (pages : List HeapPage) (distinct : (pages.map HeapPage.base).Nodup) :
    ((chunks pages).map Chunk.addr).Nodup := by
  refine List.Nodup.sublist ?_ (cells_nodup pages distinct)
  induction pages with
  | nil => exact List.Sublist.refl _
  | cons p pages ih =>
      have rest := ih (List.nodup_cons.mp distinct).2
      rw [chunks_cons, List.map_append]
      refine List.Sublist.append ?_ rest
      exact (List.sublist_append_left _ _).trans (List.sublist_cons_self _ _)

include lawful

theorem live_addresses (config : Config σ) (pages : List HeapPage) (big : List (Nat × Nat)) (front : Option Nat)
    (base : Count) (complete : Complete Live config pages big front base) :
    (config.live.map Prod.fst).Perm
      (((chunks pages).filter (fun c => c.status = .used)).map (fun c => c.addr + headerSize) ++
      big.map (fun block => p2v block.1)) := by
  have owned := complete.owned
  have high (block : Nat × Nat) (inBig : block ∈ big) :=
    live_high lawful _ _ block.1 block.2 owned.owner (by simp [inBig])
  refine (List.perm_ext_iff_of_nodup complete.distinct ?_).mpr ?_
  · rw [List.nodup_append]
    refine ⟨?_, ?_, ?_⟩
    · have once : (((chunks pages).filter (fun c => c.status = .used)).map Chunk.addr).Nodup :=
        (chunk_addrs_nodup pages owned.distinct).sublist (List.filter_sublist.map Chunk.addr)
      have shifted := once.map (add_left_injective headerSize)
      rwa [List.map_map] at shifted
    · have apart := (List.pairwise_append.mp (List.pairwise_append.mp (lawful.apart _ _ owned.owner)).2.1).1
      refine List.pairwise_map.mpr (apart.imp_of_mem ?_)
      intro a b memberA memberB disjoint
      have highA := (high a memberA).1
      have highB := (high b memberB).1
      have positiveA := Nat.two_pow_pos a.2
      have positiveB := Nat.two_pow_pos b.2
      simp only [Apart] at disjoint
      omega
    · intro x inChunks y inBlocks same
      obtain ⟨c, member, rfl⟩ := List.mem_map.mp inChunks
      obtain ⟨block, inBig, rfl⟩ := List.mem_map.mp inBlocks
      exact chunk_not_aligned pages c (List.mem_filter.mp member).1 (same ▸ (high block inBig).2.1)
  · intro x
    simp only [List.mem_append, List.mem_map, List.mem_filter, decide_eq_true_eq]
    constructor
    · rintro ⟨alloc, inLive, rfl⟩
      rcases backed_positive _ _ _ (complete.backed alloc inLive) with ⟨c, member, used, place⟩
        | ⟨addr, k, inBig, place⟩
      · exact .inl ⟨c, ⟨member, used⟩, place.symm⟩
      · exact .inr ⟨(addr, k), inBig, place.symm⟩
    · rintro (⟨c, ⟨member, used⟩, rfl⟩ | ⟨block, inBig, rfl⟩)
      · obtain ⟨alloc, inLive, place, -⟩ := complete.claimed c member used
        exact ⟨alloc, inLive, place⟩
      · obtain ⟨alloc, inLive, place⟩ := complete.wanted block inBig
        exact ⟨alloc, inLive, place⟩

theorem live_bytes (config : Config σ) (pages : List HeapPage) (big : List (Nat × Nat)) (front : Option Nat)
    (base : Count) (complete : Complete Live config pages big front base) :
    (config.live.map (allocBytes A config.heap)).sum = usedBytes pages + blockBytes big := by
  have owned := complete.owned
  have held (block : Nat × Nat) (inBig : block ∈ big) : block ∈ pages.map pageBlock ++ (big ++ config.foreign) := by
    simp [inBig]
  have high (block : Nat × Nat) (inBig : block ∈ big) :=
    live_high lawful _ _ block.1 block.2 owned.owner (held block inBig)
  -- What an allocation counts for can be told from its address.
  let bytesAt (x : Nat) : Nat :=
    if 0x1000 ∣ x then 0x1000 * 2 ^ A.orderAddr config.heap.pages (v2p x) else getChunkSize config.heap (x - headerSize)
  have byAddress : config.live.map (allocBytes A config.heap) = (config.live.map Prod.fst).map bytesAt := by
    rw [List.map_map]
    refine List.map_congr_left ?_
    intro alloc inLive
    rcases complete.backed alloc inLive with ⟨small, c, member, -, place, -⟩ | ⟨large, addr, k, inBig, place, -⟩
    · have unaligned := chunk_not_aligned pages c member
      rw [← place] at unaligned
      simp only [allocBytes, if_pos small, comp_apply, bytesAt, if_neg unaligned]
    · have aligned := (high (addr, k) inBig).2.1
      rw [← place] at aligned
      simp only [allocBytes, if_neg (Nat.not_lt.mpr large), comp_apply, bytesAt, if_pos aligned]
  have chunkBytes (list : List Chunk) (inPages : ∀ c ∈ list, c ∈ chunks pages) :
      (((list.filter (fun c => c.status = .used)).map (fun c => c.addr + headerSize)).map bytesAt).sum =
        (list.map usedSize).sum := by
    induction list with
    | nil => rfl
    | cons c list ih =>
        have member := inPages c List.mem_cons_self
        have rest := ih (fun d inList => inPages d (List.mem_cons_of_mem c inList))
        have here : bytesAt (c.addr + headerSize) = c.size := by
          simp only [bytesAt, if_neg (chunk_not_aligned pages c member), Nat.add_sub_cancel]
          exact (chunk_sizes _ pages owned.toRep c member).1
        by_cases used : c.status = .used
        · rw [List.filter_cons_of_pos (by simpa using used), List.map_cons, List.map_cons, List.sum_cons, rest,
            here, List.map_cons, List.sum_cons, usedSize, used]
        · have none : usedSize c = 0 := by
            cases status : c.status <;> simp_all [usedSize]
          rw [List.filter_cons_of_neg (by simpa using used), rest, List.map_cons, List.sum_cons, none, Nat.zero_add]
  have pageBytes : (big.map (fun block => p2v block.1)).map bytesAt = big.map (fun block => 0x1000 * 2 ^ block.2) := by
    rw [List.map_map]
    refine List.map_congr_left ?_
    intro block inBig
    have place := high block inBig
    have low : v2p (p2v block.1) = block.1 :=
      v2p_p2v block.1 (by have := place.1; simp only [kernelVirtualBase] at this; omega)
    simp only [comp_apply, bytesAt, if_pos place.2.1, low]
    rw [lawful.orderKept _ _ block.2 block.1 owned.owner (held block inBig)]
  rw [byAddress, ((live_addresses lawful config pages big front base complete).map bytesAt).sum_eq,
    List.map_append, List.sum_append, chunkBytes _ (fun _ member => member), pageBytes]
  rfl

theorem complete_accounted (config : Config σ) (pages : List HeapPage) (big : List (Nat × Nat)) (front : Option Nat)
    (complete : Complete Live config pages big front 0) : Accounted A config pages (pages.map pageBlock ++ big) := by
  have owned := complete.owned
  have counted : counters config.heap = total pages + blocksWeight big := by rw [complete.counted, zero_add]
  have exact := counted_exact _ pages big complete.words (owner_fits lawful _ _ big _ owned.owner) counted
  refine ⟨owned_invariant _ pages _ owned, ?_, ?_, ?_⟩
  · rw [exact.used, live_bytes lawful config pages big front 0 complete]
  · rw [exact.free, unused_bytes_eq _ pages owned.toSettled]
  · have filled := page_bytes pages
    have sizes := sizes_eq (chunks pages) owned.noHand
    have blocks := block_bytes_append (pages.map pageBlock) big
    rw [page_blocks_bytes] at blocks
    have scaled : 0x1000 * ((pages.map pageBlock ++ big).map (fun block => 2 ^ block.2)).sum =
        blockBytes (pages.map pageBlock ++ big) := by
      rw [blockBytes, List.sum_map_mul_left]
    rw [scaled, blocks, exact.used, exact.free, exact.bookkeeping, usedBytes, freeBytes]
    omega

omit lawful in
-- The heap's counters are exact at every point of every run, and no subtraction of the
-- next call would go below zero.
theorem heap_accounting_exact (lawful : A.Lawful Live) (h h' : State (σ × List PageEvent)) (foreign : List (Nat × Nat))
    (blank : Blank h) (zero : tallies h = (0, 0, 0)) (owner : LoggedLive Live h.pages foreign)
    (start : initKmalloc A.logged h = .ok h') (config : Config (σ × List PageEvent))
    (run : ReflTransGen (Step A.logged) ⟨h', [], foreign⟩ config) :
    (∃ pages held, Accounted A.logged config pages held ∧
      (outstanding config.heap.pages.2).Perm (held ++ config.foreign)) ∧
      (∀ size, ∀ s ∈ kmallocSubtractions A.logged size config.heap, s.Covered) ∧
      ∀ alloc ∈ config.live, ∀ s ∈ kfreeSubtractions A.logged alloc.1 config.heap, s.Covered := by
  have logged := logged_lawful A Live lawful
  simp only [tallies, Prod.mk.injEq] at zero
  obtain ⟨used, free, bookkeeping⟩ := zero
  have words : Words h := ⟨by rw [used]; decide, by rw [free]; decide, by rw [bookkeeping]; decide⟩
  have nothing : counters h = 0 := by rw [counters, used, free, bookkeeping, count_zero]
  obtain ⟨p, complete, -⟩ := init_complete logged h h' foreign blank words owner start
  rw [nothing] at complete
  obtain ⟨pages, big, complete'⟩ := run_complete logged _ config [p] [] _ _ complete run
  have counted : counters config.heap = total pages + blocksWeight big := by rw [complete'.counted, zero_add]
  refine ⟨⟨pages, _, complete_accounted logged config pages big _ complete', ?_⟩, ?_, ?_⟩
  · rw [List.append_assoc]
    exact complete'.owned.owner.held
  · intro size
    exact kmalloc_covered logged _ pages _ big size complete'.owned complete'.words counted
  · intro alloc inLive
    exact kfree_covered logged _ pages _ _ big alloc complete'.toSound inLive complete'.words counted

end Runs

theorem heap_accounting_small : ∃ h' p q h1 h2 h3, initKmalloc pmm.logged loggedHeap = .ok h' ∧
    kmalloc pmm.logged 2048 h' = .ok (some p, h1) ∧ kmalloc pmm.logged 2048 h1 = .ok (some q, h2) ∧
    kfree pmm.logged p h2 = .ok h3 ∧ (∃ pages held, Accounted pmm.logged ⟨h3, [(q, 2048)], []⟩ pages held) ∧
      (∀ s ∈ kmallocSubtractions pmm.logged 100 h3, s.Covered) ∧
      ∀ s ∈ kfreeSubtractions pmm.logged q h3, s.Covered := by
  obtain ⟨h', p, q, h1, h2, h3, -, start, done, done', freed, -⟩ := halves_run
  have run : ReflTransGen (Step pmm.logged) ⟨h', [], []⟩ ⟨h3, [(q, 2048)], []⟩ :=
    .tail (.tail (.single (.kmalloc h' h1 [] [] 2048 p done)) (.kmalloc h1 h2 _ [] 2048 q done'))
      (.kfree h2 h3 [(q, 2048)] [] [] p 2048 freed)
  obtain ⟨⟨pages, held, accounted, -⟩, covered, covered'⟩ :=
    heap_accounting_exact small_heap_lawful loggedHeap h' [] logged_heap_blank rfl logged_heap_live start _ run
  exact ⟨h', p, q, h1, h2, h3, start, done, done', freed, ⟨pages, held, accounted⟩, covered 100,
    covered' (q, 2048) (by simp)⟩

end X86OS.Heap
