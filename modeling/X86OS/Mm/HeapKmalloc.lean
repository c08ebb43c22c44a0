import X86OS.Mm.HeapAlloc

set_option autoImplicit false

namespace X86OS.Heap

open Function Dll Mem

variable {σ : Type}

-- What neighbouring chunks may be between calls.
def Calm (a b : Chunk) : Prop := ¬ (a.status = .free ∧ b.status = .free)

theorem calm_left (a b : Chunk) (busy : a.status ≠ .free) : Calm a b := fun both => busy both.1

theorem calm_right (a b : Chunk) (busy : b.status ≠ .free) : Calm a b := fun both => busy both.2

-- The heap between two calls: no chunk in hand, no two free neighbours.
structure Settled (h : State σ) (pages : List HeapPage) : Prop extends Rep h pages where
  noHand : ∀ c ∈ chunks pages, c.status ≠ .hand
  spread : ∀ p ∈ pages, p.chunks.IsChain Calm

theorem settled_same (h h' : State σ) (pages : List HeapPage) (same : SameData h h') (settled : Settled h pages) :
    Settled h' pages :=
  ⟨rep_same h h' pages same settled.toRep, settled.noHand, settled.spread⟩

-- The used chunks of `pages'` are those of `pages` and the new chunk `c`.
structure Taken (pages pages' : List HeapPage) (c : Chunk) : Prop where
  used : c.status = .used
  fresh : c ∉ chunks pages
  clients : ∀ d : Chunk, d.status = .used → (d ∈ chunks pages' ↔ d = c ∨ d ∈ chunks pages)

theorem spread_take (left right mid : List Chunk) (c : Chunk) (allocSize : Nat) (free : c.status = .free)
    (spread : (left ++ [c] ++ right).IsChain Calm)
    (shape : mid = [⟨c.addr, c.size, .used⟩] ∨
      ∃ rest, mid = [⟨c.addr, allocSize, .used⟩, ⟨c.addr + headerSize + allocSize, rest, .free⟩]) :
    (left ++ mid ++ right).IsChain Calm := by
  simp only [List.isChain_append, List.isChain_singleton] at spread
  obtain ⟨⟨chainLeft, -, -⟩, chainRight, after⟩ := spread
  have calmAfter (y : Chunk) (member : y ∈ right.head?) : y.status ≠ .free := by
    intro freeY
    exact after c (by simp) y member ⟨free, freeY⟩
  rcases shape with rfl | ⟨rest, rfl⟩
  · simp only [List.isChain_append, List.isChain_singleton]
    refine ⟨⟨chainLeft, trivial, fun a _ b member => ?_⟩, chainRight, fun a member b _ => ?_⟩
    · obtain rfl : _ = b := by simpa using member
      exact calm_right _ _ (by simp)
    · obtain rfl : _ = a := by simpa using member
      exact calm_left _ _ (by simp)
  · simp only [List.isChain_append, List.isChain_pair]
    refine ⟨⟨chainLeft, calm_left _ _ (by simp), fun a _ b member => ?_⟩, chainRight, fun a _ b member => ?_⟩
    · obtain rfl : _ = b := by simpa using member
      exact calm_right _ _ (by simp)
    · exact calm_right _ _ (calmAfter b member)

theorem spread_replace (before after : List HeapPage) (p p' : HeapPage)
    (spread : ∀ q ∈ before ++ p :: after, q.chunks.IsChain Calm) (spread' : p'.chunks.IsChain Calm) :
    ∀ q ∈ before ++ p' :: after, q.chunks.IsChain Calm := by
  intro q member
  simp only [List.mem_append, List.mem_cons] at member
  rcases member with inBefore | rfl | inAfter
  · exact spread q (by simp [inBefore])
  · exact spread'
  · exact spread q (by simp [inAfter])

-- How the pages and the counters change when a client gets a chunk out of `c`.
structure Carved (h : State σ) (pages : List HeapPage) (h' : State σ) (pages' : List HeapPage)
    (c c' : Chunk) : Prop where
  addr : c'.addr = c.addr
  bases : pages'.map HeapPage.base = pages.map HeapPage.base
  others : ∀ q ∈ pages'.tail, c' ∈ q.chunks ∨ q ∈ pages.tail
  counted : counters h' + total pages = counters h + total pages'

theorem tail_replace (before after : List HeapPage) (p p' : HeapPage) (c : Chunk) (here : c ∈ p'.chunks) (q : HeapPage)
    (member : q ∈ (before ++ p' :: after).tail) : c ∈ q.chunks ∨ q ∈ (before ++ p :: after).tail := by
  cases before with
  | nil => exact .inr member
  | cons first before =>
      simp only [List.cons_append, List.tail_cons, List.mem_append, List.mem_cons] at member ⊢
      rcases member with inBefore | rfl | inAfter
      · exact .inr (.inl inBefore)
      · exact .inl here
      · exact .inr (.inr (.inr inAfter))

theorem count_exchange (a b x y s t : Count) (counted : a + x = b + y) (edit : t + x = s + y) : a + s = b + t := by
  have both : a + s + (x + y) = b + t + (x + y) :=
    calc a + s + (x + y) = a + x + (s + y) := by abel
      _ = b + y + (t + x) := by rw [counted, edit]
      _ = b + t + (x + y) := by abel
  exact add_right_cancel both

theorem take_free_spec (h : State σ) (pages : List HeapPage) (c : Chunk) (allocSize : Nat) (settled : Settled h pages)
    (member : c ∈ chunks pages) (free : c.status = .free) (fits : allocSize ≤ c.size) (four : 4 ∣ allocSize)
    (least : minSize ≤ allocSize) :
    ∃ pages' c' h',
      takeChunk c.addr allocSize (removeNode links (bucketRef (bucketIndex c.size)) (c.addr + headerSize) h) =
        (some (c'.addr + headerSize), h') ∧
      allocSize ≤ c'.size ∧ Taken pages pages' c' ∧ Settled h' pages' ∧ SameOutside pages h h' ∧
        Carved h pages h' pages' c c' := by
  obtain ⟨before, p, after, left, right, rfl, split⟩ := chunk_place pages c member
  let p1 := p.replace left [c] [{ c with status := .hand }] right split (by simp [Laid])
  have split1 : p1.chunks = left ++ [{ c with status := .hand }] ++ right := rfl
  obtain ⟨rep1, outside1, -⟩ := rep_unbucket split settled.toRep free (rfl : p1.base = p.base) split1
  obtain ⟨p', mid, h', result, base, split', cut, rep', outside', counted⟩ :=
    take_chunk_spec _ before after p1 left right _ allocSize split1 rep1 rfl fits four least
  have shape : mid = [⟨c.addr, c.size, .used⟩] ∨
      ∃ rest, mid = [⟨c.addr, allocSize, .used⟩, ⟨c.addr + headerSize + allocSize, rest, .free⟩] :=
    cut.imp And.left (fun ⟨rest, _, cutEq, _⟩ => ⟨rest, cutEq⟩)
  have spread' : p'.chunks.IsChain Calm := by
    rw [split']
    exact spread_take left right mid c allocSize free (split ▸ settled.spread p (by simp)) shape
  obtain ⟨c', tail, midEq, addr, used, enough, tailFree⟩ :
      ∃ c' tail, mid = c' :: tail ∧ c'.addr = c.addr ∧ c'.status = .used ∧ allocSize ≤ c'.size ∧
        ∀ d ∈ tail, d.status = .free := by
    rcases shape with rfl | ⟨rest, rfl⟩
    · exact ⟨_, _, rfl, rfl, rfl, fits, by simp⟩
    · exact ⟨_, _, rfl, rfl, rfl, le_refl _, by simp⟩
  have chunksBefore := mem_chunks_at before after p left [c] right split
  have chunksAfter := mem_chunks_at before after p' left mid right split'
  have old : ∀ d : Chunk, d.status = .used → (d ∈ chunks (before ++ p :: after) ↔
      d ∈ chunks before ∨ d ∈ left ∨ d ∈ right ∨ d ∈ chunks after) := by
    intro d usedD
    rw [chunksBefore, List.mem_singleton, or_iff_right]
    rintro rfl
    rw [free] at usedD
    cases usedD
  have here : c' ∈ p'.chunks := by
    rw [split', midEq]
    simp
  refine ⟨before ++ p' :: after, c', h', addr ▸ result, enough, ⟨used, ?_, ?_⟩, ⟨rep', ?_, ?_⟩, ?_, addr, ?_, ?_, ?_⟩
  · intro present
    have same := chunk_unique _ settled.distinct c' c present member addr
    rw [same, free] at used
    cases used
  · intro d usedD
    rw [chunksAfter, old d usedD, midEq, List.mem_cons]
    constructor
    · rintro ((here | inTail) | others)
      · exact .inl here
      · rw [tailFree d inTail] at usedD
        cases usedD
      · exact .inr others
    · rintro (here | others)
      · exact .inl (.inl here)
      · exact .inr others
  · intro d memberD
    rw [chunksAfter, midEq, List.mem_cons] at memberD
    rcases memberD with (here | inTail) | others
    · rw [here, used]
      decide
    · rw [tailFree d inTail]
      decide
    · exact settled.noHand d ((chunksBefore d).mpr (.inr others))
  · exact spread_replace before after p p' settled.spread spread'
  · have scratch (x : Nat) (inside : Scratch (before ++ p1 :: after) x) : Scratch (before ++ p :: after) x :=
      edit_scratch split split1 rfl (by simp [free]) x inside
    exact same_outside_trans _ _ _ _ outside1 (same_outside_congr _ _ _ _ scratch outside')
  · simp only [List.map_append, List.map_cons, base]
    rfl
  · exact tail_replace before after p p' c' here
  · have edit := total_edit before after p p' left [c] mid right split split'
    rw [counters_remove_bucket] at counted
    have weighed : tally [c] = weight { c with status := .free } := by simp [← free]
    rw [weighed] at edit
    exact count_exchange _ _ _ _ _ _ counted edit

theorem order_fits (allocSize size : Nat) (least : minSize ≤ allocSize) (leastSize : minSize ≤ size)
    (above : getAllocOrder allocSize ≤ bucketIndex size) : allocSize ≤ size := by
  simp only [getAllocOrder, bucketIndex, logTwo, orderOffset, minSize] at *
  have order : 3 ≤ Nat.log2 size := (Nat.le_log2 (by omega)).mpr leastSize
  have exponent : Nat.log2 (allocSize - 1) + 1 ≤ Nat.log2 size := by
    have small : 2 ≤ Nat.log2 (allocSize - 1) := (Nat.le_log2 (by omega)).mpr (by omega)
    omega
  have below : allocSize - 1 < 2 ^ (Nat.log2 (allocSize - 1) + 1) := Nat.lt_log2_self
  have power : 2 ^ (Nat.log2 (allocSize - 1) + 1) ≤ 2 ^ Nat.log2 size := Nat.pow_le_pow_right (by decide) exponent
  have self : 2 ^ Nat.log2 size ≤ size := Nat.log2_self_le (by omega)
  omega

theorem align_up_spec (size : Nat) (small : size < 0x1000) : size ≤ alignUp size align ∧ 4 ∣ alignUp size align := by
  have equal : alignUp size align = (size + 2 ^ 2 - 1) % 2 ^ 32 / 2 ^ 2 * 2 ^ 2 := align_up_eq size 2 (by decide)
  rw [equal]
  omega

theorem chunk_least (pages : List HeapPage) (c : Chunk) (member : c ∈ chunks pages) : minSize ≤ c.size := by
  obtain ⟨before, p, after, left, right, rfl, split⟩ := chunk_place pages c member
  have laid := p.laid
  rw [split, List.append_assoc, List.singleton_append] at laid
  exact (laid_split _ _ left right c laid).2.2.1

theorem serve_request (h : State σ) (pages : List HeapPage) (c : Chunk) (size : Nat) (settled : Settled h pages)
    (least : minSize ≤ size) (small : size < 0x1000) (member : c ∈ chunks pages) (free : c.status = .free)
    (above : getAllocOrder (alignUp size align) ≤ bucketIndex c.size) :
    ∃ pages' c' h', takeChunk c.addr (alignUp size align)
          (removeNode links (bucketRef (bucketIndex c.size)) (c.addr + headerSize) h) =
            (some (c'.addr + headerSize), h') ∧
      size ≤ c'.size ∧ Taken pages pages' c' ∧ Settled h' pages' ∧ SameOutside pages h h' ∧
        Carved h pages h' pages' c c' := by
  obtain ⟨enough, four⟩ := align_up_spec size small
  have leastAlloc : minSize ≤ alignUp size align := by omega
  have fits := order_fits _ _ leastAlloc (chunk_least pages c member) above
  obtain ⟨pages', c', h', result, large, taken⟩ := take_free_spec h pages c _ settled member free fits four leastAlloc
  exact ⟨pages', c', h', result, by omega, taken⟩

-- The block of the page allocator behind a heap page.
def pageBlock (p : HeapPage) : Nat × Nat := (v2p p.base, 0)

-- `rest` are the blocks handed out to others: large allocations and direct callers.
structure Owned (Live : σ → List (Nat × Nat) → Prop) (h : State σ) (pages : List HeapPage)
    (rest : List (Nat × Nat)) : Prop extends Settled h pages where
  owner : Live h.pages (pages.map pageBlock ++ rest)
  grown : pages ≠ []

def InPages (pages : List HeapPage) (x : Nat) : Prop := ∃ p ∈ pages, p.base ≤ x ∧ x < p.base + pageSize

theorem not_scratch (pages : List HeapPage) (x : Nat) (safe : ClientByte pages x ∨ ¬ InPages pages x) :
    ¬ Scratch pages x := by
  rintro ⟨inPages, notClient⟩
  rcases safe with client | outside
  · exact notClient client
  · exact outside inPages

theorem blocks_of_bases (pages pages' : List HeapPage) (bases : pages'.map HeapPage.base = pages.map HeapPage.base) :
    pages'.map pageBlock = pages.map pageBlock := by
  have through (list : List HeapPage) : list.map pageBlock = (list.map HeapPage.base).map (fun b => (v2p b, 0)) := by
    simp [pageBlock]
  rw [through, through, bases]

theorem in_pages_of_bases (pages pages' : List HeapPage)
    (bases : pages'.map HeapPage.base = pages.map HeapPage.base) (x : Nat) :
    InPages pages' x ↔ InPages pages x := by
  have through (list : List HeapPage) : InPages list x ↔ ∃ b ∈ list.map HeapPage.base, b ≤ x ∧ x < b + pageSize := by
    simp [InPages]
  rw [through, through, bases]

-- A chunk `c` of at least `size` bytes is the client's, and nothing of the other clients
-- has changed.
structure Granted (Live : σ → List (Nat × Nat) → Prop) (size : Nat) (h : State σ) (pages : List HeapPage)
    (rest : List (Nat × Nat)) (h' : State σ) (pages' : List HeapPage) (c : Chunk) : Prop where
  large : size ≤ c.size
  taken : Taken pages pages' c
  owned : Owned Live h' pages' rest
  kept : ∀ x, InPages pages x → InPages pages' x
  frame : ∀ x, ClientByte pages x ∨ ¬ InPages pages' x → h'.mem x = h.mem x
  first : pages'.head?.map HeapPage.base = pages.head?.map HeapPage.base
  others : ∀ q ∈ pages'.tail, c ∈ q.chunks ∨ q ∈ pages.tail
  counted : counters h' + total pages = counters h + total pages'

section Requests

variable {A : PageAllocator σ} {Live : σ → List (Nat × Nat) → Prop} (lawful : A.Lawful Live)

include lawful

theorem fresh_base (s : σ) (pages : List HeapPage) (rest : List (Nat × Nat)) (addr order : Nat)
    (live : Live s ((addr, order) :: (pages.map pageBlock ++ rest))) : p2v addr ∉ pages.map HeapPage.base := by
  intro member
  obtain ⟨p, inPages, base⟩ := List.mem_map.mp member
  have bounds := (lawful.inRam s _ live (addr, order) (by simp)).2
  have block : pageBlock p = (addr, 0) := by
    rw [pageBlock, base, v2p_p2v addr (by simp only at bounds; omega)]
  have apart := List.rel_of_pairwise_cons (lawful.apart s _ live)
    (List.mem_append_left rest (List.mem_map.mpr ⟨p, inPages, block⟩))
  have positive : 0 < 2 ^ order := by positivity
  simp only [Apart] at apart
  omega

theorem grow_spec (h : State σ) (pages : List HeapPage) (rest : List (Nat × Nat)) (addr : Nat) (s' : σ)
    (owned : Owned Live h pages rest) (done : A.alloc 0 h.pages = .ok (addr, s')) :
    ∃ p h', createChunk A h = .ok (p2v addr, h') ∧ p.chunks = [⟨p.base + sizeofChunk, 4044, .free⟩] ∧
      Owned Live h' (pages ++ [p]) rest ∧ (∀ x, ¬ Scratch (pages ++ [p]) x → h'.mem x = h.mem x) ∧
      counters h' = counters h + pageWeight p ∧
      Relists (pushed (bucketIndex 4044) (p.base + sizeofChunk + headerSize)) h h' := by
  have live := lawful.allocated _ _ _ _ _ owned.owner done
  obtain ⟨aligned, low⟩ := lawful.inRam _ _ live (addr, 0) (by simp)
  simp only [pow_zero, mul_one] at aligned low
  obtain ⟨p, h', result, base, only, rep, pagesEq, outside, counted, lists⟩ :=
    create_chunk_spec A h s' pages addr owned.toRep done aligned low
    (fresh_base lawful s' pages rest addr 0 live)
  have block : pageBlock p = (addr, 0) := by rw [pageBlock, base, v2p_p2v addr (by omega)]
  refine ⟨p, h', result, only, ⟨⟨rep, ?_, ?_⟩, ?_, by simp⟩, outside, counted, lists⟩
  · intro c member
    rw [chunks, List.flatMap_append, List.mem_append] at member
    rcases member with inPages | inNew
    · exact owned.noHand c inPages
    · obtain rfl : c = _ := by simpa [only] using inNew
      simp
  · intro q member
    rcases List.mem_append.mp member with inPages | inNew
    · exact owned.spread q inPages
    · rw [List.mem_singleton.mp inNew, only]
      exact List.isChain_singleton _
  · rw [pagesEq]
    apply lawful.reorder _ _ _ _ live
    rw [List.map_append, List.map_singleton, block, List.append_assoc]
    exact List.perm_middle.symm

omit lawful in
theorem granted_serve (h : State σ) (pages : List HeapPage) (rest : List (Nat × Nat)) (c : Chunk) (size : Nat)
    (owned : Owned Live h pages rest) (least : minSize ≤ size) (small : size < 0x1000) (member : c ∈ chunks pages)
    (free : c.status = .free) (above : getAllocOrder (alignUp size align) ≤ bucketIndex c.size) :
    ∃ pages' c' h', takeChunk c.addr (alignUp size align)
          (removeNode links (bucketRef (bucketIndex c.size)) (c.addr + headerSize) h) =
            (some (c'.addr + headerSize), h') ∧
      c'.addr = c.addr ∧ Granted Live size h pages rest h' pages' c' := by
  obtain ⟨pages', c', h', result, large, taken, settled, outside, addr, bases, others, counted⟩ :=
    serve_request h pages c size owned.toSettled least small member free above
  refine ⟨pages', c', h', result, addr, large, taken, ⟨settled, ?_, ?_⟩,
    fun x => (in_pages_of_bases pages pages' bases x).mpr, ?_, ?_, others, counted⟩
  · rw [outside.owner, blocks_of_bases pages pages' bases]
    exact owned.owner
  · rintro rfl
    exact owned.grown (List.map_eq_nil_iff.mp bases.symm)
  · intro x safe
    rw [in_pages_of_bases pages pages' bases] at safe
    exact outside.bytes x (not_scratch pages x safe)
  · rw [← List.head?_map, bases, List.head?_map]

omit lawful in
theorem granted_grown (h h1 : State σ) (pages : List HeapPage) (rest : List (Nat × Nat)) (p : HeapPage) (m : Chunk)
    (size : Nat) (only : p.chunks = [m]) (free : m.status = .free)
    (outside : ∀ x, ¬ Scratch (pages ++ [p]) x → h1.mem x = h.mem x) (grown : pages ≠ [])
    (counted : counters h1 = counters h + pageWeight p) (h' : State σ) (pages' : List HeapPage) (c : Chunk)
    (granted : Granted Live size h1 (pages ++ [p]) rest h' pages' c) (place : c.addr = m.addr) :
    Granted Live size h pages rest h' pages' c := by
  have chunksNew (d : Chunk) : d ∈ chunks (pages ++ [p]) ↔ d ∈ chunks pages ∨ d = m := by simp [chunks, only]
  have clientsNew (x : Nat) (client : ClientByte pages x) : ClientByte (pages ++ [p]) x := by
    obtain ⟨d, member, rest⟩ := client
    exact ⟨d, (chunksNew d).mpr (.inl member), rest⟩
  have keptNew (x : Nat) (inside : InPages pages x) : InPages (pages ++ [p]) x := by
    obtain ⟨q, member, range⟩ := inside
    exact ⟨q, List.mem_append_left _ member, range⟩
  refine ⟨granted.large, ⟨granted.taken.used, ?_, ?_⟩, granted.owned,
    fun x inside => granted.kept x (keptNew x inside), ?_, ?_, ?_, ?_⟩
  · exact fun present => granted.taken.fresh ((chunksNew c).mpr (.inl present))
  · intro d used
    rw [granted.taken.clients d used, chunksNew, or_iff_left (a := d ∈ chunks pages)]
    rintro rfl
    rw [free] at used
    cases used
  · intro x safe
    have safeNew : ClientByte (pages ++ [p]) x ∨ ¬ InPages pages' x := safe.imp_left (clientsNew x)
    have safeOld : ClientByte (pages ++ [p]) x ∨ ¬ InPages (pages ++ [p]) x :=
      safeNew.imp_right (fun outside inside => outside (granted.kept x inside))
    rw [granted.frame x safeNew, outside x (not_scratch _ x safeOld)]
  · rw [granted.first, List.head?_append_of_ne_nil _ grown]
  · -- The new page is not among the old ones left as they were: its one chunk is the client's now.
    intro q member
    refine (granted.others q member).imp_right ?_
    intro inTail
    rw [List.tail_append_of_ne_nil grown, List.mem_append, List.mem_singleton] at inTail
    refine inTail.resolve_right ?_
    rintro rfl
    have unused : m ∈ chunks pages' := List.mem_flatMap.mpr ⟨q, List.mem_of_mem_tail member, by simp [only]⟩
    have used : c ∈ chunks pages' := (granted.taken.clients c granted.taken.used).mpr (.inl rfl)
    have same := chunk_unique pages' granted.owned.distinct c m used unused place
    have status := granted.taken.used
    rw [same, free] at status
    cases status
  · have exchanged := granted.counted
    rw [counted, total_append, total_cons, total_nil, add_zero] at exchanged
    have grouped : counters h' + total pages + pageWeight p = counters h + total pages' + pageWeight p := by
      calc counters h' + total pages + pageWeight p = counters h' + (total pages + pageWeight p) := by abel
        _ = counters h + total pages' + pageWeight p := by rw [exchanged]; abel
    exact add_right_cancel grouped

omit lawful in
theorem last_bucket : bucketIndex 4044 = 8 := by decide +kernel

omit lawful in
theorem exhausted_none (h : State σ) (pages : List HeapPage) (order : Nat) (rep : Rep h pages)
    (exhausted : ∀ j, order ≤ j → j < numSizes → h.freeBucket j = none) (c : Chunk) (member : c ∈ chunks pages)
    (free : c.status = .free) (above : order ≤ bucketIndex c.size) : False := by
  have small := bucket_index_small c.size (Nat.lt_of_le_of_lt (chunk_size_small pages c member) (by decide))
  obtain ⟨nodes, -, head, members⟩ := rep.buckets _ small
  rw [exhausted _ above small] at head
  rw [List.head?_eq_none_iff.mp head.symm] at members
  exact List.not_mem_nil ((members _).mpr ⟨c, member, free, rfl, rfl⟩)

-- The order a request asks of the page allocator: its own, or that of a new heap page.
def neededOrder (size : Nat) : Nat := if size < 0x1000 then 0 else logTwo (size - 1) + 1 - baseShift

omit lawful in
theorem alloc_order_large (size : Nat) (least : minSize ≤ size) (small : size < 0x1000) :
    getAllocOrder (alignUp size align) ≥ numSizes ↔ 2048 < size := by
  have aligned : alignUp size align = (size + 2 ^ 2 - 1) % 2 ^ 32 / 2 ^ 2 * 2 ^ 2 := align_up_eq size 2 (by decide)
  have power : 11 ≤ Nat.log2 (alignUp size align - 1) ↔ 2 ^ 11 ≤ alignUp size align - 1 :=
    Nat.le_log2 (by simp only [minSize] at least; omega)
  simp only [getAllocOrder, logTwo, orderOffset, numSizes]
  omega

-- A request of at most a page is refused, fails with the page allocator, is served by the
-- first chunk of a bucket, or by the one chunk of a new page.
theorem kmalloc_chunk_cases (h : State σ) (pages : List HeapPage) (rest : List (Nat × Nat)) (size : Nat)
    (owned : Owned Live h pages rest) (least : minSize ≤ size) (small : size < 0x1000) :
    (2048 < size ∧ kmallocChunk A size h = .ok (none, h)) ∨
    (∃ e, A.alloc 0 h.pages = .error e ∧ kmallocChunk A size h = .error e) ∨
    (∃ c ∈ chunks pages, c.status = .free ∧ getAllocOrder (alignUp size align) ≤ bucketIndex c.size ∧
      h.freeBucket (bucketIndex c.size) = some (c.addr + headerSize) ∧
      kmallocChunk A size h = .ok (takeChunk c.addr (alignUp size align)
        (removeNode links (bucketRef (bucketIndex c.size)) (c.addr + headerSize) h))) ∨
      ∃ (addr : Nat) (s' : σ) (p : HeapPage) (h1 : State σ) (c : Chunk), A.alloc 0 h.pages = .ok (addr, s') ∧
        createChunk A h = .ok (p2v addr, h1) ∧ c = ⟨p.base + sizeofChunk, 4044, .free⟩ ∧ p.chunks = [c] ∧
        Owned Live h1 (pages ++ [p]) rest ∧ (∀ x, ¬ Scratch (pages ++ [p]) x → h1.mem x = h.mem x) ∧
        counters h1 = counters h + pageWeight p ∧ Relists (pushed (bucketIndex c.size) (c.addr + headerSize)) h h1 ∧
        getAllocOrder (alignUp size align) ≤ bucketIndex c.size ∧
        h1.freeBucket (bucketIndex c.size) = some (c.addr + headerSize) ∧
        kmallocChunk A size h = .ok (takeChunk c.addr (alignUp size align)
          (removeNode links (bucketRef (bucketIndex c.size)) (c.addr + headerSize) h1)) := by
  rw [kmallocChunk]
  by_cases order : getAllocOrder (alignUp size align) ≥ numSizes
  · exact .inl ⟨(alloc_order_large size least small).mp order, if_pos order⟩
  · rw [if_neg order]
    right
    rcases search_buckets_spec h pages numSizes (getAllocOrder (alignUp size align)) owned.toRep (by omega) with
      ⟨search, exhausted⟩ | ⟨c, member, free, above, head, search⟩
    · simp only [search]
      cases done : A.alloc 0 h.pages with
      | error e =>
          left
          exact ⟨e, rfl, by simp [createChunk, done]⟩
      | ok granted =>
          right
          right
          obtain ⟨addr, s'⟩ := granted
          obtain ⟨p, h1, created, only, owned1, outside1, counted1, lists1⟩ :=
            grow_spec lawful h pages rest addr s' owned done
          simp only [created]
          -- The new page's chunk is in the last bucket, so the second search ends there at the latest.
          have newMember : (⟨p.base + sizeofChunk, 4044, .free⟩ : Chunk) ∈ chunks (pages ++ [p]) := by
            simp [chunks, only]
          rcases search_buckets_spec h1 (pages ++ [p]) numSizes (getAllocOrder (alignUp size align))
            owned1.toRep (by omega) with
            ⟨-, empty⟩ | ⟨c, member, free, above, head, search⟩
          · exfalso
            obtain ⟨nodes, -, head, members⟩ := owned1.buckets 8 (by decide)
            rw [empty 8 (by simp only [numSizes] at order; omega) (by decide)] at head
            rw [List.head?_eq_none_iff.mp head.symm] at members
            exact List.not_mem_nil ((members _).mpr ⟨_, newMember, rfl, last_bucket, rfl⟩)
          · -- The old pages have nothing to offer, so it is the new page's chunk that was found.
            have new : c = ⟨p.base + sizeofChunk, 4044, .free⟩ := by
              rw [chunks, List.flatMap_append, List.mem_append] at member
              rcases member with old | inNew
              · exact absurd ⟨old, free⟩ (not_and.mpr (exhausted_none h pages _ owned.toRep exhausted c · · above))
              · simpa [only] using inNew
            exact ⟨addr, s', p, h1, c, rfl, rfl, new, new ▸ only, owned1, outside1, counted1, new ▸ lists1, above,
              head, by rw [search]⟩
    · exact .inr (.inl ⟨c, member, free, above, head, by rw [search]⟩)

theorem kmalloc_chunk_spec (h : State σ) (pages : List HeapPage) (rest : List (Nat × Nat)) (size : Nat)
    (owned : Owned Live h pages rest) (least : minSize ≤ size) (small : size < 0x1000) :
    (2048 < size ∧ kmallocChunk A size h = .ok (none, h)) ∨
    (∃ e, A.alloc 0 h.pages = .error e ∧ kmallocChunk A size h = .error e) ∨
      ∃ pages' c h', kmallocChunk A size h = .ok (some (c.addr + headerSize), h') ∧
        Granted Live size h pages rest h' pages' c := by
  rcases kmalloc_chunk_cases lawful h pages rest size owned least small with refused | failed |
    ⟨c, member, free, above, -, result⟩ | ⟨addr, s', p, h1, c, -, -, new, only, owned1, outside1, counted1,
      -, above, -, result⟩
  · exact .inl refused
  · exact .inr (.inl failed)
  · obtain ⟨pages', c', h', taken, -, granted⟩ := granted_serve h pages rest c size owned least small member free above
    exact .inr (.inr ⟨pages', c', h', by rw [result, taken], granted⟩)
  · have free : c.status = .free := by rw [new]
    obtain ⟨pages', c', h', taken, place, granted⟩ :=
      granted_serve h1 (pages ++ [p]) rest c size owned1 least small (by simp [chunks, only]) free above
    exact .inr (.inr
      ⟨pages', c', h', by rw [result, taken], granted_grown h h1 pages rest p c size only free outside1 owned.grown
      counted1 h' pages' c' granted place⟩)

theorem kmalloc_pages_spec (h : State σ) (pages : List HeapPage) (rest : List (Nat × Nat)) (size : Nat)
    (owned : Owned Live h pages rest) (large : 0x1000 ≤ size) :
    (∃ e, A.alloc (neededOrder size) h.pages = .error e ∧ kmallocPages A size h = .error e) ∨
      ∃ addr k h', kmallocPages A size h = .ok (some (p2v addr), h') ∧ size ≤ 0x1000 * 2 ^ k ∧
        Owned Live h' pages ((addr, k) :: rest) ∧ h'.mem = h.mem ∧
          counters h' = counters h + count (0x1000 * 2 ^ k) 0 0 := by
  have covered : size ≤ 0x1000 * 2 ^ (logTwo (size - 1) + 1 - baseShift) := by
    have order : 11 ≤ Nat.log2 (size - 1) := (Nat.le_log2 (by omega)).mpr (by omega)
    have below : size - 1 < 2 ^ (Nat.log2 (size - 1) + 1) := Nat.lt_log2_self
    rw [show Nat.log2 (size - 1) + 1 = 12 + (Nat.log2 (size - 1) + 1 - 12) by omega, pow_add] at below
    simp only [logTwo, baseShift]
    omega
  rw [neededOrder, if_neg (Nat.not_lt.mpr large)]
  simp only [kmallocPages]
  generalize logTwo (size - 1) + 1 - baseShift = k at covered
  cases done : A.alloc k h.pages with
  | error e => exact .inl ⟨e, rfl, rfl⟩
  | ok granted =>
      obtain ⟨addr, s'⟩ := granted
      right
      have live := lawful.allocated _ _ _ _ _ owned.owner done
      have bounds := (lawful.inRam _ _ live (addr, k) (by simp)).2
      have positive : 0 < 2 ^ k := by positivity
      have high : p2v addr = addr + kernelVirtualBase := p2v_low addr (by simp only at bounds; omega)
      have pointer : toPtr (p2v addr) = some (p2v addr) := if_neg (by rw [high]; simp [kernelVirtualBase])
      have same := add_used_same (1 <<< (baseShift + k)) { h with pages := s' }
      simp only [pointer]
      refine ⟨addr, k, _, rfl, covered,
        ⟨⟨rep_same _ _ _ same (rep_owner h pages s' owned.toRep), owned.noHand, owned.spread⟩, ?_,
        owned.grown⟩, same.mem, ?_⟩
      · exact lawful.reorder _ _ _ List.perm_middle.symm live
      · rw [counters_add_used, Nat.shiftLeft_eq, Nat.one_mul, baseShift, pow_add]
        rfl

theorem kmalloc_spec (h : State σ) (pages : List HeapPage) (rest : List (Nat × Nat)) (size : Nat)
    (owned : Owned Live h pages rest) :
    ((size = 0 ∨ 2048 < size ∧ size < 0x1000) ∧ kmalloc A size h = .ok (none, h)) ∨
    (∃ e, A.alloc (neededOrder size) h.pages = .error e ∧ kmalloc A size h = .error e) ∨
    (size < 0x1000 ∧ ∃ pages' c h', kmalloc A size h = .ok (some (c.addr + headerSize), h') ∧
      Granted Live size h pages rest h' pages' c) ∨
    (0x1000 ≤ size ∧ ∃ addr k h', kmalloc A size h = .ok (some (p2v addr), h') ∧ size ≤ 0x1000 * 2 ^ k ∧
      Owned Live h' pages ((addr, k) :: rest) ∧ h'.mem = h.mem ∧
        counters h' = counters h + count (0x1000 * 2 ^ k) 0 0) := by
  rw [kmalloc]
  by_cases zero : size ≤ 0
  · exact .inl ⟨.inl (by omega), if_pos zero⟩
  · rw [if_neg zero]
    simp only
    by_cases large : size ≥ 0x1000
    · have raised : (if size < minSize then minSize else size) = size := if_neg (by simp only [minSize]; omega)
      rw [raised, if_pos large]
      rcases kmalloc_pages_spec lawful h pages rest size owned large with failed | granted
      · exact .inr (.inl failed)
      · exact .inr (.inr (.inr ⟨large, granted⟩))
    · obtain ⟨size', sizeEq, least, atLeast, small, band⟩ :
          ∃ size', (if size < minSize then minSize else size) = size' ∧
          minSize ≤ size' ∧ size ≤ size' ∧ size' < 0x1000 ∧ (2048 < size' → 2048 < size) := by
        by_cases tiny : size < minSize
        · exact ⟨minSize, if_pos tiny, le_refl _, by omega, by decide, by simp [minSize]⟩
        · exact ⟨size, if_neg tiny, by omega, le_refl _, by omega, id⟩
      rw [sizeEq, if_neg (by omega)]
      rcases kmalloc_chunk_spec lawful h pages rest size' owned least small with
        ⟨between, null⟩ | ⟨e, failed⟩ | ⟨pages', c, h', result, granted⟩
      · exact .inl ⟨.inr ⟨band between, by omega⟩, null⟩
      · exact .inr (.inl ⟨e, by rwa [neededOrder, if_pos (by omega)]⟩)
      · exact .inr
          (.inr (.inl ⟨by omega, pages', c, h', result, { granted with large := atLeast.trans granted.large }⟩))

end Requests

end X86OS.Heap
