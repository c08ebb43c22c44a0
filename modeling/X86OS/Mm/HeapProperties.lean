import X86OS.Mm.HeapFree
import X86OS.Mm.HeapRuns
import X86OS.Mm.Pmm

set_option autoImplicit false

namespace X86OS.Heap

open Function Dll Mem Relation

variable {σ : Type}

-- What the memory and the globals of the heap look like between calls. A `HeapPage`
-- carries the layout of its page: sentinels at both ends, chunks without gaps between.
structure HeapInvariant (h : State σ) (pages : List HeapPage) : Prop where
  grown : pages ≠ []
  distinct : (pages.map HeapPage.base).Nodup
  allList : IsDll (links.next h) (links.prev h) (cells pages)
  ends : h.first = (cells pages).head? ∧ h.last = (cells pages).getLast?
  sentinels : ∀ p ∈ pages, isUsed h p.base = true ∧ isUsed h p.last = true
  sizes : ∀ c ∈ chunks pages, getChunkSize h c.addr = c.size ∧ 4 ∣ c.size ∧ 8 ≤ c.size ∧ logTwo c.size - 3 < 9
  calm : ∀ p ∈ pages, p.chunks.IsChain (fun c d => isUsed h c.addr = true ∨ isUsed h d.addr = true)
  buckets : ∀ i, i < 9 → ∃ nodes, IsDll (links.next h) (links.prev h) nodes ∧ h.freeBucket i = nodes.head? ∧
    ∀ x, x ∈ nodes ↔ ∃ c ∈ chunks pages, isUsed h c.addr = false ∧ logTwo c.size - 3 = i ∧ x = c.addr + headerSize

-- Bytes no client may have: headers, sentinels and the nodes of unused chunks.
def Reserved (h : State σ) (pages : List HeapPage) (x : Nat) : Prop :=
  (∃ a ∈ cells pages, a ≤ x ∧ x < a + headerSize) ∨
    (∃ p ∈ pages, (p.base ≤ x ∧ x < p.base + sizeofChunk) ∨ (p.last ≤ x ∧ x < p.last + sizeofChunk)) ∨
    ∃ c ∈ chunks pages, isUsed h c.addr = false ∧ c.addr + headerSize ≤ x ∧ x < c.addr + headerSize + minSize

def InAlloc (alloc : Nat × Nat) (x : Nat) : Prop := alloc.1 ≤ x ∧ x < alloc.1 + alloc.2

theorem settled_used (h : State σ) (pages : List HeapPage) (settled : Settled h pages) (c : Chunk)
    (member : c ∈ chunks pages) :
    (isUsed h c.addr = true ↔ c.status ≠ .free) ∧ (isUsed h c.addr = false ↔ c.status = .free) := by
  have flag := settled.flags c member
  have quiet := settled.noHand c member
  cases status : c.status with
  | free =>
      rw [status] at flag
      simp [isUsed, show h.mem (c.addr + usedOffset) = 0 from flag]
  | used =>
      rw [status] at flag
      simp [isUsed, show h.mem (c.addr + usedOffset) = 1 from flag]
  | hand => exact absurd status quiet

theorem owned_invariant {Live : σ → List (Nat × Nat) → Prop} (h : State σ) (pages : List HeapPage)
    (rest : List (Nat × Nat)) (owned : Owned Live h pages rest) : HeapInvariant h pages := by
  have used := settled_used h pages owned.toSettled
  refine ⟨owned.grown, owned.distinct, owned.all, ⟨owned.first, owned.last⟩, ?_, ?_, ?_, ?_⟩
  · intro p member
    obtain ⟨front, last⟩ := owned.ends p member
    simp [isUsed, front, last]
  · intro c member
    obtain ⟨before, p, after, left, right, rfl, split⟩ := chunk_place pages c member
    have laid := p.laid
    rw [split, List.append_assoc, List.singleton_append] at laid
    obtain ⟨-, four, least, -⟩ := laid_split _ _ left right c laid
    have small := chunk_size_small _ c member
    exact ⟨(chunk_sizes h _ owned.toRep c member).1, four, least, bucket_index_small c.size (by omega)⟩
  · intro p member
    refine List.IsChain.imp_of_mem_imp ?_ (owned.spread p member)
    intro c d memberC memberD calm
    rw [(used c (List.mem_flatMap.mpr ⟨p, member, memberC⟩)).1, (used d (List.mem_flatMap.mpr ⟨p, member, memberD⟩)).1]
    by_contra both
    exact calm (by simpa only [not_or, not_not] using both)
  · intro i small
    obtain ⟨nodes, dll, head, members⟩ := owned.buckets i small
    refine ⟨nodes, dll, head, ?_⟩
    intro x
    rw [members x]
    constructor
    · rintro ⟨c, member, free, index, place⟩
      exact ⟨c, member, (used c member).2.mpr free, index, place⟩
    · rintro ⟨c, member, unused, index, place⟩
      exact ⟨c, member, (used c member).2.mp unused, index, place⟩

theorem safe_not_reserved {Live : σ → List (Nat × Nat) → Prop} (h : State σ) (pages : List HeapPage)
    (rest : List (Nat × Nat)) (owned : Owned Live h pages rest) (x : Nat)
    (safe : ClientByte pages x ∨ ¬ InPages pages x) : ¬ Reserved h pages x := by
  have notMeta := safe_not_meta pages owned.distinct x safe
  rintro (header | ⟨p, member, sentinel⟩ | ⟨c, member, unused, range⟩)
  · exact notMeta (.inl header)
  · have inside : InPages pages x := by
      refine ⟨p, member, ?_⟩
      simp only [HeapPage.last, pageSize, sizeofChunk] at sentinel ⊢
      omega
    obtain ⟨c, memberC, used, low, high⟩ := safe.resolve_right (not_not_intro inside)
    have extent := chunk_extent pages c memberC
    obtain ⟨notBase, notLast⟩ := sentinel_not_chunk pages p c memberC
    have apartBase := extents_disjoint pages owned.distinct _ _ (front_extent pages p member) extent
      (fun same => notBase (congrArg Prod.fst same))
    have apartLast := extents_disjoint pages owned.distinct _ _ (last_extent pages p member) extent
      (fun same => notLast (congrArg Prod.fst same))
    simp only [Disjoint] at apartBase apartLast
    omega
  · exact notMeta (.inr ⟨c, member, ((settled_used h pages owned.toSettled c member).2).mp unused, range⟩)

-- A heap on the buddy allocator of the small machine.
def smallHeap : State Buddy.State :=
  ⟨fun _ => 0, (Buddy.boot Buddy.smallMap (fun _ => Buddy.zeroPage) Buddy.smallBump).state, fun _ => none,
    none, none, 0, 0, 0⟩

theorem small_heap_blank : Blank smallHeap := ⟨fun _ => rfl, rfl, rfl⟩

theorem small_heap_lawful :
    pmm.Lawful (PmmLive
      (Buddy.Managed Buddy.smallMap (Buddy.initBuddy Buddy.smallMap (fun _ => Buddy.zeroPage) Buddy.smallBump).2)) :=
  pmm_boot_lawful _ _ _ Buddy.small_bootable

theorem small_heap_live :
    PmmLive (Buddy.Managed Buddy.smallMap (Buddy.initBuddy Buddy.smallMap (fun _ => Buddy.zeroPage) Buddy.smallBump).2)
      smallHeap.pages [] :=
  pmm_boot_live _ _ _ Buddy.small_bootable

theorem small_init (s' : Buddy.State) (done : pmm.alloc 0 smallHeap.pages = .ok (0x2000, s')) :
    ∃ h', initKmalloc pmm smallHeap = .ok h' ∧ h'.pages = s' := by
  obtain ⟨p, h1, result, -, -, -, pages, -⟩ :=
    create_chunk_spec pmm smallHeap s' [] 0x2000 (blank_rep _ small_heap_blank) done
    (by decide) (by decide) (by simp)
  rw [initKmalloc, result]
  exact ⟨_, rfl, pages⟩

theorem kmalloc_one_page {σ : Type} (A : PageAllocator σ) (h : State σ) (addr : Nat) (s' : σ)
    (done : A.alloc 0 h.pages = .ok (addr, s')) (low : addr < 2 ^ 30) :
    ∃ h', kmalloc A 0x1000 h = .ok (some (p2v addr), h') := by
  have pointer : toPtr (p2v addr) = some (p2v addr) := if_neg (by rw [p2v_low addr low]; simp [kernelVirtualBase])
  have order : logTwo (0x1000 - 1) + 1 - baseShift = 0 := by decide +kernel
  have paged : kmalloc A 0x1000 h = kmallocPages A 0x1000 h := rfl
  rw [paged, kmallocPages]
  simp only [order, done, pointer]
  exact ⟨_, rfl⟩

section Runs

variable {A : PageAllocator σ} {Live : σ → List (Nat × Nat) → Prop} (lawful : A.Lawful Live)

include lawful

theorem reachable_sound (h h' : State σ) (foreign : List (Nat × Nat)) (blank : Blank h) (owner : Live h.pages foreign)
    (start : initKmalloc A h = .ok h') (config : Config σ) (run : ReflTransGen (Step A) ⟨h', [], foreign⟩ config) :
    ∃ pages big, Sound Live config pages big := by
  obtain ⟨p, sound, -⟩ := init_kmalloc_sound lawful h h' foreign blank owner start
  exact run_sound lawful _ config [p] [] sound run

theorem backed_place (config : Config σ) (pages : List HeapPage) (big : List (Nat × Nat))
    (sound : Sound Live config pages big) (ptr size : Nat) (member : (ptr, size) ∈ config.live) :
    4 ∣ ptr ∧ ptr + size ≤ 2 ^ 32 ∧ (isAligned ptr pageSize = true ↔ 0x1000 ≤ size) ∧
      (0x1000 ≤ size → ∃ k rest, Live config.heap.pages ((v2p ptr, k) :: rest) ∧ size ≤ 0x1000 * 2 ^ k) := by
  rw [show isAligned ptr pageSize = true ↔ 0x1000 ∣ ptr from is_aligned_iff ptr 12]
  rcases sound.backed _ member with ⟨small, c, inPages, -, rfl, fits⟩ | ⟨large, addr, k, inBig, rfl, fits⟩
  · have unaligned := chunk_not_aligned pages c inPages
    have bounds := extent_bounds pages _ (chunk_extent pages c inPages)
    obtain ⟨p, inP, inChunks⟩ := List.mem_flatMap.mp inPages
    have four := laid_aligned _ _ _ p.laid (Nat.dvd_add (Nat.dvd_trans (by decide) p.aligned) (by decide)) c inChunks
    simp only [headerSize] at *
    refine ⟨by omega, by omega, ⟨fun aligned => absurd aligned unaligned, fun large => by omega⟩, fun large => by omega⟩
  · have inLive : (addr, k) ∈ pages.map pageBlock ++ (big ++ config.foreign) := by simp [inBig]
    obtain ⟨place, aligned, high⟩ := live_high lawful _ _ addr k sound.owned.owner inLive
    simp only at large fits ⊢
    refine ⟨Nat.dvd_trans (by decide) aligned, by omega, ⟨fun _ => large, fun _ => aligned⟩, fun _ => ?_⟩
    rw [v2p_p2v addr (by simp only [kernelVirtualBase] at place; omega)]
    exact ⟨k, _, lawful.reorder _ _ _ (List.perm_cons_erase inLive) sound.owned.owner, fits⟩

theorem backed_apart (config : Config σ) (pages : List HeapPage) (big : List (Nat × Nat))
    (sound : Sound Live config pages big) (a b : Nat × Nat) (memberA : a ∈ config.live) (memberB : b ∈ config.live)
    (other : a.1 ≠ b.1) (x : Nat) (inA : InAlloc a x) :
    ¬ InAlloc b x := by
  intro inB
  have safe (c : Chunk) (inPages : c ∈ chunks pages) (low : c.addr + headerSize ≤ x)
      (high : x < c.addr + headerSize + c.size) :
      InPages pages x := chunk_in_pages pages c x inPages (by omega) high
  obtain ⟨lowA, highA⟩ := inA
  obtain ⟨lowB, highB⟩ := inB
  rcases sound.backed a memberA with ⟨-, c, inPages, -, placeA, fitsA⟩ | ⟨-, addr, k, inBig, placeA, fitsA⟩ <;>
    rcases sound.backed b memberB with ⟨-, d, inPages', -, placeB, fitsB⟩ | ⟨-, addr', k', inBig', placeB, fitsB⟩
  · have apart :=
      extents_disjoint pages sound.owned.distinct _ _ (chunk_extent pages c inPages) (chunk_extent pages d inPages')
      (fun same => other (by rw [placeA, placeB, (Prod.mk.inj same).1]))
    simp only [Disjoint] at apart
    omega
  · exact block_outside lawful _ pages _ sound.owned addr' k' x (List.mem_append_left _ inBig') (by omega) (by omega)
      (safe c inPages (by omega) (by omega))
  · exact block_outside lawful _ pages _ sound.owned addr k x (List.mem_append_left _ inBig) (by omega) (by omega)
      (safe d inPages' (by omega) (by omega))
  · exact blocks_apart lawful _ _ sound.owned.owner addr addr' k k' x (by simp [inBig]) (by simp [inBig'])
      (by omega) (by omega) (by omega) (by omega) (by omega)

theorem kmalloc_frame (config : Config σ) (pages : List HeapPage) (big : List (Nat × Nat))
    (sound : Sound Live config pages big) (size : Nat) (result : Option Nat) (h' : State σ)
    (done : kmalloc A size config.heap = .ok (result, h')) (alloc : Nat × Nat) (member : alloc ∈ config.live) (x : Nat)
    (inside : InAlloc alloc x) : h'.mem x = config.heap.mem x := by
  obtain ⟨low, high⟩ := inside
  rcases kmalloc_spec lawful config.heap pages _ size sound.owned with ⟨-, null⟩ | ⟨e, -, failed⟩ | ⟨-, pages', c,
    h1, granted, spec⟩ |
    ⟨-, addr, k, h1, granted, -, -, mem, -⟩
  · cases null.symm.trans done
    rfl
  · cases failed.symm.trans done
  · cases granted.symm.trans done
    apply spec.frame
    rcases sound.backed alloc member with ⟨-, c', inPages, used, place, fits⟩ | ⟨-, addr, k, inBig, place, fits⟩
    · exact .inl ⟨c', inPages, used, by omega, by omega⟩
    · exact .inr
        (block_outside lawful _ pages' _ spec.owned addr k x (List.mem_append_left _ inBig) (by omega) (by omega))
  · cases granted.symm.trans done
    exact congrFun mem x

theorem kfree_frame (h h' : State σ) (front back foreign : List (Nat × Nat)) (pages : List HeapPage)
    (big : List (Nat × Nat)) (ptr size : Nat) (sound : Sound Live ⟨h, front ++ (ptr, size) :: back, foreign⟩ pages big)
    (done : kfree A ptr h = .ok h') (alloc : Nat × Nat) (member : alloc ∈ front ++ back) (x : Nat)
    (inside : InAlloc alloc x) : h'.mem x = h.mem x := by
  obtain ⟨h1, pages', big', result, sound', frame⟩ :=
    kfree_live_spec lawful h front back foreign big pages ptr size sound
  cases result.symm.trans done
  obtain ⟨low, high⟩ := inside
  apply frame
  have old : alloc ∈ front ++ (ptr, size) :: back := by
    simp only [List.mem_append, List.mem_cons] at member ⊢
    tauto
  rcases sound.backed alloc old with ⟨small, -⟩ | ⟨-, addr, k, inBig, place, fits⟩
  · rcases sound'.backed alloc member with ⟨-, c, inPages, used, place, fits⟩ | ⟨large, -⟩
    · exact .inl ⟨c, inPages, used, by omega, by omega⟩
    · omega
  · exact .inr
      (block_outside lawful _ pages _ sound.owned addr k x (List.mem_append_left _ inBig) (by omega) (by omega))

theorem kmalloc_pointer (config : Config σ) (pages : List HeapPage) (big : List (Nat × Nat))
    (sound : Sound Live config pages big) (size addr : Nat) (s' : σ) (positive : 1 ≤ size)
    (outside : ¬ (2048 < size ∧ size < 0x1000))
    (available : A.alloc (neededOrder size) config.heap.pages = .ok (addr, s')) :
    ∃ ptr h', kmalloc A size config.heap = .ok (some ptr, h') := by
  rcases kmalloc_spec lawful config.heap pages _ size sound.owned with ⟨refused, -⟩ | ⟨e, failed, -⟩ | ⟨-, -,
    c, h', result, -⟩ |
    ⟨-, start, k, h', result, -⟩
  · exact absurd (refused.resolve_left (by omega)) outside
  · rw [available] at failed
    cases failed
  · exact ⟨_, h', result⟩
  · exact ⟨_, h', result⟩

theorem kmalloc_two (h : State σ) (foreign : List (Nat × Nat)) (pages : List HeapPage)
    (sound : Sound Live ⟨h, [], foreign⟩ pages []) (size size' addr addr' : Nat) (s' s'' : σ)
    (small : 1 ≤ size ∧ size ≤ 2048) (small' : 1 ≤ size' ∧ size' ≤ 2048) (first : A.alloc 0 h.pages = .ok (addr, s'))
    (second : A.alloc 0 s' = .ok (addr', s'')) :
    ∃ p q h1 h2, kmalloc A size h = .ok (some p, h1) ∧ kmalloc A size' h1 = .ok (some q, h2) := by
  have order (n : Nat) (below : n ≤ 2048) : neededOrder n = 0 := if_pos (by omega)
  obtain ⟨p, h1, done⟩ :=
    kmalloc_pointer lawful _ pages [] sound size addr s' small.1 (by omega) (by rw [order size small.2]; exact first)
  obtain ⟨pages1, big1, sound1⟩ := step_sound lawful _ _ pages [] sound (.kmalloc h h1 [] foreign size p done)
  have more : ∃ addr s', A.alloc 0 h1.pages = .ok (addr, s') := by
    rcases kmalloc_takes A size h h1 _ (by omega) done with same | ⟨f, taken⟩
    · exact ⟨addr, s', same ▸ first⟩
    · cases taken.symm.trans first
      exact ⟨addr', s'', second⟩
  obtain ⟨addr1, s1, available⟩ := more
  obtain ⟨q, h2, done'⟩ := kmalloc_pointer lawful _ pages1 big1 sound1 size' addr1 s1 small'.1 (by omega)
    (by rw [order size' small'.2]; exact available)
  exact ⟨p, q, h1, h2, done, done'⟩

-- Heap representation invariant, in every state any run of calls reaches.
theorem heap_representation (h h' : State σ) (foreign : List (Nat × Nat)) (blank : Blank h)
    (owner : Live h.pages foreign) (start : initKmalloc A h = .ok h') (config : Config σ)
    (run : ReflTransGen (Step A) ⟨h', [], foreign⟩ config) :
    (∃ pages, HeapInvariant config.heap pages) ∧
      (∀ ptr size, (ptr, size) ∈ config.live → ∃ h'', kfree A ptr config.heap = .ok h'') ∧
      ∀ size, (∃ result, kmalloc A size config.heap = .ok result) ∨ ∃ k e, A.alloc k config.heap.pages = .error e := by
  obtain ⟨pages, big, sound⟩ := reachable_sound lawful h h' foreign blank owner start config run
  refine ⟨⟨pages, owned_invariant _ pages _ sound.owned⟩, ?_, ?_⟩
  · intro ptr size member
    obtain ⟨front, back, split⟩ := List.append_of_mem member
    obtain ⟨heap, live, foreign'⟩ := config
    simp only at split
    subst split
    obtain ⟨h1, -, -, result, -⟩ := kfree_live_spec lawful heap front back foreign' big pages ptr size sound
    exact ⟨h1, result⟩
  · intro size
    rcases kmalloc_spec lawful config.heap pages _ size sound.owned with ⟨-, null⟩ | ⟨e, failed, -⟩ | ⟨-, pages',
      c, h1, granted, -⟩ |
      ⟨-, addr, k, h1, granted, -⟩
    · exact .inl ⟨_, null⟩
    · exact .inr ⟨_, e, failed⟩
    · exact .inl ⟨_, granted⟩
    · exact .inl ⟨_, granted⟩

omit lawful in
theorem heap_representation_small :
    ∃ h' p q h1 h2 h3, initKmalloc pmm smallHeap = .ok h' ∧ kmalloc pmm 100 h' = .ok (some p, h1) ∧
    kmalloc pmm 60 h1 = .ok (some q, h2) ∧ kfree pmm p h2 = .ok h3 ∧ ∃ pages, HeapInvariant h3 pages := by
  obtain ⟨s1, s2, s3, first, second, third⟩ := Buddy.small_alloc_thrice
  obtain ⟨h', start, rfl⟩ := small_init s1 first
  obtain ⟨r, sound, -⟩ := init_kmalloc_sound small_heap_lawful _ h' [] small_heap_blank small_heap_live start
  obtain ⟨p, q, h1, h2, done, done'⟩ :=
    kmalloc_two small_heap_lawful h' [] [r] sound 100 60 0x3000 0x4000 s2 s3 (by decide) (by decide) second third
  have run : ReflTransGen (Step pmm) ⟨h', [], []⟩ ⟨h2, [(q, 60), (p, 100)], []⟩ :=
    .tail (.single (.kmalloc h' h1 [] [] 100 p done)) (.kmalloc h1 h2 _ [] 60 q done')
  -- The older of the two allocations is freed.
  obtain ⟨-, frees, -⟩ := heap_representation small_heap_lawful _ h' [] small_heap_blank small_heap_live start _ run
  obtain ⟨h3, freed⟩ := frees p 100 (by simp)
  have run' : ReflTransGen (Step pmm) ⟨h', [], []⟩ ⟨h3, [(q, 60)], []⟩ :=
    .tail run (.kfree h2 h3 [(q, 60)] [] [] p 100 freed)
  obtain ⟨inv, -⟩ := heap_representation small_heap_lawful _ h' [] small_heap_blank small_heap_live start _ run'
  exact ⟨h', p, q, h1, h2, h3, start, done, done', freed, inv⟩

-- Heap safety as clients see it.
theorem heap_clients (h h' : State σ) (foreign : List (Nat × Nat)) (blank : Blank h) (owner : Live h.pages foreign)
    (start : initKmalloc A h = .ok h') (config : Config σ) (run : ReflTransGen (Step A) ⟨h', [], foreign⟩ config) :
    (∃ pages, HeapInvariant config.heap pages ∧
      ∀ alloc ∈ config.live, ∀ x, InAlloc alloc x → ¬ Reserved config.heap pages x) ∧
      (∀ ptr size, (ptr, size) ∈ config.live → 4 ∣ ptr ∧ ptr + size ≤ 2 ^ 32 ∧
        (isAligned ptr pageSize = true ↔ 0x1000 ≤ size) ∧
        (0x1000 ≤ size → ∃ k rest, Live config.heap.pages ((v2p ptr, k) :: rest) ∧ size ≤ 0x1000 * 2 ^ k)) ∧
      config.live.Pairwise (fun a b => ∀ x, InAlloc a x → ¬ InAlloc b x) ∧
      (∀ size result h'', kmalloc A size config.heap = .ok (result, h'') →
        ∀ alloc ∈ config.live, ∀ x, InAlloc alloc x → h''.mem x = config.heap.mem x) ∧
      ∀ front back ptr size h'', config.live = front ++ (ptr, size) :: back → kfree A ptr config.heap = .ok h'' →
        ∀ alloc ∈ front ++ back, ∀ x, InAlloc alloc x → h''.mem x = config.heap.mem x := by
  obtain ⟨pages, big, sound⟩ := reachable_sound lawful h h' foreign blank owner start config run
  refine ⟨⟨pages, owned_invariant _ pages _ sound.owned, ?_⟩, backed_place lawful config pages big sound, ?_, ?_, ?_⟩
  · intro alloc member x inside
    exact safe_not_reserved _ pages _ sound.owned x
      (backed_bytes lawful _ pages big _ alloc x sound.owned (sound.backed alloc member) inside.1 inside.2)
  · apply List.Pairwise.imp_of_mem _ (List.pairwise_map.mp sound.distinct)
    intro a b memberA memberB other x inA
    exact backed_apart lawful config pages big sound a b memberA memberB other x inA
  · exact kmalloc_frame lawful config pages big sound
  · intro front back ptr size h'' split done
    obtain ⟨heap, live, foreign'⟩ := config
    simp only at split
    subst split
    exact kfree_frame lawful heap h'' front back foreign' pages big ptr size sound done

omit lawful in
theorem heap_clients_small : ∃ h, ∃ pages, HeapInvariant (σ := Buddy.State) h pages ∧
    ∀ x, InAlloc (p2v 0x3000, 0x1000) x → ¬ Reserved h pages x := by
  obtain ⟨s', s'', first, second⟩ := Buddy.small_alloc_twice
  obtain ⟨h', start, pages⟩ := small_init s' first
  obtain ⟨h'', done⟩ := kmalloc_one_page pmm h' 0x3000 s'' (by rw [pages]; exact second) (by decide)
  obtain ⟨⟨heapPages, inv, free⟩, -⟩ := heap_clients small_heap_lawful _ h' [] small_heap_blank small_heap_live start _
    (.single (.kmalloc h' h'' [] [] 0x1000 (p2v 0x3000) done))
  exact ⟨h'', heapPages, inv, free (p2v 0x3000, 0x1000) (by simp)⟩

end Runs

end X86OS.Heap
