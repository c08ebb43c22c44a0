import X86OS.Mm.BuddyAvailability
import X86OS.Mm.HeapProperties

set_option autoImplicit false

namespace X86OS.Heap

open Function Dll Mem Relation

variable {σ : Type}

-- The bytes behind a pointer, as `kfree` reads them off the pointer.
def capacity (A : PageAllocator σ) (h : State σ) (ptr : Nat) : Nat :=
  if isAligned ptr pageSize then 0x1000 * 2 ^ A.orderAddr h.pages (v2p ptr) else getChunkSize h (ptr - headerSize)

def InBlock (block : Nat × Nat) (x : Nat) : Prop := p2v block.1 ≤ x ∧ x < p2v block.1 + 0x1000 * 2 ^ block.2

-- A request answered: the pointer has the bytes asked for, from pages exactly when they
-- are a page or more, and they are no one else's.
structure Served (A : PageAllocator σ) (before : Config σ) (size ptr : Nat) (h' : State σ) : Prop where
  usable : size ≤ capacity A h' ptr
  kind : isAligned ptr pageSize = true ↔ 0x1000 ≤ size
  high : kernelVirtualBase ≤ ptr ∧ ptr + size ≤ 2 ^ 32
  unreserved : ∃ pages, HeapInvariant h' pages ∧ ∀ x, InAlloc (ptr, size) x → ¬ Reserved h' pages x
  apart : ∀ alloc ∈ before.live, ∀ x, InAlloc (ptr, size) x → ¬ InAlloc alloc x
  foreign : ∀ block ∈ before.foreign, ∀ x, InAlloc (ptr, size) x → ¬ InBlock block x

theorem kmalloc_band (A : PageAllocator σ) (size : Nat) (h : State σ) (low : 2048 < size) (high : size < 0x1000) :
    kmalloc A size h = .ok (none, h) := by
  have least : minSize ≤ size := by
    simp only [minSize]
    omega
  rw [kmalloc, if_neg (by omega)]
  simp only [if_neg (Nat.not_lt.mpr least)]
  rw [if_neg (by omega), kmallocChunk, if_pos ((alloc_order_large size least high).mpr low)]

section Service

variable {A : PageAllocator σ} {Live : σ → List (Nat × Nat) → Prop} (lawful : A.Lawful Live)

include lawful

theorem backed_usable (config : Config σ) (pages : List HeapPage) (big : List (Nat × Nat))
    (sound : Sound Live config pages big) (ptr size : Nat) (member : (ptr, size) ∈ config.live) :
    size ≤ capacity A config.heap ptr ∧ kernelVirtualBase ≤ ptr := by
  have kind := (backed_place lawful config pages big sound ptr size member).2.2.1
  rcases sound.backed _ member with ⟨small, c, inPages, -, rfl, fits⟩ | ⟨large, addr, k, inBig, rfl, fits⟩
  · simp only at small fits kind ⊢
    rw [capacity, if_neg (fun aligned => absurd (kind.mp aligned) (by omega)), Nat.add_sub_cancel,
      (chunk_sizes _ _ sound.owned.toRep c inPages).1]
    obtain ⟨p, inP, inChunks⟩ := List.mem_flatMap.mp inPages
    have bounds := laid_bounds _ _ _ p.laid c inChunks
    have high := p.high
    exact ⟨fits, by omega⟩
  · have inLive : (addr, k) ∈ pages.map pageBlock ++ (big ++ config.foreign) := by simp [inBig]
    have place := (live_high lawful _ _ addr k sound.owned.owner inLive).1
    simp only at large fits kind ⊢
    rw [capacity, if_pos (kind.mpr large),
      v2p_p2v addr (by have := (lawful.inRam _ _ sound.owned.owner _ inLive).2; simp only at this; omega),
      lawful.orderKept _ _ k addr sound.owned.owner inLive]
    exact ⟨fits, by omega⟩

theorem backed_foreign (config : Config σ) (pages : List HeapPage) (big : List (Nat × Nat))
    (sound : Sound Live config pages big) (alloc : Nat × Nat) (member : alloc ∈ config.live) (block : Nat × Nat)
    (held : block ∈ config.foreign) (x : Nat) (inside : InAlloc alloc x) : ¬ InBlock block x := by
  rintro ⟨lowB, highB⟩
  obtain ⟨low, high⟩ := inside
  rcases sound.backed _ member with ⟨-, c, inPages, -, place, fits⟩ | ⟨-, addr, k, inBig, place, fits⟩
  · exact block_outside lawful _ pages _ sound.owned block.1 block.2 x (List.mem_append_right _ held) lowB highB
      (chunk_in_pages pages c x inPages (by omega) (by omega))
  · have apart :=
      (List.pairwise_append.mp (List.pairwise_append.mp (lawful.apart _ _ sound.owned.owner)).2.1).2.2 _ inBig _ held
    have placeA := (live_high lawful _ _ addr k sound.owned.owner (by simp [inBig])).1
    have placeB := (live_high lawful _ _ block.1 block.2 sound.owned.owner (by simp [held])).1
    simp only [Apart] at apart
    omega

theorem sound_served (before : Config σ) (h' : State σ) (pages : List HeapPage) (big : List (Nat × Nat))
    (size ptr : Nat) (sound : Sound Live ⟨h', (ptr, size) :: before.live, before.foreign⟩ pages big) :
    Served A before size ptr h' := by
  have here : (ptr, size) ∈ (ptr, size) :: before.live := List.mem_cons_self
  obtain ⟨-, fits, kind, -⟩ := backed_place lawful _ pages big sound ptr size here
  obtain ⟨usable, high⟩ := backed_usable lawful _ pages big sound ptr size here
  have fresh := (List.nodup_cons.mp sound.distinct).1
  refine ⟨usable, kind, ⟨high, fits⟩, ⟨pages, owned_invariant _ pages _ sound.owned, ?_⟩, ?_, ?_⟩
  · intro x inside
    exact safe_not_reserved _ pages _ sound.owned x
      (backed_bytes lawful _ pages big _ _ x sound.owned (sound.backed _ here) inside.1 inside.2)
  · intro alloc member x inside
    refine backed_apart lawful _ pages big sound _ alloc here (List.mem_cons_of_mem _ member) ?_ x inside
    intro same
    exact fresh (List.mem_map.mpr ⟨alloc, member, same.symm⟩)
  · exact fun block held x inside => backed_foreign lawful _ pages big sound _ here block held x inside

theorem kmalloc_answered (config : Config σ) (pages : List HeapPage) (big : List (Nat × Nat))
    (sound : Sound Live config pages big) (size addr : Nat) (s' : σ) (positive : 1 ≤ size)
    (outside : ¬ (2048 < size ∧ size < 0x1000))
    (available : A.alloc (neededOrder size) config.heap.pages = .ok (addr, s')) :
    ∃ ptr h', kmalloc A size config.heap = .ok (some ptr, h') ∧ Served A config size ptr h' := by
  obtain ⟨ptr, h', result⟩ := kmalloc_pointer lawful config pages big sound size addr s' positive outside available
  obtain ⟨pages', big', sound'⟩ :=
    step_sound lawful config _ pages big sound (.kmalloc config.heap h' config.live config.foreign size ptr result)
  exact ⟨ptr, h', result, sound_served lawful config h' pages' big' size ptr sound'⟩

end Service

-- The page allocator is the buddy allocator, from any state in which it keeps its contract.
theorem kmalloc_serves (Live : Buddy.State → List (Nat × Nat) → Prop) (lawful : pmm.Lawful Live)
    (h h' : State Buddy.State) (foreign : List (Nat × Nat)) (blank : Blank h) (owner : Live h.pages foreign)
    (start : initKmalloc pmm h = .ok h') (config : Config Buddy.State)
    (run : ReflTransGen (Step pmm) ⟨h', [], foreign⟩ config) (size : Nat) (positive : 1 ≤ size)
    (available : ∃ k, neededOrder size ≤ k ∧ k ≤ Buddy.maxBuddyOrder ∧ config.heap.pages.freeArea k ≠ none) :
    (∃ ptr h'', kmalloc pmm size config.heap = .ok (some ptr, h'') ∧ Served pmm config size ptr h'') ↔
      ¬ (2048 < size ∧ size < 0x1000) := by
  constructor
  · rintro ⟨ptr, h'', result, -⟩ ⟨low, high⟩
    rw [kmalloc_band pmm size config.heap low high] at result
    cases result
  · intro outside
    obtain ⟨k, low, small, free⟩ := available
    obtain ⟨addr, s', done⟩ := Buddy.buddy_alloc_served config.heap.pages (neededOrder size) k low small free
    obtain ⟨pages, big, sound⟩ := reachable_sound lawful h h' foreign blank owner start config run
    exact kmalloc_answered lawful config pages big sound size addr s' positive outside done

theorem small_second_free : ∃ s', pmm.alloc 0 smallHeap.pages = .ok (0x2000, s') ∧ s'.freeArea 0 ≠ none := by
  obtain ⟨s', s'', first, second⟩ := Buddy.small_alloc_twice
  refine ⟨s', first, ?_⟩
  have found : (pmm.alloc 0 smallHeap.pages).toOption.map (fun result => (result.2.freeArea 0).isSome) = some true := by
    decide +kernel
  rw [show pmm.alloc 0 smallHeap.pages = .ok (0x2000, s') from first] at found
  intro empty
  simp [Except.toOption, empty] at found

theorem kmalloc_serves_small : ∃ h', initKmalloc pmm smallHeap = .ok h' ∧
    ∃ ptr h'', kmalloc pmm 100 h' = .ok (some ptr, h'') ∧ 100 ≤ capacity pmm h'' ptr := by
  obtain ⟨s', done, free⟩ := small_second_free
  obtain ⟨h', start, pages⟩ := small_init s' done
  obtain ⟨ptr, h'', result, served⟩ :=
    (kmalloc_serves _ small_heap_lawful _ h' [] small_heap_blank small_heap_live start _ .refl 100
    (by decide) ⟨0, by decide, by decide, by simpa only [pages] using free⟩).mpr (by decide)
  exact ⟨h', start, ptr, h'', result, served.usable⟩

-- 3000 bytes are more than the largest bucket takes and less than a page.
theorem kmalloc_refuses : ∃ h', initKmalloc pmm smallHeap = .ok h' ∧
    (∃ k, neededOrder 3000 ≤ k ∧ k ≤ Buddy.maxBuddyOrder ∧ h'.pages.freeArea k ≠ none) ∧
      kmalloc pmm 3000 h' = .ok (none, h') := by
  obtain ⟨s', done, free⟩ := small_second_free
  obtain ⟨h', start, pages⟩ := small_init s' done
  exact ⟨h', start, ⟨0, by decide, by decide, by simpa only [pages] using free⟩,
    kmalloc_band pmm 3000 h' (by decide) (by decide)⟩

end X86OS.Heap
