import X86OS.Mm.HeapProperties
import X86OS.Mm.PageLog

set_option autoImplicit false

namespace X86OS.Heap

open Function Dll Mem Relation

variable {σ : Type}

-- Every page but the first has a chunk some client uses.
def Populated (pages : List HeapPage) : Prop := ∀ q ∈ pages.tail, ∃ d ∈ q.chunks, d.status = .used

def blocksWeight (big : List (Nat × Nat)) : Count := (big.map (fun block => count (0x1000 * 2 ^ block.2) 0 0)).sum

@[simp] theorem blocks_weight_cons (block : Nat × Nat) (big : List (Nat × Nat)) :
    blocksWeight (block :: big) = count (0x1000 * 2 ^ block.2) 0 0 + blocksWeight big := by
  simp [blocksWeight]

theorem blocks_weight_erase (block : Nat × Nat) (big : List (Nat × Nat)) (member : block ∈ big) :
    blocksWeight big = count (0x1000 * 2 ^ block.2) 0 0 + blocksWeight (big.erase block) := by
  rw [← blocks_weight_cons]
  exact ((List.perm_cons_erase member).map _).sum_eq

-- The heap holds nothing but what its clients hold: `Sound` and its converse, with the
-- counters against the pages. `base` is what the counters were before the first page.
structure Complete (Live : σ → List (Nat × Nat) → Prop) (config : Config σ) (pages : List HeapPage)
    (big : List (Nat × Nat)) (front : Option Nat) (base : Count) : Prop extends Sound Live config pages big where
  populated : Populated pages
  claimed :
    ∀ c ∈ chunks pages, c.status = .used → ∃ alloc ∈ config.live, alloc.1 = c.addr + headerSize ∧ alloc.2 ≤ c.size
  wanted : ∀ block ∈ big, ∃ alloc ∈ config.live, alloc.1 = p2v block.1
  front : pages.head?.map HeapPage.base = front
  counted : counters config.heap = base + total pages + blocksWeight big
  words : Words config.heap

theorem still_live (before after : List (Nat × Nat)) (freed alloc : Nat × Nat)
    (inLive : alloc ∈ before ++ freed :: after) (other : alloc.1 ≠ freed.1) : alloc ∈ before ++ after := by
  simp only [List.mem_append, List.mem_cons] at inLive ⊢
  rcases inLive with inBefore | rfl | inAfter
  · exact .inl inBefore
  · exact absurd rfl other
  · exact .inr inAfter

section Steps

variable {A : PageAllocator σ} {Live : σ → List (Nat × Nat) → Prop} (lawful : A.Lawful Live)

include lawful

theorem complete_grant (h h' : State σ) (live foreign big : List (Nat × Nat)) (pages pages' : List HeapPage)
    (size : Nat) (c : Chunk) (front : Option Nat) (base : Count)
    (complete : Complete Live ⟨h, live, foreign⟩ pages big front base) (small : size < 0x1000)
    (granted : Granted Live size h pages (big ++ foreign) h' pages' c) (words : Words h') :
    Complete Live ⟨h', (c.addr + headerSize, size) :: live, foreign⟩ pages' big front base := by
  have used := granted.taken.used
  refine ⟨sound_grant lawful h h' live foreign big pages pages' size c complete.toSound small granted, ?_, ?_,
    ?_, ?_, ?_, words⟩
  · intro q member
    rcases granted.others q member with here | old
    · exact ⟨c, here, used⟩
    · exact complete.populated q old
  · intro d member usedD
    rcases (granted.taken.clients d usedD).mp member with rfl | old
    · exact ⟨_, List.mem_cons_self, rfl, granted.large⟩
    · obtain ⟨alloc, inLive, place⟩ := complete.claimed d old usedD
      exact ⟨alloc, List.mem_cons_of_mem _ inLive, place⟩
  · intro block member
    obtain ⟨alloc, inLive, place⟩ := complete.wanted block member
    exact ⟨alloc, List.mem_cons_of_mem _ inLive, place⟩
  · exact granted.first.trans complete.front
  · have exchanged := granted.counted
    rw [complete.counted] at exchanged
    apply add_right_cancel (b := total pages)
    rw [exchanged]
    abel

theorem complete_grant_block (h h' : State σ) (live foreign big : List (Nat × Nat)) (pages : List HeapPage)
    (size addr k : Nat) (front : Option Nat) (base : Count)
    (complete : Complete Live ⟨h, live, foreign⟩ pages big front base) (large : 0x1000 ≤ size)
    (covered : size ≤ 0x1000 * 2 ^ k) (owned : Owned Live h' pages ((addr, k) :: (big ++ foreign)))
    (counted : counters h' = counters h + count (0x1000 * 2 ^ k) 0 0) (words : Words h') :
    Complete Live ⟨h', (p2v addr, size) :: live, foreign⟩ pages ((addr, k) :: big) front base := by
  refine ⟨sound_grant_block lawful h h' live foreign big pages size addr k complete.toSound large covered owned,
    complete.populated, ?_, ?_, complete.front, ?_, words⟩
  · intro d member used
    obtain ⟨alloc, inLive, place⟩ := complete.claimed d member used
    exact ⟨alloc, List.mem_cons_of_mem _ inLive, place⟩
  · intro block member
    rcases List.mem_cons.mp member with rfl | old
    · exact ⟨_, List.mem_cons_self, rfl⟩
    · obtain ⟨alloc, inLive, place⟩ := complete.wanted block old
      exact ⟨alloc, List.mem_cons_of_mem _ inLive, place⟩
  · rw [counted, complete.counted, blocks_weight_cons]
    abel

theorem complete_release (h h' : State σ) (before after foreign big : List (Nat × Nat)) (pages pages' : List HeapPage)
    (ptr size : Nat) (c : Chunk) (front : Option Nat) (base : Count)
    (complete : Complete Live ⟨h, before ++ (ptr, size) :: after, foreign⟩ pages big front base)
    (member : c ∈ chunks pages) (place : ptr = c.addr + headerSize)
    (released : Released Live h pages (big ++ foreign) c h' pages') (words : Words h') :
    Complete Live ⟨h', before ++ after, foreign⟩ pages' big front base := by
  refine ⟨sound_release h h' before after foreign big pages pages' ptr size c complete.toSound place released, ?_, ?_,
    ?_, ?_, ?_, words⟩
  · intro q inTail
    rcases released.others q inTail with here | old
    · exact here
    · exact complete.populated q old
  · intro d memberD usedD
    obtain ⟨old, other⟩ := (released.clients d usedD).mp memberD
    obtain ⟨alloc, inLive, placeD, fits⟩ := complete.claimed d old usedD
    refine ⟨alloc, still_live before after (ptr, size) alloc inLive ?_, placeD, fits⟩
    intro same
    exact other (chunk_unique pages complete.owned.distinct d c old member (by omega))
  · intro block inBig
    obtain ⟨alloc, inLive, placeB⟩ := complete.wanted block inBig
    refine ⟨alloc, still_live before after (ptr, size) alloc inLive ?_, placeB⟩
    intro same
    have aligned := (live_high lawful _ _ block.1 block.2 complete.owned.owner (by simp [inBig])).2.1
    rw [← placeB, same, place] at aligned
    exact chunk_not_aligned pages c member aligned
  · exact released.first.trans complete.front
  · have exchanged := released.counted
    rw [complete.counted] at exchanged
    apply add_right_cancel (b := total pages)
    rw [exchanged]
    abel

theorem complete_release_block (h h' : State σ) (before after foreign big : List (Nat × Nat)) (pages : List HeapPage)
    (ptr size addr k : Nat) (front : Option Nat) (base : Count)
    (complete : Complete Live ⟨h, before ++ (ptr, size) :: after, foreign⟩ pages big front base)
    (inBig : (addr, k) ∈ big) (place : ptr = p2v addr) (owned : Owned Live h' pages (big.erase (addr, k) ++ foreign))
    (counted : counters h' + count (0x1000 * 2 ^ k) 0 0 = counters h) (words : Words h') :
    Complete Live ⟨h', before ++ after, foreign⟩ pages (big.erase (addr, k)) front base := by
  refine ⟨sound_release_block h h' before after foreign big pages ptr size addr k complete.toSound place owned,
    complete.populated, ?_, ?_, complete.front, ?_, words⟩
  · intro d member used
    obtain ⟨alloc, inLive, placeD, fits⟩ := complete.claimed d member used
    refine ⟨alloc, still_live before after (ptr, size) alloc inLive ?_, placeD, fits⟩
    intro same
    have aligned := (live_high lawful _ _ addr k complete.owned.owner (by simp [inBig])).2.1
    simp only at same
    rw [← place, ← same, placeD] at aligned
    exact chunk_not_aligned pages d member aligned
  · intro block stays
    obtain ⟨alloc, inLive, placeB⟩ := complete.wanted block (List.mem_of_mem_erase stays)
    refine ⟨alloc, still_live before after (ptr, size) alloc inLive ?_, placeB⟩
    intro same
    -- Two blocks of the heap at one address would overlap.
    have both : Live h.pages ((addr, k) :: (big.erase (addr, k) ++ (pages.map pageBlock ++ foreign))) := by
      refine lawful.reorder _ _ _ ?_ complete.owned.owner
      refine List.Perm.trans ?_ (List.Perm.append_right _ (List.perm_cons_erase inBig))
      rw [← List.append_assoc, ← List.append_assoc]
      exact List.Perm.append_right _ List.perm_append_comm
    have apart := List.rel_of_pairwise_cons (lawful.apart _ _ both) (List.mem_append_left _ stays)
    have placeA := (live_high lawful _ _ addr k both (by simp)).1
    have placeBlock := (live_high lawful _ _ block.1 block.2 both (by simp [stays])).1
    have positive := Nat.two_pow_pos k
    have positive' := Nat.two_pow_pos block.2
    simp only [Apart] at apart
    omega
  · have weighed := blocks_weight_erase (addr, k) big inBig
    apply add_right_cancel (b := count (0x1000 * 2 ^ k) 0 0)
    rw [counted, complete.counted, weighed]
    abel

theorem complete_kfree (h h' : State σ) (before after foreign big : List (Nat × Nat)) (pages : List HeapPage)
    (ptr size : Nat) (front : Option Nat) (base : Count)
    (complete : Complete Live ⟨h, before ++ (ptr, size) :: after, foreign⟩ pages big front base)
    (done : kfree A ptr h = .ok h') :
    ∃ pages' big', Complete Live ⟨h', before ++ after, foreign⟩ pages' big' front base := by
  have words := kfree_words A ptr h h' complete.words done
  rcases complete.backed (ptr, size) (by simp) with ⟨-, c, inPages, used, place, -⟩ | ⟨-, addr, k, inBig, place, -⟩
  · simp only at place
    obtain ⟨h1, pages', result, released⟩ := kfree_client_spec lawful h pages _ c complete.owned inPages used
    cases (place ▸ result).symm.trans done
    exact ⟨pages', big,
      complete_release lawful h _ before after foreign big pages pages' ptr size c front base complete inPages place
      released words⟩
  · simp only at place
    have same : (big ++ foreign).Perm ((addr, k) :: (big.erase (addr, k) ++ foreign)) :=
      List.Perm.append_right foreign (List.perm_cons_erase inBig)
    obtain ⟨h1, result, owned, -, counted⟩ := kfree_block_spec lawful h pages _ _ addr k complete.owned same
    cases (place ▸ result).symm.trans done
    exact ⟨pages, _,
      complete_release_block lawful h _ before after foreign big pages ptr size addr k front base complete inBig place
      owned counted words⟩

theorem step_complete (config config' : Config σ) (pages : List HeapPage) (big : List (Nat × Nat)) (front : Option Nat)
    (base : Count) (complete : Complete Live config pages big front base) (step : Step A config config') :
    ∃ pages' big', Complete Live config' pages' big' front base := by
  cases step with
  | kmalloc h h' live foreign size ptr done =>
      have words := kmalloc_words A size h h' _ complete.words done
      rcases kmalloc_spec lawful h pages _ size complete.owned with ⟨-, null⟩ | ⟨e, -, failed⟩ | ⟨small, pages', c, h1,
        result, granted⟩ |
        ⟨large, addr, k, h1, result, covered, owned, -, counted⟩
      · cases null.symm.trans done
      · cases failed.symm.trans done
      · cases result.symm.trans done
        exact ⟨pages', big,
          complete_grant lawful h _ live foreign big pages pages' size c front base complete small granted words⟩
      · cases result.symm.trans done
        exact ⟨pages, _,
          complete_grant_block lawful h _ live foreign big pages size addr k front base complete large covered owned
          counted words⟩
  | kmallocNull h h' live foreign size done =>
      rcases kmalloc_spec lawful h pages _ size complete.owned with ⟨-, null⟩ | ⟨e, -, failed⟩ | ⟨-, pages',
        c, h1, result, -⟩ |
        ⟨-, addr, k, h1, result, -⟩
      · cases null.symm.trans done
        exact ⟨pages, big, complete⟩
      · cases failed.symm.trans done
      · cases result.symm.trans done
      · cases result.symm.trans done
  | kfree h h' before after foreign ptr size done =>
      exact complete_kfree lawful h h' before after foreign big pages ptr size front base complete done
  | write h live foreign ptr size x v member low high =>
      have safe := backed_bytes lawful h pages big foreign _ x complete.owned (complete.backed _ member) low high
      exact ⟨pages, big, { complete with
        owned := owned_write h pages _ x v complete.owned (safe_not_meta pages complete.owned.distinct x safe)
        words := words_same h _ rfl complete.words }⟩
  | pageAlloc h s' live foreign order addr done =>
      have live' := lawful.allocated _ _ _ _ _ complete.owned.owner done
      refine ⟨pages, big, { complete with
        owned := owned_pages h pages _ _ s' complete.owned ?_, words := words_same h _ rfl complete.words }⟩
      apply lawful.reorder _ _ _ _ live'
      simp only [← List.append_assoc]
      exact List.perm_middle.symm
  | pageFree h live before after order addr =>
      refine ⟨pages, big, { complete with
        owned := owned_pages h pages _ _ _ complete.owned (lawful.freed _ _ order addr ?_)
        words := words_same h _ rfl complete.words }⟩
      apply lawful.reorder _ _ _ _ complete.owned.owner
      simp only [← List.append_assoc]
      exact List.perm_middle
  | pageWrite h live foreign order addr x v member low high =>
      have outside :=
        block_outside lawful h pages _ complete.owned addr order x (List.mem_append_right _ member) low high
      exact ⟨pages, big, { complete with
        owned := owned_write h pages _ x v complete.owned (fun isMeta => outside (meta_in_pages pages x isMeta))
        words := words_same h _ rfl complete.words }⟩

theorem run_complete (config config' : Config σ) (pages : List HeapPage) (big : List (Nat × Nat)) (front : Option Nat)
    (base : Count) (complete : Complete Live config pages big front base) (run : ReflTransGen (Step A) config config') :
    ∃ pages' big', Complete Live config' pages' big' front base := by
  induction run with
  | refl => exact ⟨pages, big, complete⟩
  | tail _ step ih =>
      obtain ⟨pages', big', complete'⟩ := ih
      exact step_complete lawful _ _ pages' big' front base complete' step

theorem init_complete (h h' : State σ) (foreign : List (Nat × Nat)) (blank : Blank h) (words : Words h)
    (owner : Live h.pages foreign) (start : initKmalloc A h = .ok h') :
    ∃ p, Complete Live ⟨h', [], foreign⟩ [p] [] (some p.base) (counters h) ∧
      p.chunks = [⟨p.base + sizeofChunk, 4044, .free⟩] := by
  obtain ⟨p, sound, only, counted⟩ := init_kmalloc_sound lawful h h' foreign blank owner start
  have unused (c : Chunk) (member : c ∈ chunks [p]) : c.status = .free := by
    obtain rfl : c = _ := by simpa [chunks, only] using member
    rfl
  refine ⟨p, ⟨sound, by simp [Populated], ?_, by simp, rfl, ?_, ?_⟩, only⟩
  · intro c member used
    rw [unused c member] at used
    cases used
  · rw [counted, total_cons, total_nil, add_zero, blocksWeight, List.map_nil, List.sum_nil, add_zero]
  · rw [initKmalloc] at start
    split at start
    · cases start
    · next f g created =>
        cases start
        exact words_same g _ rfl (create_chunk_words A f h g words created)

end Steps

-- A heap of one page with one unused chunk, which is alone in the last bucket.
structure Initial (h : State σ) (p : HeapPage) : Prop where
  invariant : HeapInvariant h [p]
  only : p.chunks = [⟨p.base + sizeofChunk, 4044, .free⟩]
  unused : isUsed h (p.base + sizeofChunk) = false
  last : h.freeBucket 8 = some (p.base + sizeofChunk + headerSize)
  alone :
    links.next h (p.base + sizeofChunk + headerSize) = none ∧ links.prev h (p.base + sizeofChunk + headerSize) = none
  empty : ∀ i, i < 8 → h.freeBucket i = none
  ends : h.first = some p.base ∧ h.last = some p.last

theorem owned_initial {Live : σ → List (Nat × Nat) → Prop} (h : State σ) (p : HeapPage) (rest : List (Nat × Nat))
    (owned : Owned Live h [p] rest) (only : p.chunks = [⟨p.base + sizeofChunk, 4044, .free⟩]) : Initial h p := by
  have member : (⟨p.base + sizeofChunk, 4044, .free⟩ : Chunk) ∈ chunks [p] := by simp [chunks, only]
  have node (i x : Nat) : FreeNode [p] i x ↔ i = 8 ∧ x = p.base + sizeofChunk + headerSize := by
    simp only [FreeNode, chunks, List.flatMap_cons, List.flatMap_nil, List.append_nil, only,
      List.mem_singleton, exists_eq_left, last_bucket, true_and, eq_comm]
  obtain ⟨nodes, dll, head, members⟩ := owned.buckets 8 (by decide)
  have single : nodes = [p.base + sizeofChunk + headerSize] := by
    refine List.perm_singleton.mp ((List.perm_ext_iff_of_nodup dll.1 (List.nodup_singleton _)).mpr ?_)
    intro x
    rw [members x, node, List.mem_singleton]
    simp
  rw [single] at dll head
  have links := is_dll_links _ _ [] [] _ dll
  refine ⟨owned_invariant h [p] rest owned, only, (settled_used h [p] owned.toSettled _ member).2.mpr rfl, head,
    ⟨links.2, links.1⟩, ?_, ?_⟩
  · intro i small
    obtain ⟨nodes', -, head', members'⟩ := owned.buckets i (by simp only [numSizes]; omega)
    rw [head', List.head?_eq_none_iff, List.eq_nil_iff_forall_not_mem]
    intro x inNodes
    have := ((node i x).mp ((members' x).mp inNodes)).1
    omega
  · rw [owned.first, owned.last]
    simp [cells, HeapPage.cells, only]

theorem free_page_single (p : HeapPage) (free : ∀ c ∈ p.chunks, c.status = .free) (spread : p.chunks.IsChain Calm) :
    p.chunks = [⟨p.base + sizeofChunk, 4044, .free⟩] := by
  have laid := p.laid
  cases split : p.chunks with
  | nil =>
      rw [split] at laid
      simp [Laid, sizeofChunk, pageSize] at laid
  | cons c rest =>
      cases rest with
      | nil =>
          obtain ⟨addr, size⟩ := single_places split
          have status := free c (by simp [split])
          rw [← addr, ← size, ← status]
      | cons d rest =>
          rw [split] at spread
          exact absurd ⟨free c (by simp [split]), free d (by simp [split])⟩ (List.isChain_cons_cons.mp spread).1

section Runs

variable {A : PageAllocator σ} {Live : σ → List (Nat × Nat) → Prop}

theorem complete_idle (config : Config σ) (pages : List HeapPage) (big : List (Nat × Nat)) (front : Nat) (base : Count)
    (complete : Complete Live config pages big (some front) base) (idle : config.live = []) :
    ∃ p : HeapPage, pages = [p] ∧ big = [] ∧ p.base = front ∧ p.chunks = [⟨p.base + sizeofChunk, 4044, .free⟩] := by
  have unused (c : Chunk) (member : c ∈ chunks pages) : c.status = .free := by
    cases status : c.status with
    | free => rfl
    | used =>
        obtain ⟨alloc, inLive, -⟩ := complete.claimed c member status
        simp [idle] at inLive
    | hand => exact absurd status (complete.owned.noHand c member)
  have noBig : big = [] := by
    rw [List.eq_nil_iff_forall_not_mem]
    intro block member
    obtain ⟨alloc, inLive, -⟩ := complete.wanted block member
    simp [idle] at inLive
  obtain ⟨p, rest, rfl⟩ := List.exists_cons_of_ne_nil complete.owned.grown
  have noRest : rest = [] := by
    rw [List.eq_nil_iff_forall_not_mem]
    intro q member
    obtain ⟨d, inQ, used⟩ := complete.populated q member
    have free := unused d (List.mem_flatMap.mpr ⟨q, by simp [member], inQ⟩)
    rw [free] at used
    cases used
  subst noRest
  refine ⟨p, rfl, noBig, by simpa using complete.front, ?_⟩
  apply free_page_single p _ (complete.owned.spread p (by simp))
  exact fun c member => unused c (by simp [chunks, member])

theorem tail_of_not_first (h : State σ) (pages : List HeapPage) (p : HeapPage) (first : h.first = (cells pages).head?)
    (member : p ∈ pages) (other : h.first ≠ some p.base) : p ∈ pages.tail := by
  cases pages with
  | nil => cases member
  | cons q pages =>
      rcases List.mem_cons.mp member with rfl | inTail
      · exact absurd (by rw [first]; simp [cells, HeapPage.cells]) other
      · exact inTail

theorem heap_gives_back (lawful : A.Lawful Live) (h h' : State (σ × List PageEvent)) (foreign : List (Nat × Nat))
    (blank : Blank h) (words : Words h) (owner : LoggedLive Live h.pages foreign)
    (start : initKmalloc A.logged h = .ok h') (config : Config (σ × List PageEvent))
    (run : ReflTransGen (Step A.logged) ⟨h', [], foreign⟩ config) :
    (∃ pages, HeapInvariant config.heap pages ∧ ∀ p ∈ pages, config.heap.first ≠ some p.base →
        ∃ alloc ∈ config.live, p.base ≤ alloc.1 ∧ alloc.1 + alloc.2 ≤ p.base + pageSize) ∧
      (config.live = [] → ∃ p, Initial h' p ∧ Initial config.heap p ∧ tallies config.heap = tallies h' ∧
        Disciplined config.heap.pages.2 ∧
          (outstanding config.heap.pages.2).Perm ((v2p p.base, 0) :: config.foreign)) := by
  have logged := logged_lawful A Live lawful
  obtain ⟨p, complete, only⟩ := init_complete logged h h' foreign blank words owner start
  obtain ⟨pages, big, complete'⟩ := run_complete logged _ config [p] [] _ _ complete run
  refine ⟨⟨pages, owned_invariant _ pages _ complete'.owned, ?_⟩, ?_⟩
  · intro q member other
    obtain ⟨c, inQ, used⟩ := complete'.populated q (tail_of_not_first _ pages q complete'.owned.first member other)
    obtain ⟨alloc, inLive, place, fits⟩ := complete'.claimed c (List.mem_flatMap.mpr ⟨q, member, inQ⟩) used
    have bounds := laid_bounds _ _ _ q.laid c inQ
    simp only [sizeofChunk, pageSize, headerSize] at bounds place ⊢
    exact ⟨alloc, inLive, by omega, by omega⟩
  · intro idle
    obtain ⟨q, rfl, rfl, base, onlyQ⟩ := complete_idle config pages big p.base _ complete' idle
    have same : q = p := by
      cases p
      cases q
      simp_all
    subst same
    have held := complete'.owned.owner
    have counted : counters config.heap = counters h' := by rw [complete'.counted, complete.counted]
    refine ⟨q, owned_initial _ q _ complete.owned only, owned_initial _ q _ complete'.owned only,
      counters_inj _ _ complete'.words complete.words counted, held.disciplined, held.held⟩

end Runs

def loggedHeap : State (Buddy.State × List PageEvent) :=
  ⟨fun _ => 0, (smallHeap.pages, []), fun _ => none, none, none, 0, 0, 0⟩

theorem logged_heap_blank : Blank loggedHeap := ⟨fun _ => rfl, rfl, rfl⟩

theorem logged_heap_live :
    LoggedLive (PmmLive
      (Buddy.Managed Buddy.smallMap (Buddy.initBuddy Buddy.smallMap (fun _ => Buddy.zeroPage) Buddy.smallBump).2))
      loggedHeap.pages [] :=
  ⟨small_heap_live, trivial, List.Perm.nil⟩

theorem logged_heap_init (s' : Buddy.State) (done : pmm.alloc 0 smallHeap.pages = .ok (0x2000, s')) :
    ∃ h', initKmalloc pmm.logged loggedHeap = .ok h' ∧ h'.pages = (s', [.taken 0x2000 0]) := by
  have taken : pmm.logged.alloc 0 loggedHeap.pages = .ok (0x2000, s', [.taken 0x2000 0]) :=
    logged_alloc pmm 0 0x2000 smallHeap.pages s' [] done
  obtain ⟨p, h1, result, -, -, -, pages, -⟩ :=
    create_chunk_spec pmm.logged loggedHeap _ [] 0x2000 (blank_rep _ logged_heap_blank) taken (by decide)
      (by decide) (by simp)
  rw [initKmalloc, result]
  exact ⟨_, rfl, pages⟩

theorem halves_two_pages (Live : σ → List (Nat × Nat) → Prop) (h : State σ) (pages : List HeapPage)
    (big foreign : List (Nat × Nat)) (p q : Nat) (sound : Sound Live ⟨h, [(q, 2048), (p, 2048)], foreign⟩ pages big) :
    2 ≤ pages.length := by
  have other : q ≠ p := by simpa using sound.distinct
  have chunk (ptr : Nat) (inLive : (ptr, 2048) ∈ [(q, 2048), (p, 2048)]) :
      ∃ c ∈ chunks pages, ptr = c.addr + headerSize ∧ 2048 ≤ c.size := by
    rcases sound.backed (ptr, 2048) inLive with ⟨-, c, member, -, place, fits⟩ | ⟨large, -⟩
    · exact ⟨c, member, place, fits⟩
    · simp at large
  obtain ⟨c, inC, placeC, largeC⟩ := chunk p (by simp)
  obtain ⟨d, inD, placeD, largeD⟩ := chunk q (by simp)
  cases pages with
  | nil => simp [chunks] at inC
  | cons r rest =>
      cases rest with
      | cons r' rest => simp
      | nil =>
          have apart := extents_disjoint [r] (by simp) _ _ (chunk_extent [r] c inC) (chunk_extent [r] d inD)
            (fun same => other (by rw [placeC, placeD, show c.addr = d.addr from congrArg Prod.fst same]))
          simp only [chunks, List.flatMap_cons, List.flatMap_nil, List.append_nil] at inC inD
          have boundC := laid_bounds _ _ _ r.laid c inC
          have boundD := laid_bounds _ _ _ r.laid d inD
          simp only [Disjoint, sizeofChunk, headerSize, pageSize] at apart boundC boundD
          omega

-- Half a page is asked for twice, which adds a page, and both are freed, the older one first.
theorem halves_run :
    ∃ h' p q h1 h2 h3 h4, initKmalloc pmm.logged loggedHeap = .ok h' ∧ kmalloc pmm.logged 2048 h' = .ok (some p, h1) ∧
    kmalloc pmm.logged 2048 h1 = .ok (some q, h2) ∧ kfree pmm.logged p h2 = .ok h3 ∧ kfree pmm.logged q h3 = .ok h4 ∧
    2 ≤ (outstanding h2.pages.2).length := by
  obtain ⟨s1, s2, s3, first, second, third⟩ := Buddy.small_alloc_thrice
  obtain ⟨h', start, pages⟩ := logged_heap_init s1 first
  have lawful := logged_lawful pmm _ small_heap_lawful
  obtain ⟨r, sound, -⟩ := init_kmalloc_sound lawful _ h' [] logged_heap_blank logged_heap_live start
  have alloc1 : pmm.logged.alloc 0 h'.pages = .ok (0x3000, s2, [.taken 0x3000 0, .taken 0x2000 0]) := by
    rw [pages]
    exact logged_alloc pmm 0 0x3000 s1 s2 _ second
  obtain ⟨p, q, h1, h2, done, done'⟩ :=
    kmalloc_two lawful h' [] [r] sound 2048 2048 0x3000 0x4000 _ _ (by decide) (by decide) alloc1
    (logged_alloc pmm 0 0x4000 s2 s3 _ third)
  obtain ⟨pages1, big1, sound1⟩ := step_sound lawful _ _ [r] [] sound (.kmalloc h' h1 [] [] 2048 p done)
  obtain ⟨pages2, big2, sound2⟩ := step_sound lawful _ _ pages1 big1 sound1 (.kmalloc h1 h2 _ [] 2048 q done')
  obtain ⟨h3, pages3, big3, freed, sound3, -⟩ := kfree_live_spec lawful h2 [(q, 2048)] [] [] big2 pages2 p 2048 sound2
  obtain ⟨h4, -, -, freed', -⟩ := kfree_live_spec lawful h3 [] [] [] big3 pages3 q 2048 sound3
  refine ⟨h', p, q, h1, h2, h3, h4, start, done, done', freed, freed', ?_⟩
  have two := halves_two_pages _ h2 pages2 big2 [] p q sound2
  rw [sound2.owned.owner.held.length_eq, List.length_append, List.length_map]
  omega

theorem heap_gives_back_small : ∃ h' p q h1 h2 h3 h4 r, initKmalloc pmm.logged loggedHeap = .ok h' ∧
    kmalloc pmm.logged 2048 h' = .ok (some p, h1) ∧ kmalloc pmm.logged 2048 h1 = .ok (some q, h2) ∧
    kfree pmm.logged p h2 = .ok h3 ∧ kfree pmm.logged q h3 = .ok h4 ∧ 2 ≤ (outstanding h2.pages.2).length ∧
    Initial h' r ∧ Initial h4 r ∧ (outstanding h4.pages.2).Perm [(v2p r.base, 0)] := by
  obtain ⟨h', p, q, h1, h2, h3, h4, start, done, done', freed, freed', two⟩ := halves_run
  have run : ReflTransGen (Step pmm.logged) ⟨h', [], []⟩ ⟨h4, [], []⟩ :=
    .tail (.tail (.tail (.single (.kmalloc h' h1 [] [] 2048 p done)) (.kmalloc h1 h2 _ [] 2048 q done'))
      (.kfree h2 h3 [(q, 2048)] [] [] p 2048 freed)) (.kfree h3 h4 [] [] [] q 2048 freed')
  obtain ⟨-, idle⟩ :=
    heap_gives_back small_heap_lawful loggedHeap h' [] logged_heap_blank ⟨by decide, by decide, by decide⟩
    logged_heap_live start _ run
  obtain ⟨r, initial, initial', -, -, held⟩ := idle rfl
  exact ⟨h', p, q, h1, h2, h3, h4, r, start, done, done', freed, freed', two, initial, initial', held⟩

end X86OS.Heap
