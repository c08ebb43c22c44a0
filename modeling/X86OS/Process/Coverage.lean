import X86OS.Process.Blank

set_option autoImplicit false

namespace X86OS.Process

open Function Mem Paging

variable {σ : Type}

section Mapped

variable {A : PageAllocator σ} {Live : σ → List (Nat × Nat) → Prop} (lawful : A.Lawful Live) {setting : Setting Live}
  {live foreign big : List (Nat × Nat)} {dir : Nat} {taken : List Nat} {image : Nat → Option Mapping}
  {pages : List Heap.HeapPage} {h : Heap.State σ}

include lawful

theorem loaded_allows (loading : Loading setting live foreign dir taken image pages big h) (elf n i page : Nat)
    (loaded : Loaded setting elf n image) (before : i < n) (covers : Covers setting.mem elf i page)
    (absent : isPresent (entry setting.mem setting.kpd (page / 1024)) = false) :
    UserReaches h.mem (p2v dir) page ∧ ∃ i' < n, Covers setting.mem elf i' page ∧
      writable h.mem (p2v dir) page = (segmentFlags (segmentAt setting.mem elf i')).testBit 1 := by
  obtain ⟨i', within, covers', last⟩ := exists_last (fun k => Covers setting.mem elf k page) n i before covers
  obtain ⟨load, q, inside, place⟩ := covers'
  have small : ¬ setting.Large page := fun large => absurd (large.1.symm.trans absent) (by decide)
  rw [place] at small last
  obtain ⟨m, found, flag, -⟩ := loaded.shown i' q within load inside small last
  rw [← place] at found
  obtain ⟨user, rw'⟩ := loading_allows lawful loading page m found absent
  obtain ⟨-, mapped, -⟩ := loading.mapped page m found
  exact ⟨⟨by rw [mapped]; rfl, user⟩, i', within, ⟨load, q, inside, place⟩, by rw [rw', flag]⟩

end Mapped

-- A directory with nothing below the kernel and, above, nothing for user mode.
structure ClosedSpace (Live : σ → List (Nat × Nat) → Prop) (mem : Mem) (kpd elf : Nat) (Reserved : Nat → Prop) : Prop
    extends KernelSpace Live mem kpd elf Reserved where
  empty : ∀ k, k < 768 → isPresent (entry mem kpd k) = false
  closed : ∀ k, k < 1024 → isPresent (entry mem kpd k) = true → entry mem kpd k &&& pageUser = 0

-- Every byte of every segment is on a page that user mode reaches.
def SegmentsMapped (mem mem' : Mem) (elf pd : Nat) : Prop :=
  ∀ i j, Loads mem elf i → j < (segmentAt mem elf i).pMemsz →
    UserReaches mem' pd (((segmentAt mem elf i).pVaddr + j) / 0x1000)

-- The stack pointer is the end of a page, and user mode may write the four bytes below it.
def StackMapped (mem' : Mem) (pd userEsp : Nat) : Prop :=
  0x1000 ∣ userEsp ∧
    ∀ x, userEsp ≤ x + 4 → x < userEsp → UserReaches mem' pd (x / 0x1000) ∧ writable mem' pd (x / 0x1000) = true

-- The page of each segment's last byte is among those loaded, and the segments end at a page
-- boundary in a slot that the kernel does not use.
structure PagesSuffice (mem : Mem) (elf kpd : Nat) : Prop where
  last : ∀ i, Loads mem elf i → 0 < (segmentAt mem elf i).pMemsz → ∃ i' < ePhnum mem elf,
    Covers mem elf i' (((segmentAt mem elf i).pVaddr + ((segmentAt mem elf i).pMemsz - 1)) / 0x1000)
  aligned : 0x1000 ∣ stackBase mem elf
  free : isPresent (entry mem kpd (stackBase mem elf / 0x1000 / 1024)) = false

section Process

variable {A : PageAllocator σ} {Live : σ → List (Nat × Nat) → Prop} (lawful : A.Lawful Live) {sym : Symbols} {elf : Nat}
  {Reserved : Nat → Prop} {live foreign big : List (Nat × Nat)} {pages : List Heap.HeapPage} {h : Heap.State σ}
  {dir : Nat} {s' : σ} {base : Nat} {h2 : Heap.State σ} (sound : Heap.Sound Live ⟨h, live, foreign⟩ pages big)
  (space : ClosedSpace Live h.mem sym.kernelPageDirectory elf Reserved) (magic : hasMagic h.mem elf = true)
  (low : LowSegments h.mem elf) (alloc : A.alloc 0 h.pages = .ok (dir, s'))
  (done : loadElf A (p2v dir) elf { h with
    mem := kmemcpy (p2v dir) sym.kernelPageDirectory 0x1000 h.mem, pages := s' } = .ok (base, h2))

include space low in
theorem low_absent (i page : Nat) (before : i < ePhnum h.mem elf) (covers : Covers h.mem elf i page) :
    isPresent (entry h.mem sym.kernelPageDirectory (page / 1024)) = false := by
  have below := low_covers low ⟨before, covers.1⟩ page covers
  exact space.empty _ (by omega)

include lawful sound space magic low alloc done

theorem segments_mapped (last : ∀ i, Loads h.mem elf i → 0 < (segmentAt h.mem elf i).pMemsz → ∃ i' < ePhnum h.mem elf,
    Covers h.mem elf i' (((segmentAt h.mem elf i).pVaddr + ((segmentAt h.mem elf i).pMemsz - 1)) / 0x1000)) :
    SegmentsMapped h.mem h2.mem elf (p2v dir) := by
  have start := loading_start lawful space.toKernelSpace.setting sound rfl dir s' alloc
  obtain ⟨-, taken, image, loading, -, loaded⟩ :=
    load_elf_loading lawful start elf (space_headers_safe space.toKernelSpace)
    (fun i page before covers => ⟨page, .inl ⟨i, before, covers⟩, rfl⟩) base h2 done
  have all : segmentCount h.mem elf = ePhnum h.mem elf := if_pos magic
  have reaches (i page : Nat) (before : i < ePhnum h.mem elf) (covers : Covers h.mem elf i page) :
      UserReaches h2.mem (p2v dir) page :=
    (loaded_allows lawful loading elf _ i page loaded (by rw [← all] at before; exact before) covers
      (low_absent space low i page before covers)).1
  intro i j loads inside
  rcases low_byte_covered low loads j inside with covers | end'
  · exact reaches i _ loads.1 covers
  · obtain ⟨i', before, covers⟩ := last i loads (by omega)
    rw [end']
    exact reaches i' _ before covers

theorem segments_covered (zeroed : Zeroed A h.mem (requests h.mem elf) h.pages)
    (mapped : SegmentsMapped h.mem h2.mem elf (p2v dir)) (i : Nat) (loads : Loads h.mem elf i)
    (some : 0 < (segmentAt h.mem elf i).pMemsz) : ∃ i' < ePhnum h.mem elf,
      Covers h.mem elf i' (((segmentAt h.mem elf i).pVaddr + ((segmentAt h.mem elf i).pMemsz - 1)) / 0x1000) := by
  by_contra uncovered
  have start : Loading space.toKernelSpace.setting live foreign dir [dir] (fun _ => none) pages big
      { h with mem := kmemcpy (p2v dir) sym.kernelPageDirectory 0x1000 h.mem, pages := s' } :=
    loading_start lawful space.toKernelSpace.setting sound rfl dir s' alloc
  have copy :
      (∀ x, ¬ InPage (p2v dir) x → kmemcpy (p2v dir) sym.kernelPageDirectory 0x1000 h.mem x = h.mem x) ∧ ∀ k, k < 1024 →
      entry (kmemcpy (p2v dir) sym.kernelPageDirectory 0x1000 h.mem) (p2v dir) k =
        entry h.mem sym.kernelPageDirectory k :=
    directory_copied lawful space.toKernelSpace.setting sound dir s' alloc
  generalize kmemcpy (p2v dir) sym.kernelPageDirectory 0x1000 h.mem = mem1 at done start copy
  obtain ⟨same, copied⟩ := copy
  have all : segmentCount h.mem elf = ePhnum h.mem elf := if_pos magic
  have bound := low i loads
  generalize page : ((segmentAt h.mem elf i).pVaddr + ((segmentAt h.mem elf i).pMemsz - 1)) / 0x1000 = last at uncovered
  have below : last < 0xC0000 := by omega
  have unmapped : translate mem1 (p2v dir) last = none := by
    apply translate_absent
    rw [copied _ (by omega)]
    exact space.empty _ (by omega)
  have blank : Zeroed A mem1 (2 * pagesFrom h.mem elf (ePhnum h.mem elf) 0) s' := by
    rw [requests, all] at zeroed
    have used : ∀ f ∈ [dir], (f, 0) ∈ pages.map Heap.pageBlock ++ (big ++ (pageBlocks [dir] ++ foreign)) := by
      simp [pageBlocks]
    exact zeroed_write lawful h.mem _ _ _ s' start.sound.owned.owner used
      (fun x outside => same x (outside dir List.mem_cons_self))
        (zeroed_mono A _ _ _ _ (by omega) (zeroed dir s' alloc).2)
  have still := load_elf_unmapped lawful start elf last (space_headers_safe space.toKernelSpace) magic
    (fun k page before covers => ⟨page, .inl ⟨k, all ▸ before, covers⟩, rfl⟩)
    (fun k page before covers => low_absent space low k page before covers) base h2 done (by omega)
    (fun k before covers => uncovered ⟨k, before, covers⟩) unmapped blank
  have reaches := (mapped i _ loads (Nat.sub_lt some Nat.one_pos)).1
  rw [page, still] at reaches
  cases reaches

omit alloc done magic in
theorem stack_mapped_iff (new : NewThread) (h' : Heap.State σ) (built : buildProcess A sym elf h = .ok (new, h')) :
    StackMapped h'.mem new.pd (Word.add (stackBase h.mem elf) 0x1000) ↔ 0x1000 ∣ stackBase h.mem elf ∧
      isPresent (entry h.mem sym.kernelPageDirectory (stackBase h.mem elf / 0x1000 / 1024)) = false := by
  obtain ⟨dir, kernelStack, taken, segments, image, pages', process⟩ :=
    build_process_built lawful space.toKernelSpace sound rfl built
  have bound := low_stack low
  rw [StackMapped, Word.add_exact _ _ (by omega), process.pd]
  constructor
  · rintro ⟨aligned, mapped⟩
    refine ⟨by omega, ?_⟩
    by_contra present
    rw [Bool.not_eq_false] at present
    obtain ⟨⟨-, user⟩, -⟩ := mapped (stackBase h.mem elf + 0xFFF) (by omega) (by omega)
    rw [show (stackBase h.mem elf + 0xFFF) / 0x1000 = stackBase h.mem elf / 0x1000 by omega,
      userAccessible, allows] at user
    rcases process.loading.slots (stackBase h.mem elf / 0x1000 / 1024) (by omega) with same | ⟨-, absent, -⟩
    · simp only [same] at user
      change (entry h.mem sym.kernelPageDirectory _ &&& pageUser != 0 && _) = true at user
      rw [space.closed _ (by omega) present] at user
      cases user
    · exact absurd (present.symm.trans absent) (by decide)
  · rintro ⟨aligned, absent⟩
    refine ⟨by omega, ?_⟩
    intro x above below
    rw [show x / 0x1000 = stackBase h.mem elf / 0x1000 by omega]
    rcases process.stackPage with ⟨large, -⟩ | ⟨-, m, updated, flag, -⟩
    · exact absurd (large.1.symm.trans absent) (by decide)
    · have shown : image (stackBase h.mem elf / 0x1000) = some m := by
        rw [updated]
        exact update_self _ _ _
      obtain ⟨user, rw'⟩ := loading_allows lawful process.loading _ m shown absent
      obtain ⟨-, mapped, -⟩ := process.loading.mapped _ m shown
      refine ⟨⟨by rw [mapped]; rfl, user⟩, ?_⟩
      rw [rw', flag]
      decide

end Process

-- Loading maps every byte of every segment and the stack below its pointer when the pages it
-- counts suffice, and when the frames are blank only then.
theorem segment_pages_mapped {A : PageAllocator σ} {Live : σ → List (Nat × Nat) → Prop} (lawful : A.Lawful Live)
    (sym : Symbols) (elf thread : Nat) (Reserved : Nat → Prop) (live foreign big : List (Nat × Nat))
    (pages : List Heap.HeapPage) (k k' : Kernel σ) (dir base : Nat) (s' : σ) (h2 : Heap.State σ)
    (sound : Heap.Sound Live ⟨k.heap, live, foreign⟩ pages big)
    (space : ClosedSpace Live k.heap.mem sym.kernelPageDirectory elf Reserved) (magic : hasMagic k.heap.mem elf = true)
    (low : LowSegments k.heap.mem elf) (alloc : A.alloc 0 k.heap.pages = .ok (dir, s'))
    (loadDone : loadElf A (p2v dir) elf
      { k.heap with mem := kmemcpy (p2v dir) sym.kernelPageDirectory 0x1000 k.heap.mem, pages := s' } = .ok (base, h2))
    (done : createProcess A sym elf k = .ok (thread, k')) :
    (PagesSuffice k.heap.mem elf sym.kernelPageDirectory →
      SegmentsMapped k.heap.mem h2.mem elf (p2v dir) ∧
        StackMapped k'.heap.mem (k'.sched.thread thread).pd (Word.add base 0x1000)) ∧
    (Zeroed A k.heap.mem (requests k.heap.mem elf) k.heap.pages →
      SegmentsMapped k.heap.mem h2.mem elf (p2v dir) ∧
        StackMapped k'.heap.mem (k'.sched.thread thread).pd (Word.add base 0x1000) →
      PagesSuffice k.heap.mem elf sym.kernelPageDirectory) := by
  obtain ⟨new, result, -, -, pd, -⟩ := create_process_spec A sym elf thread k k' done
  have start := loading_start lawful space.toKernelSpace.setting sound rfl dir s' alloc
  have last : base = stackBase k.heap.mem elf :=
    (load_elf_loading lawful start elf (space_headers_safe space.toKernelSpace)
    (fun i page before covers => ⟨page, .inl ⟨i, before, covers⟩, rfl⟩) base h2 loadDone).1
  have stack := stack_mapped_iff lawful sound space low new k'.heap result
  rw [← pd, ← last] at stack
  constructor
  · intro suffice
    have segments := segments_mapped lawful sound space magic low alloc loadDone suffice.last
    exact ⟨segments, stack.mpr (last ▸ ⟨suffice.aligned, suffice.free⟩)⟩
  · rintro zeroed ⟨segments, stackMapped⟩
    obtain ⟨aligned, free⟩ := stack.mp stackMapped
    rw [last] at aligned free
    exact ⟨segments_covered lawful sound space magic low alloc loadDone zeroed segments, aligned, free⟩

-- Images of one segment on the same machine: a plain one, one that crosses a page boundary
-- and one with all three permissions.
def samples : List Phdr :=
  [⟨ptLoad, 0, 0x8048000, 0x20, 0x40, pfR ||| pfW⟩, ⟨ptLoad, 0xFF0, 0x8048FF0, 0, 0x40, pfR ||| pfW⟩,
    ⟨ptLoad, 0, 0x8048000, 0x20, 0x40, pfR ||| pfW ||| pfX⟩]

def sampleMem (p : Phdr) : Mem :=
  ((((deskMem 0x8048000).writeWord 0xC0002038 p.pOffset).writeWord 0xC000203C p.pVaddr).writeWord 0xC0002044
    p.pFilesz).writeWord 0xC0002048 p.pMemsz |>.writeWord 0xC000204C p.pFlags

def sampleHeap (p : Phdr) : Heap.State Buddy.State := ⟨sampleMem p, deskPages, fun _ => none, none, none, 0, 0, 0⟩

theorem sample_image : ∀ p ∈ samples, hasMagic (sampleMem p) deskElf = true ∧ ePhoff (sampleMem p) deskElf = 52 ∧
    ePhnum (sampleMem p) deskElf = 1 ∧ segmentAt (sampleMem p) deskElf 0 = p ∧ p.pType = ptLoad ∧ p.pMemsz = 0x40 ∧
    pagesNeeded p = 1 ∧ pageAt p.pVaddr 0 = 0x8048 ∧ segmentEnd p = p.pVaddr + 0x1000 ∧ p.pVaddr / 0x1000 = 0x8048 := by
  decide +kernel

theorem sample_frame (p : Phdr) (x : Nat) (outside : x < 0xC0002038 ∨ 0xC0002050 ≤ x) :
    sampleMem p x = deskMem 0x8048000 x := by
  rw [sampleMem, write_word_frame _ _ _ _ (by omega), write_word_frame _ _ _ _ (by omega),
    write_word_frame _ _ _ _ (by omega), write_word_frame _ _ _ _ (by omega), write_word_frame _ _ _ _ (by omega)]

theorem desk_zeroed (mem : Mem) (f n : Nat) (s : Buddy.State) (blocks : List (Nat × Nat)) (held : DeskLive s blocks)
    (member : (f, 0) ∈ blocks) (blank : ∀ x, 0xC0005000 ≤ x → ¬ InPage (p2v f) x → mem x = 0) : Zeroed pmm mem n s := by
  induction n generalizing s blocks with
  | zero => trivial
  | succ n ih =>
      intro g s' alloc
      have held' := desk_lawful.allocated _ _ _ _ _ held alloc
      refine ⟨?_, ih s' _ held' (List.mem_cons_of_mem _ member)⟩
      intro x inPage
      have high := desk_block_high s' _ held' (g, 0) List.mem_cons_self
      obtain ⟨alignedF, boundF⟩ := desk_lawful.inRam _ _ held (f, 0) member
      obtain ⟨alignedG, boundG⟩ := desk_lawful.inRam _ _ held' (g, 0) List.mem_cons_self
      have other : g ≠ f := by
        rintro rfl
        exact fresh_of_apart g 0 _ (desk_lawful.apart _ _ held') (List.mem_map.mpr ⟨(g, 0), member, rfl⟩)
      simp only at boundF boundG high
      have above := inPage.1
      exact blank x (by omega) (frames_apart g f x alignedG alignedF (by omega) (by omega) other inPage)

-- The heap is up, eleven more pages are to be had, and they are blank.
structure SampleReady (p : Phdr) (h : Heap.State Buddy.State) (pages : List Heap.HeapPage) : Prop where
  sound : Heap.Sound DeskLive ⟨h, [], []⟩ pages []
  serves : Serves pmm 11 h.pages
  zeroed : Zeroed pmm h.mem 11 h.pages
  low : ∀ x, x < 0xC0004000 → h.mem x = sampleMem p x

theorem sample_ready (p : Phdr) : ∃ h pages, Heap.initKmalloc pmm (sampleHeap p) = .ok h ∧ SampleReady p h pages := by
  obtain ⟨h, pages, f, done, sound, serves, held, same⟩ := desk_boots (sampleMem p)
  refine ⟨h, pages, done, sound, serves, ?_, fun x low => same x (desk_low f x _ held low)⟩
  apply desk_zeroed h.mem f 11 h.pages [(f, 0)] held List.mem_cons_self
  intro x high outside
  have far : deskWord 0x8048000 ((x - deskDirectory) / 4) = 0 := by
    have index : 3072 ≤ (x - deskDirectory) / 4 := by
      rw [deskDirectory]
      omega
    generalize (x - deskDirectory) / 4 = i at index ⊢
    rw [deskWord, if_neg (by omega), if_neg (by omega), if_neg (by omega)]
  rw [same x outside, sample_frame p x (by omega), deskMem, far, Nat.zero_div]
  rfl

section Sample

variable {p : Phdr} (sample : p ∈ samples) {mem : Mem} (shown : ∀ x, x < 0xC0004000 → mem x = sampleMem p x)

include shown

theorem sample_slots : DeskSlots mem := by
  apply desk_slots_congr (deskMem 0x8048000) mem (desk_slots 0x8048000)
  · intro x inPage
    simp only [InPage, deskDirectory] at inPage
    rw [shown x (by omega), sample_frame p x (by omega)]
  · intro x inPage
    simp only [InPage, deskTable] at inPage
    rw [shown x (by omega), sample_frame p x (by omega)]

include sample

theorem sample_header : hasMagic mem deskElf = true ∧ ePhoff mem deskElf = 52 ∧ ePhnum mem deskElf = 1 ∧
    segmentAt mem deskElf 0 = p := by
  obtain ⟨magic, offset, count, segment, -⟩ := sample_image p sample
  obtain ⟨magic', offset', count'⟩ := elf_header_congr (sampleMem p) mem deskElf
    (fun x _ high => shown x (by simp only [deskElf] at high; omega))
  refine ⟨magic'.trans magic, offset'.trans offset, count'.trans count, ?_⟩
  have place : Word.add (Word.add deskElf 52) (sizeofPhdr * 0) = 0xC0002034 := by decide +kernel
  rw [segmentAt, offset, place] at segment
  rw [segmentAt, offset', offset, place]
  exact (read_phdr_congr _ _ _ (fun x _ high => shown x (by simp only [sizeofPhdr] at high; omega))).trans segment

theorem sample_loads (i : Nat) : Loads mem deskElf i ↔ i = 0 := by
  obtain ⟨-, -, count, segment⟩ := sample_header sample shown
  obtain ⟨-, -, -, -, load, -⟩ := sample_image p sample
  rw [Loads, count]
  constructor
  · rintro ⟨before, -⟩
    omega
  · rintro rfl
    exact ⟨by decide, by rw [segment, load]⟩

theorem sample_low : LowSegments mem deskElf := by
  obtain ⟨-, -, -, segment⟩ := sample_header sample shown
  obtain ⟨-, -, -, -, -, size, -, -, -, place⟩ := sample_image p sample
  intro i loads
  rw [(sample_loads sample shown i).mp loads, segment, size]
  omega

theorem sample_covers (i page : Nat) (before : i < 1) : Covers mem deskElf i page ↔ page = 0x8048 := by
  obtain ⟨-, -, -, segment⟩ := sample_header sample shown
  obtain ⟨-, -, -, -, load, -, needed, first, -⟩ := sample_image p sample
  obtain rfl : i = 0 := by omega
  rw [Covers, segment, needed]
  constructor
  · rintro ⟨-, j, few, rfl⟩
    obtain rfl : j = 0 := by omega
    exact first
  · rintro rfl
    exact ⟨load, 0, by decide, first.symm⟩

theorem sample_base : stackBase mem deskElf = p.pVaddr + 0x1000 := by
  obtain ⟨magic, -, count, segment⟩ := sample_header sample shown
  obtain ⟨-, -, -, -, -, -, -, -, ends, -⟩ := sample_image p sample
  rw [stackBase, segmentCount, if_pos magic, count, lastEnd, lastEnd, segment, ends]
  omega

theorem sample_header_byte (x : Nat) (header : HeaderByte mem deskElf x) : deskReserved x := by
  obtain ⟨-, offset, count, -⟩ := sample_header sample shown
  have place : Word.add (Word.add deskElf 52) (sizeofPhdr * 0) = 0xC0002034 := by decide +kernel
  rcases header with inHeader | ⟨i, before, inSegment⟩
  · simp only [deskElf] at inHeader
    exact ⟨by omega, by omega⟩
  · obtain rfl : i = 0 := by omega
    rw [offset, place, sizeofPhdr] at inSegment
    exact ⟨by omega, by omega⟩

theorem sample_touches (page : Nat) (touches : Touches mem deskElf page) : page < 0xC0000 := by
  obtain ⟨magic, -, count, -⟩ := sample_header sample shown
  obtain ⟨-, -, -, -, -, -, -, -, -, place⟩ := sample_image p sample
  rcases touches with ⟨i, before, covers⟩ | rfl
  · rw [segmentCount, if_pos magic, count] at before
    rw [(sample_covers sample shown i page before).mp covers]
    decide
  · rw [sample_base sample shown]
    omega

theorem sample_space : ClosedSpace DeskLive mem deskDirectory deskElf deskReserved := by
  have slots := sample_slots shown
  have half := desk_half slots
  refine { low_space half (sample_header_byte sample shown) ?_ with empty := half.empty, closed := ?_ }
  · rintro k ⟨page, touches, rfl⟩
    have := sample_touches sample shown page touches
    omega
  · intro k small present
    rcases desk_present slots k small present with rfl | rfl
    · rw [(slots 768 small).1]
      decide
    · rw [(slots 769 small).1]
      decide

theorem sample_requests : requests mem deskElf = 7 := by
  obtain ⟨magic, -, count, segment⟩ := sample_header sample shown
  obtain ⟨-, -, -, -, load, -, needed, -⟩ := sample_image p sample
  rw [requests, segmentCount, if_pos magic, count, pagesFrom, pagesFrom, segment, segmentPages, if_pos load, needed]

omit shown in
theorem sample_returns {h : Heap.State Buddy.State} {pages : List Heap.HeapPage} (ready : SampleReady p h pages) :
    ∃ thread k' dir s' base h2, createProcess pmm deskSymbols deskElf (deskKernel h) = .ok (thread, k') ∧
    pmm.alloc 0 h.pages = .ok (dir, s') ∧
    loadElf pmm (p2v dir) deskElf { h with mem := kmemcpy (p2v dir) deskDirectory 0x1000 h.mem, pages := s' } =
      .ok (base, h2) := by
  have space := (sample_space sample ready.low).toKernelSpace
  have enough : Serves pmm (requests h.mem deskElf) h.pages :=
    serves_mono _ _ 11 _ (by rw [sample_requests sample ready.low]; decide) ready.serves
  obtain ⟨new, h', built⟩ :=
    build_process_returns desk_lawful deskElf (space_headers_safe space) deskSymbols h ready.sound rfl rfl
    (fun i page before covers => ⟨page, .inl ⟨i, before, covers⟩, rfl⟩) ⟨_, .inr rfl, rfl⟩ enough
  obtain ⟨dir, s', base, h2, alloc, -, loadDone⟩ := build_process_load pmm deskSymbols deskElf h h' new built
  refine ⟨new.thread, startThread new h' (deskKernel h), dir, s', base, h2, ?_, alloc, loadDone⟩
  have heap : (deskKernel h).heap = h := rfl
  rw [createProcess, heap, built]

end Sample

theorem segment_pages_mapped_sample : ∃ h thread k' dir s' base h2,
    Heap.initKmalloc pmm (sampleHeap ⟨ptLoad, 0, 0x8048000, 0x20, 0x40, pfR ||| pfW⟩) = .ok h ∧
    pmm.alloc 0 h.pages = .ok (dir, s') ∧
    loadElf pmm (p2v dir) deskElf { h with mem := kmemcpy (p2v dir) deskDirectory 0x1000 h.mem, pages := s' } =
      .ok (base, h2) ∧
    createProcess pmm deskSymbols deskElf (deskKernel h) = .ok (thread, k') ∧
    SegmentsMapped h.mem h2.mem deskElf (p2v dir) ∧
      StackMapped k'.heap.mem (k'.sched.thread thread).pd (Word.add base 0x1000) := by
  have sample : ⟨ptLoad, 0, 0x8048000, 0x20, 0x40, pfR ||| pfW⟩ ∈ samples := by decide
  obtain ⟨h, pages, booted, ready⟩ := sample_ready ⟨ptLoad, 0, 0x8048000, 0x20, 0x40, pfR ||| pfW⟩
  obtain ⟨magic, -, count, segment⟩ := sample_header sample ready.low
  obtain ⟨thread, k', dir, s', base, h2, done, alloc, loadDone⟩ := sample_returns sample ready
  have space := sample_space sample ready.low
  refine ⟨h, thread, k', dir, s', base, h2, booted, alloc, loadDone, done, ?_⟩
  refine (segment_pages_mapped desk_lawful deskSymbols deskElf thread deskReserved [] [] [] pages
    (deskKernel h) k' dir base s' h2 ready.sound space magic (sample_low sample ready.low) alloc loadDone done).1
    ⟨?_, ?_, ?_⟩
  · intro i loads _
    change Loads h.mem deskElf i at loads
    refine ⟨0, by change 0 < ePhnum h.mem deskElf; omega, (sample_covers sample ready.low 0 _ (by decide)).mpr ?_⟩
    rw [(sample_loads sample ready.low i).mp loads]
    change ((segmentAt h.mem deskElf 0).pVaddr + ((segmentAt h.mem deskElf 0).pMemsz - 1)) / 0x1000 = 0x8048
    rw [segment]
    decide
  · change 0x1000 ∣ stackBase h.mem deskElf
    rw [sample_base sample ready.low]
    decide
  · change isPresent (entry h.mem deskDirectory (stackBase h.mem deskElf / 0x1000 / 1024)) = false
    rw [sample_base sample ready.low]
    exact space.empty _ (by decide)

-- A segment of 64 bytes at 0x8048FF0 gets one page, and its last 48 bytes are on the next one;
-- the stack pointer is off by the same offset.
theorem segment_page_missing : ∃ h thread k' dir s' base h2,
    Heap.initKmalloc pmm (sampleHeap ⟨ptLoad, 0xFF0, 0x8048FF0, 0, 0x40, pfR ||| pfW⟩) = .ok h ∧
    hasMagic h.mem deskElf = true ∧ LowSegments h.mem deskElf ∧ pmm.alloc 0 h.pages = .ok (dir, s') ∧
    loadElf pmm (p2v dir) deskElf { h with mem := kmemcpy (p2v dir) deskDirectory 0x1000 h.mem, pages := s' } =
      .ok (base, h2) ∧
    createProcess pmm deskSymbols deskElf (deskKernel h) = .ok (thread, k') ∧
    ¬ SegmentsMapped h.mem h2.mem deskElf (p2v dir) ∧
      ¬ StackMapped k'.heap.mem (k'.sched.thread thread).pd (Word.add base 0x1000) := by
  have sample : ⟨ptLoad, 0xFF0, 0x8048FF0, 0, 0x40, pfR ||| pfW⟩ ∈ samples := by decide
  obtain ⟨h, pages, booted, ready⟩ := sample_ready ⟨ptLoad, 0xFF0, 0x8048FF0, 0, 0x40, pfR ||| pfW⟩
  obtain ⟨magic, -, count, segment⟩ := sample_header sample ready.low
  obtain ⟨thread, k', dir, s', base, h2, done, alloc, loadDone⟩ := sample_returns sample ready
  have space : ClosedSpace DeskLive h.mem deskSymbols.kernelPageDirectory deskElf deskReserved :=
    sample_space sample ready.low
  have low := sample_low sample ready.low
  refine ⟨h, thread, k', dir, s', base, h2, booted, magic, low, alloc, loadDone, done, ?_, ?_⟩
  · intro mapped
    obtain ⟨i', before, covers⟩ := segments_covered desk_lawful ready.sound space magic low alloc loadDone
      (zeroed_mono _ _ _ 11 _ (by rw [sample_requests sample ready.low]; decide) ready.zeroed) mapped 0
        ((sample_loads sample ready.low 0).mpr rfl)
      (by rw [segment]; decide)
    rw [count] at before
    have page := (sample_covers sample ready.low i' _ before).mp covers
    rw [segment] at page
    exact absurd page (by decide)
  · obtain ⟨new, result, -, -, pd, -⟩ := create_process_spec _ _ _ _ _ _ done
    have start := loading_start desk_lawful space.toKernelSpace.setting ready.sound rfl dir s' alloc
    have last : base = stackBase h.mem deskElf :=
      (load_elf_loading desk_lawful start deskElf (space_headers_safe space.toKernelSpace)
      (fun i page before covers => ⟨page, .inl ⟨i, before, covers⟩, rfl⟩) base h2 loadDone).1
    rw [pd, last, stack_mapped_iff desk_lawful ready.sound space low new k'.heap result, sample_base sample ready.low]
    rintro ⟨aligned, -⟩
    exact absurd aligned (by decide)

end X86OS.Process
