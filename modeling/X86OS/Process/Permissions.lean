import X86OS.Process.Coverage

set_option autoImplicit false

namespace X86OS.Process

open Function Mem Paging

variable {σ : Type}

-- User mode may write the page: the bits are set in the directory entry and in the table entry.
def UserWrites (mem : Mem) (pd page : Nat) : Prop := UserReaches mem pd page ∧ writable mem pd page = true

theorem segment_flags_write (p : Phdr) : (segmentFlags p).testBit 1 = true ↔ p.pFlags = pfR ||| pfW := by
  rw [segmentFlags]
  split
  next exactly => exact ⟨fun _ => exactly, fun _ => by decide⟩
  next other => exact ⟨fun set => absurd set (by decide), fun exactly => absurd exactly other⟩

-- Nothing of the kernel's is written below it.
def KernelHalf.setting {Live : σ → List (Nat × Nat) → Prop} {mem : Mem} {kpd : Nat} {Reserved : Nat → Prop}
    (half : KernelHalf Live mem kpd Reserved) : Setting Live where
  mem := mem
  kpd := kpd
  Reserved := Reserved
  Writable _ := False
  Open k := k < 768
  aligned := half.aligned
  kept := half.kept
  within := fun _ never => never.elim
  directory := half.directory
  tables := half.tables
  own := half.own
  openSlots := fun k _ low present => absurd (present.symm.trans (half.empty k low)) (by decide)
  openLarge := fun k _ _ _ low present => absurd (present.symm.trans (half.empty k low)) (by decide)

section Load

variable {A : PageAllocator σ} {Live : σ → List (Nat × Nat) → Prop} (lawful : A.Lawful Live) {elf kpd dir base : Nat}
  {Reserved : Nat → Prop} {live foreign big : List (Nat × Nat)} {pages : List Heap.HeapPage} {h h' : Heap.State σ}
  (sound : Heap.Sound Live ⟨h, live, (dir, 0) :: foreign⟩ pages big) (half : KernelHalf Live h.mem kpd Reserved)
  (copy : ∀ k, k < 1024 → entry h.mem (p2v dir) k = entry h.mem kpd k)
  (headers : ∀ x, HeaderByte h.mem elf x → Reserved x) (segments : AlignedSegments h.mem elf)
  (done : loadElf A (p2v dir) elf h = .ok (base, h')) (magic : hasMagic h.mem elf = true)

include lawful sound half copy headers segments done magic

theorem page_writable_iff (i j : Nat) (loads : Loads h.mem elf i) (inside : j < (segmentAt h.mem elf i).pMemsz) :
    UserWrites h'.mem (p2v dir) (((segmentAt h.mem elf i).pVaddr + j) / 0x1000) ↔
      (segmentAt h.mem elf i).pFlags = pfR ||| pfW := by
  have all : segmentCount h.mem elf = ePhnum h.mem elf := if_pos magic
  have safe : HeadersSafe half.setting elf := fun x header => ⟨headers x header, fun never => never⟩
  have low (k page : Nat) (before : k < ePhnum h.mem elf) (covers : Covers h.mem elf k page) : page < 0xC0000 :=
    low_covers segments.low ⟨before, covers.1⟩ page covers
  have start : Loading half.setting live foreign dir [dir] (fun _ => none) pages big h :=
    loading_copy half.setting dir sound (fun _ _ _ => rfl) copy
  obtain ⟨-, taken, image, loading, -, loaded⟩ := load_elf_loading lawful start elf safe
    (fun k page before covers => by
      have below := low k page (all ▸ before) covers
      exact show page / 1024 < 768 by omega) base h' done
  have covers := aligned_covers segments i j loads inside
  have below := low i _ loads.1 covers
  obtain ⟨reaches, i', within, covers', rw'⟩ := loaded_allows lawful loading elf _ i _ loaded (all ▸ loads.1) covers
    (half.empty _ (by omega))
  have same : i = i' := aligned_one_cover segments i i' _ loads ⟨all ▸ within, covers'.1⟩ covers covers'
  subst same
  rw [UserWrites, rw', ← segment_flags_write]
  exact ⟨fun both => both.2, fun flag => ⟨reaches, flag⟩⟩

end Load

-- The pages of every segment are writable as its header says exactly when no header asks for
-- writing together with anything but reading.
theorem segment_permissions {A : PageAllocator σ} {Live : σ → List (Nat × Nat) → Prop} (lawful : A.Lawful Live)
    (elf kpd dir base : Nat) (Reserved : Nat → Prop) (live foreign big : List (Nat × Nat)) (pages : List Heap.HeapPage)
    (h h' : Heap.State σ) (sound : Heap.Sound Live ⟨h, live, (dir, 0) :: foreign⟩ pages big)
    (half : KernelHalf Live h.mem kpd Reserved) (copy : ∀ k, k < 1024 → entry h.mem (p2v dir) k = entry h.mem kpd k)
    (headers : ∀ x, HeaderByte h.mem elf x → Reserved x) (segments : AlignedSegments h.mem elf)
    (magic : hasMagic h.mem elf = true) (done : loadElf A (p2v dir) elf h = .ok (base, h')) :
    (∀ i j, Loads h.mem elf i → j < (segmentAt h.mem elf i).pMemsz →
      (UserWrites h'.mem (p2v dir) (((segmentAt h.mem elf i).pVaddr + j) / 0x1000) ↔
        (segmentAt h.mem elf i).pFlags &&& pfW ≠ 0)) ↔
    ∀ i, Loads h.mem elf i → 0 < (segmentAt h.mem elf i).pMemsz → (segmentAt h.mem elf i).pFlags &&& pfW ≠ 0 →
      (segmentAt h.mem elf i).pFlags = pfR ||| pfW := by
  have granted (i j : Nat) := page_writable_iff lawful sound half copy headers segments done magic i j
  constructor
  · intro follows i loads some asked
    exact (granted i 0 loads some).mp ((follows i 0 loads some).mpr asked)
  · intro only i j loads inside
    rw [granted i j loads inside]
    constructor
    · intro exactly
      rw [exactly]
      decide
    · exact only i loads (by omega)

-- The directory that the machine loads a sample into.
structure SampleLoad (p : Phdr) (dir base : Nat) (h1 h2 : Heap.State Buddy.State)
    (pages : List Heap.HeapPage) : Prop where
  sound : Heap.Sound DeskLive ⟨h1, [], [(dir, 0)]⟩ pages []
  copy : ∀ k, k < 1024 → entry h1.mem (p2v dir) k = entry h1.mem deskDirectory k
  low : ∀ x, x < 0xC0004000 → h1.mem x = sampleMem p x
  done : loadElf pmm (p2v dir) deskElf h1 = .ok (base, h2)

theorem sample_load (p : Phdr) (sample : p ∈ samples) :
    ∃ h dir s' base h2 pages, Heap.initKmalloc pmm (sampleHeap p) = .ok h ∧
    pmm.alloc 0 h.pages = .ok (dir, s') ∧
    SampleLoad p dir base { h with mem := kmemcpy (p2v dir) deskDirectory 0x1000 h.mem, pages := s' } h2 pages := by
  obtain ⟨h, pages, booted, ready⟩ := sample_ready p
  obtain ⟨-, -, dir, s', base, h2, -, alloc, done⟩ := sample_returns sample ready
  have half := desk_half (sample_slots ready.low)
  have start : Loading half.setting [] [] dir [dir] (fun _ => none) pages []
      { h with mem := kmemcpy (p2v dir) deskDirectory 0x1000 h.mem, pages := s' } :=
    loading_start desk_lawful half.setting ready.sound rfl dir s' alloc
  have copied : (∀ x, ¬ InPage (p2v dir) x → kmemcpy (p2v dir) deskDirectory 0x1000 h.mem x = h.mem x) ∧ ∀ k, k < 1024 →
      entry (kmemcpy (p2v dir) deskDirectory 0x1000 h.mem) (p2v dir) k = entry h.mem deskDirectory k :=
    directory_copied desk_lawful half.setting ready.sound dir s' alloc
  refine ⟨h, dir, s', base, h2, pages, booted, alloc, ?_⟩
  generalize kmemcpy (p2v dir) deskDirectory 0x1000 h.mem = mem1 at start copied done ⊢
  have low (x : Nat) (below : x < 0xC0004000) : mem1 x = h.mem x := by
    have high := desk_block_high _ _ start.sound.owned.owner (dir, 0) (by simp [pageBlocks])
    apply copied.1
    rintro ⟨above, -⟩
    simp only at high
    omega
  refine ⟨start.sound, ?_, fun x below => (low x below).trans (ready.low x below), done⟩
  intro k small
  have same : entry mem1 deskDirectory k = entry h.mem deskDirectory k := by
    apply entry_congr _ _ _ _ small
    intro x inDir
    simp only [InPage, deskDirectory] at inDir
    exact low x (by omega)
  exact (copied.2 k small).trans same.symm

theorem sample_aligned (p : Phdr) (sample : p ∈ samples) (start : 0x1000 ∣ p.pVaddr) (mem : Mem)
    (shown : ∀ x, x < 0xC0004000 → mem x = sampleMem p x) : AlignedSegments mem deskElf := by
  have only (i : Nat) := sample_loads sample shown i
  refine ⟨⟨?_, ?_⟩, sample_low sample shown⟩
  · intro i loads
    rw [(only i).mp loads, (sample_header sample shown).2.2.2]
    exact start
  · intro i i' _ loads loads' other
    exact absurd (((only i).mp loads).trans ((only i').mp loads').symm) other

theorem segment_permissions_sample : ∃ h dir s' base h2,
    Heap.initKmalloc pmm (sampleHeap ⟨ptLoad, 0, 0x8048000, 0x20, 0x40, pfR ||| pfW⟩) = .ok h ∧
    pmm.alloc 0 h.pages = .ok (dir, s') ∧
    loadElf pmm (p2v dir) deskElf { h with mem := kmemcpy (p2v dir) deskDirectory 0x1000 h.mem, pages := s' } =
      .ok (base, h2) ∧
    UserWrites h2.mem (p2v dir) 0x8048 := by
  have sample : ⟨ptLoad, 0, 0x8048000, 0x20, 0x40, pfR ||| pfW⟩ ∈ samples := by decide
  obtain ⟨h, dir, s', base, h2, pages, booted, alloc, load⟩ := sample_load _ sample
  refine ⟨h, dir, s', base, h2, booted, alloc, load.done, ?_⟩
  have segment := (sample_header sample load.low).2.2.2
  have loads := (sample_loads sample load.low 0).mpr rfl
  have follows :=
    (segment_permissions desk_lawful deskElf deskDirectory dir base deskReserved [] [] [] pages _ h2 load.sound
    (desk_half (sample_slots load.low)) load.copy (sample_header_byte sample load.low)
      (sample_aligned _ sample (by decide) _ load.low)
    (sample_header sample load.low).1 load.done).mpr (by
      intro i loads _ _
      rw [(sample_loads sample load.low i).mp loads, segment]) 0 0 loads (by rw [segment]; decide)
  rw [segment] at follows
  exact follows.mpr (by decide)

-- A segment that asks for reading, writing and execution is not writable.
theorem segment_write_refused : ∃ h dir s' base h2,
    Heap.initKmalloc pmm (sampleHeap ⟨ptLoad, 0, 0x8048000, 0x20, 0x40, pfR ||| pfW ||| pfX⟩) = .ok h ∧
    pmm.alloc 0 h.pages = .ok (dir, s') ∧
    loadElf pmm (p2v dir) deskElf { h with mem := kmemcpy (p2v dir) deskDirectory 0x1000 h.mem, pages := s' } =
      .ok (base, h2) ∧
    hasMagic h.mem deskElf = true ∧ AlignedSegments h.mem deskElf ∧
    (∀ k, k < 768 → isPresent (entry h.mem deskDirectory k) = false) ∧
    Loads h.mem deskElf 0 ∧ (segmentAt h.mem deskElf 0).pVaddr / 0x1000 = 0x8048 ∧
    (segmentAt h.mem deskElf 0).pFlags &&& pfW ≠ 0 ∧ ¬ UserWrites h2.mem (p2v dir) 0x8048 := by
  have sample : ⟨ptLoad, 0, 0x8048000, 0x20, 0x40, pfR ||| pfW ||| pfX⟩ ∈ samples := by decide
  obtain ⟨h, dir, s', base, h2, pages, booted, alloc, load⟩ := sample_load _ sample
  obtain ⟨h', pages', booted', ready⟩ := sample_ready ⟨ptLoad, 0, 0x8048000, 0x20, 0x40, pfR ||| pfW ||| pfX⟩
  obtain rfl : h' = h := Except.ok.inj (booted'.symm.trans booted)
  obtain ⟨magic, -, -, segment⟩ := sample_header sample ready.low
  have segment1 := (sample_header sample load.low).2.2.2
  refine ⟨h', dir, s', base, h2, booted, alloc, load.done, magic, sample_aligned _ sample (by decide) _ ready.low,
    (desk_half (sample_slots ready.low)).empty, (sample_loads sample ready.low 0).mpr rfl, by
      rw [segment]; decide, by rw [segment]; decide, ?_⟩
  intro writes
  have granted := page_writable_iff desk_lawful load.sound (desk_half (sample_slots load.low)) load.copy
    (sample_header_byte sample load.low) (sample_aligned _ sample (by decide) _ load.low) load.done
    (sample_header sample load.low).1 0 0
      ((sample_loads sample load.low 0).mpr rfl)
    (by rw [segment1]; decide)
  rw [segment1] at granted
  exact absurd (granted.mp writes) (by decide)

end X86OS.Process
