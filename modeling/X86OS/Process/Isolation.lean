import X86OS.Mm.PagingInit
import X86OS.Mm.Pmm
import X86OS.Process.Requests

set_option autoImplicit false

namespace X86OS.Process

open Function Mem Paging

variable {σ : Type}

-- The pages that loading `elf` maps: those of its segments and the one of the user stack.
def Touches (mem : Mem) (elf page : Nat) : Prop :=
  (∃ i < segmentCount mem elf, Covers mem elf i page) ∨ page = stackBase mem elf / 0x1000

-- A slot of the directory with such a page.
def Reaches (mem : Mem) (elf k : Nat) : Prop := ∃ page, Touches mem elf page ∧ page / 1024 = k

-- A directory of the kernel. The page allocator hands out no `Reserved` byte, and neither the
-- directory nor its tables, which are pages of their own.
structure KernelTables (Live : σ → List (Nat × Nat) → Prop) (mem : Mem) (kpd : Nat) (Reserved : Nat → Prop) : Prop where
  aligned : 0x1000 ∣ kpd
  kept : KeptOut Live Reserved
  directory : ∀ x, InPage kpd x → Reserved x
  tables : ∀ k, k < 1024 → Paging.Small mem kpd k → ∀ x, InPage (p2v (frameOf mem kpd k)) x → Reserved x
  own : OwnTables mem kpd

-- The directory when `create_process` is called. The frames of slots that loading reaches hold
-- neither the directory nor the headers, nor does a 4 MiB mapping that it reaches start with a table.
structure KernelSpace (Live : σ → List (Nat × Nat) → Prop) (mem : Mem) (kpd elf : Nat) (Reserved : Nat → Prop) : Prop
    extends KernelTables Live mem kpd Reserved where
  headers : ∀ x, HeaderByte mem elf x → Reserved x
  reached : ∀ k, k < 1024 → Reaches mem elf k → isPresent (entry mem kpd k) = true →
    p2v (frameOf mem kpd k) ≠ kpd ∧ ∀ x, InPage (p2v (frameOf mem kpd k)) x → Reserved x ∧ ¬ HeaderByte mem elf x
  large : ∀ k k', k < 1024 → k' < 1024 → Reaches mem elf k → isPresent (entry mem kpd k) = true →
    isLarge (entry mem kpd k) = true →
    Paging.Small mem kpd k' → frameOf mem kpd k' ≠ frameOf mem kpd k

section Space

variable {Live : σ → List (Nat × Nat) → Prop} {mem : Mem} {kpd elf : Nat} {Reserved : Nat → Prop}

-- The loader writes the frames of the slots it reaches.
def KernelSpace.setting (space : KernelSpace Live mem kpd elf Reserved) : Setting Live where
  mem := mem
  kpd := kpd
  Reserved := Reserved
  Writable x := ∃ k < 1024, Reaches mem elf k ∧ isPresent (entry mem kpd k) = true ∧ InPage (p2v (frameOf mem kpd k)) x
  Open := Reaches mem elf
  aligned := space.aligned
  kept := space.kept
  within := fun x ⟨k, smallK, reaches, present, inFrame⟩ => ((space.reached k smallK reaches present).2 x inFrame).1
  directory := space.directory
  tables := space.tables
  own := space.own
  openSlots := fun k smallK reaches present _ inFrame => ⟨k, smallK, reaches, present, inFrame⟩
  openLarge := space.large

-- The kernel's directory as `paging_init` leaves it: nothing below 0xC0000000.
structure KernelHalf (Live : σ → List (Nat × Nat) → Prop) (mem : Mem) (kpd : Nat) (Reserved : Nat → Prop) : Prop
    extends KernelTables Live mem kpd Reserved where
  empty : ∀ k, k < 768 → isPresent (entry mem kpd k) = false

theorem low_space (half : KernelHalf Live mem kpd Reserved) (headers : ∀ x, HeaderByte mem elf x → Reserved x)
    (low : ∀ k, Reaches mem elf k → k < 768) : KernelSpace Live mem kpd elf Reserved where
  toKernelTables := half.toKernelTables
  headers := headers
  reached k _ reaches present := absurd (present.symm.trans (half.empty k (low k reaches))) (by decide)
  large k _ _ _ reaches present := absurd (present.symm.trans (half.empty k (low k reaches))) (by decide)

-- An image whose headers the page allocator never hands out, and not inside a page table.
structure HeadersKept (mem : Mem) (kpd elf : Nat) (Reserved : Nat → Prop) : Prop where
  reserved : ∀ x, HeaderByte mem elf x → Reserved x
  apart : ∀ k, k < 1024 → Paging.Small mem kpd k → ∀ x, InPage (p2v (frameOf mem kpd k)) x → ¬ HeaderByte mem elf x

-- Slot `k` maps 4 MiB. `map_range` takes the first page of the mapping for a page table; it is
-- never handed out and holds neither the directory, a table nor a header of the image.
structure Spared (mem : Mem) (kpd elf : Nat) (Reserved : Nat → Prop) (k : Nat) : Prop where
  present : isPresent (entry mem kpd k) = true
  large : isLarge (entry mem kpd k) = true
  directory : p2v (frameOf mem kpd k) ≠ kpd
  tables : ∀ k', k' < 1024 → Paging.Small mem kpd k' → frameOf mem kpd k' ≠ frameOf mem kpd k
  bytes : ∀ x, InPage (p2v (frameOf mem kpd k)) x → Reserved x ∧ ¬ HeaderByte mem elf x

theorem spared_space (half : KernelHalf Live mem kpd Reserved) (headers : HeadersKept mem kpd elf Reserved)
    (spared : ∀ k, Reaches mem elf k → isPresent (entry mem kpd k) = true → isLarge (entry mem kpd k) = true →
      Spared mem kpd elf Reserved k) : KernelSpace Live mem kpd elf Reserved where
  toKernelTables := half.toKernelTables
  headers := headers.reserved
  reached := by
    intro k smallK reaches present
    by_cases large : isLarge (entry mem kpd k) = true
    · have slot := spared k reaches present large
      exact ⟨slot.directory, slot.bytes⟩
    · have small : Paging.Small mem kpd k := ⟨present, by simpa using large⟩
      exact ⟨half.own.apart k smallK small,
        fun x inTable => ⟨half.tables k smallK small x inTable, headers.apart k smallK small x inTable⟩⟩
  large k k' _ smallK' reaches present large small' := (spared k reaches present large).tables k' smallK' small'

theorem space_headers_safe (space : KernelSpace Live mem kpd elf Reserved) : HeadersSafe space.setting elf := by
  intro x header
  refine ⟨space.headers x header, ?_⟩
  rintro ⟨k, smallK, reaches, present, inFrame⟩
  exact ((space.reached k smallK reaches present).2 x inFrame).2 header

theorem space_directory_fixed (space : KernelSpace Live mem kpd elf Reserved) (x : Nat) (inDir : InPage kpd x) :
    ¬ space.setting.Writable x := by
  rintro ⟨k, smallK, reaches, present, inFrame⟩
  exact pages_apart _ _ x (p2v_aligned _ (frame_of_page _ _ _).1) space.aligned
    (space.reached k smallK reaches present).1 inFrame inDir

theorem space_table_fixed (space : KernelSpace Live mem kpd elf Reserved) (k x : Nat) (smallK : k < 1024)
    (small : Paging.Small mem kpd k) (unreached : ¬ Reaches mem elf k) (inTable : InPage (p2v (frameOf mem kpd k)) x) :
    ¬ space.setting.Writable x := by
  rintro ⟨k', smallK', reaches, present, inFrame⟩
  have sameFrame : frameOf mem kpd k = frameOf mem kpd k' := by
    by_contra other
    exact frames_apart _ _ x (frame_of_page _ _ _).1 (frame_of_page _ _ _).1 (frame_of_page _ _ _).2
      (frame_of_page _ _ _).2 other inTable inFrame
  by_cases large : isLarge (entry mem kpd k') = true
  · exact space.large k' k smallK' smallK reaches present large small sameFrame
  · have same := space.own.distinct k k' smallK smallK' small ⟨present, by simpa using large⟩ sameFrame
    exact unreached (same ▸ reaches)

variable {A : PageAllocator σ} (lawful : A.Lawful Live) {live foreign big : List (Nat × Nat)}
  {pages : List Heap.HeapPage} {h h' : Heap.State σ} (space : KernelSpace Live h.mem kpd elf Reserved) {sym : Symbols}
  {new : NewThread}

include lawful

theorem build_process_built (sound : Heap.Sound Live ⟨h, live, foreign⟩ pages big)
    (directory : kpd = sym.kernelPageDirectory) (done : buildProcess A sym elf h = .ok (new, h')) :
    ∃ dir kernelStack taken segments image pages',
      Built space.setting elf live foreign pages new h' dir kernelStack taken segments image pages' big :=
  build_process_loading lawful space.setting sym sound rfl directory elf (space_headers_safe space)
    (fun i page before covers => ⟨page, .inl ⟨i, before, covers⟩, rfl⟩) ⟨_, .inr rfl, rfl⟩ new h' done

end Space

-- User mode gets through to the page.
def UserReaches (mem : Mem) (pd page : Nat) : Prop :=
  (translate mem pd page).isSome = true ∧ userAccessible mem pd page = true

theorem user_reaches_congr (mem mem' : Mem) (pd pd' page : Nat)
    (dir : entry mem' pd' (page / 1024) = entry mem pd (page / 1024))
    (table : Paging.Small mem pd (page / 1024) → entry mem' (p2v (frameOf mem pd (page / 1024))) (page % 1024) =
      entry mem (p2v (frameOf mem pd (page / 1024))) (page % 1024)) :
    UserReaches mem' pd' page ↔ UserReaches mem pd page := by
  have walk := translate_congr mem mem' pd pd' page dir table
  simp only [UserReaches, walk]
  apply and_congr_right
  intro mapped
  have present : isPresent (entry mem pd (page / 1024)) = true := by
    by_contra absent
    rw [translate_absent _ _ _ (by simpa using absent)] at mapped
    cases mapped
  simp only [userAccessible, allows, dir]
  by_cases large : isLarge (entry mem pd (page / 1024)) = true
  · rw [large, Bool.true_or, Bool.true_or]
  · have word := table ⟨present, by simpa using large⟩
    rw [frameOf] at word
    rw [word]

-- Every kernel page is where it was, in the kernel's directory and in the new one `pd`, and
-- user mode gets through to none that was closed to it.
structure KernelKept (mem mem' : Mem) (kpd pd : Nat) : Prop where
  kernel : ∀ page, 0xC0000 ≤ page → page < 2 ^ 20 → translate mem' kpd page = translate mem kpd page
  process : ∀ page, 0xC0000 ≤ page → page < 2 ^ 20 → translate mem' pd page = translate mem kpd page
  closed : ∀ page, 0xC0000 ≤ page → page < 2 ^ 20 → UserReaches mem' kpd page ∨ UserReaches mem' pd page →
    UserReaches mem kpd page

theorem exists_last (P : Nat → Prop) (n i : Nat) (before : i < n) (here : P i) :
    ∃ j < n, P j ∧ ∀ k, j < k → k < n → ¬ P k := by
  induction n with
  | zero => omega
  | succ n ih =>
      by_cases last : P n
      · exact ⟨n, by omega, last, fun k low high => by omega⟩
      · have earlier : i < n := by
          rcases Nat.lt_succ_iff_lt_or_eq.mp before with lower | rfl
          · exact lower
          · exact absurd here last
        obtain ⟨j, lower, found, none⟩ := ih earlier
        refine ⟨j, by omega, found, ?_⟩
        intro k low high
        rcases Nat.lt_succ_iff_lt_or_eq.mp high with inside | rfl
        · exact none k low inside
        · exact last

section Kept

variable {A : PageAllocator σ} {Live : σ → List (Nat × Nat) → Prop} (lawful : A.Lawful Live) {setting : Setting Live}
  {elf : Nat} {live foreign : List (Nat × Nat)} {new : NewThread} {h' : Heap.State σ} {dir kernelStack : Nat}
  {taken : List Nat} {segments image : Nat → Option Mapping} {before pages : List Heap.HeapPage}
  {big : List (Nat × Nat)}

theorem built_mapped
    (built : Built setting elf live foreign before new h' dir kernelStack taken segments image pages big) (page : Nat)
    (touches : Touches setting.mem elf page) (small : ¬ setting.Large page) : ∃ m, image page = some m := by
  have segmentPages (i : Nat) (before : i < segmentCount setting.mem elf) (covers : Covers setting.mem elf i page) :
      ∃ m, segments page = some m := by
    obtain ⟨last, inside, ⟨load, j, few, rfl⟩, none⟩ :=
      exists_last (fun i => Covers setting.mem elf i page) _ i before covers
    obtain ⟨m, found, -⟩ := built.loaded.shown last j inside load few small none
    exact ⟨m, found⟩
  rcases built.stackPage with ⟨large, same⟩ | ⟨-, m, updated, -⟩
  · rcases touches with ⟨i, before, covers⟩ | rfl
    · rw [same]
      exact segmentPages i before covers
    · exact absurd large small
  · rw [updated]
    by_cases stack : page = stackBase setting.mem elf / 0x1000
    · rw [stack, update_self]
      exact ⟨m, rfl⟩
    · rw [update_of_ne stack]
      rcases touches with ⟨i, before, covers⟩ | same
      · exact segmentPages i before covers
      · exact absurd same stack

end Kept

section Iff

variable {A : PageAllocator σ} {Live : σ → List (Nat × Nat) → Prop} (lawful : A.Lawful Live) {kpd elf : Nat}
  {Reserved : Nat → Prop} {live foreign big : List (Nat × Nat)} {before pages : List Heap.HeapPage}
  {h h' : Heap.State σ} {sym : Symbols} {new : NewThread}

theorem unreached_walk (space : KernelSpace Live h.mem kpd elf Reserved) (dir kernelStack : Nat) (taken : List Nat)
    (segments image : Nat → Option Mapping)
    (built : Built space.setting elf live foreign before new h' dir kernelStack taken segments image pages big)
    (page : Nat) (inside : page < 2 ^ 20)
    (closed : ∀ page', Touches h.mem elf page' → page' / 1024 = page / 1024 → space.setting.Large page') :
    entry h'.mem kpd (page / 1024) = entry h.mem kpd (page / 1024) ∧
      entry h'.mem new.pd (page / 1024) = entry h.mem kpd (page / 1024) ∧
      (Paging.Small h.mem kpd (page / 1024) → entry h'.mem (p2v (frameOf h.mem kpd (page / 1024))) (page % 1024) =
        entry h.mem (p2v (frameOf h.mem kpd (page / 1024))) (page % 1024)) := by
  have smallK : page / 1024 < 1024 := by omega
  have same (x : Nat) (reserved : Reserved x) (fixed : ¬ space.setting.Writable x) : h'.mem x = h.mem x :=
    built.loading.reserved x reserved fixed
  refine ⟨?_, ?_, ?_⟩
  · exact entry_congr _ _ _ _ smallK
      (fun x inDir => same x (space.directory x inDir) (space_directory_fixed space x inDir))
  · rw [built.pd]
    rcases built.loading.slots (page / 1024) smallK with word | ⟨⟨page', touches, slot⟩, absent, -⟩
    · exact word
    · have present := (closed page' touches slot).1
      rw [slot] at present
      exact absurd (present.symm.trans absent) (by decide)
  · intro small
    have unreached : ¬ Reaches h.mem elf (page / 1024) := by
      rintro ⟨page', touches, slot⟩
      have large := (closed page' touches slot).2
      rw [slot] at large
      exact absurd (large.symm.trans small.2) (by decide)
    exact entry_congr _ _ _ _ (Nat.mod_lt _ (by decide))
      (fun x inTable => same x (space.tables _ smallK small x inTable)
      (space_table_fixed space _ x smallK small unreached inTable))

include lawful

theorem kernel_kept_iff (sound : Heap.Sound Live ⟨h, live, foreign⟩ pages big)
    (space : KernelSpace Live h.mem kpd elf Reserved) (directory : kpd = sym.kernelPageDirectory)
    (closed : ∀ page frame flags, 0xC0000 ≤ page → page < 2 ^ 20 → translate h.mem kpd page = some (frame, flags) →
      flags.testBit 2 = false)
    (done : buildProcess A sym elf h = .ok (new, h')) :
    KernelKept h.mem h'.mem kpd new.pd ↔ ∀ page, 0xC0000 ≤ page → page < 2 ^ 20 → Touches h.mem elf page →
      space.setting.Large page := by
  obtain ⟨dir, kernelStack, taken, segments, image, pages', built⟩ :=
    build_process_built lawful space sound directory done
  constructor
  · intro keeps page high inside touches
    by_contra small
    obtain ⟨m, found⟩ := built_mapped built page touches small
    obtain ⟨-, mapped, user, -⟩ := built.loading.mapped page m found
    have was := keeps.process page high inside
    rw [built.pd, mapped] at was
    have open' := (user_flags m.flag user).2
    rw [closed page m.frame m.flag high inside was.symm] at open'
    cases open'
  · intro onlyLarge
    have walk (page : Nat) (high : 0xC0000 ≤ page) (inside : page < 2 ^ 20) :=
      unreached_walk space dir kernelStack taken segments image built page inside (fun page' touches slot =>
        onlyLarge page' (by omega) (by omega) touches)
    refine ⟨?_, ?_, ?_⟩
    · intro page high inside
      obtain ⟨dirK, -, table⟩ := walk page high inside
      exact translate_congr _ _ _ _ page dirK table
    · intro page high inside
      obtain ⟨-, dirP, table⟩ := walk page high inside
      exact translate_congr _ _ _ _ page dirP table
    · intro page high inside reaches
      obtain ⟨dirK, dirP, table⟩ := walk page high inside
      rcases reaches with reaches | reaches
      · exact (user_reaches_congr _ _ _ _ page dirK table).mp reaches
      · exact (user_reaches_congr _ _ _ _ page dirP table).mp reaches

end Iff

theorem touches_inside (mem : Mem) (elf page : Nat) (touches : Touches mem elf page) : page < 2 ^ 20 := by
  rcases touches with ⟨i, -, -, j, -, rfl⟩ | rfl
  · rw [page_at_eq]
    exact Nat.mod_lt _ (by decide)
  · have bound := last_end_bound mem elf (segmentCount mem elf)
    rw [stackBase]
    omega

-- Loading a program leaves the kernel's half alone when every page it maps is below that half, or in
-- a spared slot. For an image that reaches no other 4 MiB slot nothing less will do.
theorem kernel_space_kept {A : PageAllocator σ} {Live : σ → List (Nat × Nat) → Prop} (lawful : A.Lawful Live)
    (sym : Symbols) (elf thread : Nat) (Reserved : Nat → Prop) (live foreign big : List (Nat × Nat))
    (pages : List Heap.HeapPage) (k k' : Kernel σ) (sound : Heap.Sound Live ⟨k.heap, live, foreign⟩ pages big)
    (half : KernelHalf Live k.heap.mem sym.kernelPageDirectory Reserved)
    (headers : HeadersKept k.heap.mem sym.kernelPageDirectory elf Reserved)
    (closed : ∀ page frame flags, 0xC0000 ≤ page → page < 2 ^ 20 →
      translate k.heap.mem sym.kernelPageDirectory page = some (frame, flags) → flags.testBit 2 = false)
    (done : createProcess A sym elf k = .ok (thread, k')) :
    ((∀ page, Touches k.heap.mem elf page →
        page < 0xC0000 ∨ Spared k.heap.mem sym.kernelPageDirectory elf Reserved (page / 1024)) →
      KernelKept k.heap.mem k'.heap.mem sym.kernelPageDirectory (k'.sched.thread thread).pd) ∧
    ((∀ page, Touches k.heap.mem elf page → isPresent (entry k.heap.mem sym.kernelPageDirectory (page / 1024)) = true →
        isLarge (entry k.heap.mem sym.kernelPageDirectory (page / 1024)) = true →
        Spared k.heap.mem sym.kernelPageDirectory elf Reserved (page / 1024)) →
      KernelKept k.heap.mem k'.heap.mem sym.kernelPageDirectory (k'.sched.thread thread).pd →
      ∀ page, Touches k.heap.mem elf page →
        page < 0xC0000 ∨ Spared k.heap.mem sym.kernelPageDirectory elf Reserved (page / 1024)) := by
  obtain ⟨new, built, -, -, pd, -⟩ := create_process_spec A sym elf thread k k' done
  rw [pd]
  constructor
  · intro safe
    have space := spared_space half headers (by
      rintro slot ⟨page, touches, rfl⟩ present _
      rcases safe page touches with low | spared
      · exact absurd (present.symm.trans (half.empty _ (by omega))) (by decide)
      · exact spared)
    apply (kernel_kept_iff lawful sound space rfl closed built).mpr
    intro page high _ touches
    have spared := (safe page touches).resolve_left (by omega)
    exact ⟨spared.present, spared.large⟩
  · intro spared keeps page touches
    have space := spared_space half headers (by
      rintro slot ⟨page, touches, rfl⟩ present large
      exact spared page touches present large)
    by_cases low : page < 0xC0000
    · exact .inl low
    · obtain ⟨present, large⟩ :=
        (kernel_kept_iff lawful sound space rfl closed built).mp keeps page (by omega)
          (touches_inside _ _ _ touches) touches
      exact .inr (spared page touches present large)

-- A machine of 32 pages. Below its placement address stand the kernel's directory, an image
-- with one segment and the page table of slot 769; slot 768 maps 4 MiB.
def deskMap : MemoryMap := fun i => if i = 3 then ⟨0, 0x20000⟩ else ⟨0, 0⟩

def deskBump : Bump := ⟨fun _ => 0, 0x4000, by decide, by decide⟩

def deskDirectory : Nat := 0xC0001000
def deskElf : Nat := 0xC0002000
def deskTable : Nat := 0xC0003000

-- The words of the three pages.
def imageWords (vaddr : Nat) : List Nat :=
  [0x464C457F, 0, 0, 0, 0, 0, 0, 52, 0, 0, 0, 1, 0, ptLoad, 0, vaddr % 2 ^ 32, 0, 0x20, 0x40, 6]

def deskWord (vaddr i : Nat) : Nat :=
  if i < 1024 then if i = 768 then 0x83 else if i = 769 then 0x3003 else 0
  else if i < 2048 then (imageWords vaddr).getD (i - 1024) 0
  else if i = 2048 then 0x400003
  else 0

def deskMem (vaddr : Nat) : Mem :=
  fun x => UInt8.ofNat (deskWord vaddr ((x - deskDirectory) / 4) / 2 ^ (8 * ((x - deskDirectory) % 4)))

def deskReserved (x : Nat) : Prop := 0xC0001000 ≤ x ∧ x < 0xC0004000

def deskPages : Buddy.State := (Buddy.boot deskMap (fun _ => Buddy.zeroPage) deskBump).state

def DeskLive : Buddy.State → List (Nat × Nat) → Prop :=
  PmmLive (Buddy.Managed deskMap (Buddy.initBuddy deskMap (fun _ => Buddy.zeroPage) deskBump).2)

theorem desk_bootable : Buddy.Bootable deskMap (fun _ => Buddy.zeroPage) := ⟨by decide, by decide, rfl⟩

theorem desk_lawful : pmm.Lawful DeskLive := pmm_boot_lawful _ _ _ desk_bootable

theorem desk_block_high (s : Buddy.State) (live : List (Nat × Nat)) (held : DeskLive s live) (block : Nat × Nat)
    (member : block ∈ live) :
    0xC0005000 ≤ p2v block.1 := by
  have placed : getPlacementAddr (Buddy.initBuddy deskMap (fun _ => Buddy.zeroPage) deskBump).2 = 0x5000 := by
    decide +kernel
  obtain ⟨p, start, managed⟩ := pmm_live_managed _ s live block.1 block.2 held member
  have above := managed.1
  have below := (desk_lawful.inRam s live held block member).2
  have positive := Nat.two_pow_pos block.2
  rw [placed] at above
  rw [p2v_low _ (by omega), kernelVirtualBase]
  omega

def served (A : PageAllocator σ) : Nat → σ → List Nat
  | 0, _ => []
  | n + 1, s =>
      match A.alloc 0 s with
      | .error _ => []
      | .ok (f, s') => f :: served A n s'

theorem serves_of_served (A : PageAllocator σ) (n : Nat) (s : σ) (all : (served A n s).length = n) : Serves A n s := by
  induction n generalizing s with
  | zero => exact trivial
  | succ n ih =>
      rw [served] at all
      split at all
      · cases all
      · next f s' alloc => exact ⟨f, s', alloc, ih s' (by simpa using all)⟩

-- The heap is up and eleven more pages are to be had.
structure DeskReady (vaddr : Nat) (h : Heap.State Buddy.State) (pages : List Heap.HeapPage) : Prop where
  sound : Heap.Sound DeskLive ⟨h, [], []⟩ pages []
  serves : Serves pmm 11 h.pages
  low : ∀ x, x < 0xC0004000 → h.mem x = deskMem vaddr x

def deskHeap (vaddr : Nat) : Heap.State Buddy.State := ⟨deskMem vaddr, deskPages, fun _ => none, none, none, 0, 0, 0⟩

theorem heap_boots {A : PageAllocator σ} {Live : σ → List (Nat × Nat) → Prop} (lawful : A.Lawful Live) (mem : Mem)
    (s s' : σ) (f : Nat) (live : Live s []) (alloc : A.alloc 0 s = .ok (f, s')) :
    ∃ h pages, Heap.initKmalloc A ⟨mem, s, fun _ => none, none, none, 0, 0, 0⟩ = .ok h ∧
      Heap.Sound Live ⟨h, [], []⟩ pages [] ∧
      h.pages = s' ∧ ∀ x, ¬ InPage (p2v f) x → h.mem x = mem x := by
  have held := lawful.allocated _ _ _ _ _ live alloc
  obtain ⟨aligned, below⟩ := lawful.inRam _ _ held (f, 0) List.mem_cons_self
  have blank : Heap.Blank (σ := σ) ⟨mem, s, fun _ => none, none, none, 0, 0, 0⟩ := ⟨fun _ => rfl, rfl, rfl⟩
  obtain ⟨p, h1, created, base, -, -, pagesEq, frame, -⟩ :=
    Heap.create_chunk_spec A _ s' [] f (Heap.blank_rep _ blank) alloc aligned
    (by simpa using below) (by simp)
  have done : Heap.initKmalloc A ⟨mem, s, fun _ => none, none, none, 0, 0, 0⟩ =
      .ok { h1 with first := some (p2v f), last := (Heap.links.next h1 (p2v f)).bind (Heap.links.next h1) } := by
    rw [Heap.initKmalloc, created]
  obtain ⟨q, sound, -⟩ := Heap.init_kmalloc_sound lawful _ _ [] blank live done
  refine ⟨_, [q], done, sound, pagesEq, ?_⟩
  intro x outside
  apply frame
  rintro ⟨⟨p', member, low, high⟩, -⟩
  rw [List.nil_append, List.mem_singleton] at member
  rw [member, base] at low high
  exact outside ⟨low, high⟩

theorem desk_boots (mem : Mem) :
    ∃ h pages f, Heap.initKmalloc pmm ⟨mem, deskPages, fun _ => none, none, none, 0, 0, 0⟩ = .ok h ∧
    Heap.Sound DeskLive ⟨h, [], []⟩ pages [] ∧ Serves pmm 11 h.pages ∧ DeskLive h.pages [(f, 0)] ∧
    ∀ x, ¬ InPage (p2v f) x → h.mem x = mem x := by
  obtain ⟨f, s', alloc, serves⟩ := serves_of_served pmm 12 deskPages (by decide +kernel)
  have live : DeskLive deskPages [] := pmm_boot_live _ _ _ desk_bootable
  obtain ⟨h, pages, done, sound, rfl, same⟩ := heap_boots desk_lawful mem deskPages s' f live alloc
  exact ⟨h, pages, f, done, sound, serves, desk_lawful.allocated _ _ _ _ _ live alloc, same⟩

theorem desk_low (f x : Nat) (s : Buddy.State) (held : DeskLive s [(f, 0)]) (low : x < 0xC0004000) :
    ¬ InPage (p2v f) x := by
  have high := desk_block_high _ _ held (f, 0) List.mem_cons_self
  rintro ⟨above, -⟩
  simp only at high
  omega

theorem desk_ready (vaddr : Nat) :
    ∃ h pages, Heap.initKmalloc pmm (deskHeap vaddr) = .ok h ∧ DeskReady vaddr h pages := by
  obtain ⟨h, pages, f, done, sound, serves, held, same⟩ := desk_boots (deskMem vaddr)
  exact ⟨h, pages, done, sound, serves, fun x low => same x (desk_low f x _ held low)⟩

theorem desk_word (vaddr i : Nat) : readWord (deskMem vaddr) (deskDirectory + 4 * i) = deskWord vaddr i := by
  have words : ∀ word ∈ imageWords vaddr, word < 2 ^ 32 := by
    simp only [imageWords, ptLoad, List.forall_mem_cons, List.not_mem_nil, IsEmpty.forall_iff, implies_true, and_true]
    omega
  have bound : deskWord vaddr i < 2 ^ 32 := by
    rw [deskWord]
    split_ifs
    · decide
    · decide
    · decide
    · rw [List.getD_eq_getElem?_getD]
      cases found : (imageWords vaddr)[i - 1024]? with
      | none => decide
      | some word => exact words word (List.mem_of_getElem? found)
    · decide
    · decide
  have quarter (o : Nat) (small : o < 4) :
      deskMem vaddr (deskDirectory + 4 * i + o) = UInt8.ofNat (deskWord vaddr i / 2 ^ (8 * o)) := by
    rw [deskMem, show (deskDirectory + 4 * i + o - deskDirectory) / 4 = i by omega,
      show (deskDirectory + 4 * i + o - deskDirectory) % 4 = o by omega]
  have first := quarter 0 (by decide)
  rw [Nat.add_zero] at first
  rw [readWord, quarter 1 (by decide), quarter 2 (by decide), quarter 3 (by decide), first]
  simp only [UInt8.toNat_ofNat']
  omega

theorem desk_slots (vaddr j : Nat) (small : j < 1024) :
    entry (deskMem vaddr) deskDirectory j = (if j = 768 then 0x83 else if j = 769 then 0x3003 else 0) ∧
      entry (deskMem vaddr) deskTable j = if j = 0 then 0x400003 else 0 := by
  constructor
  · rw [entry, desk_word, deskWord, if_pos small]
  · rw [entry, show deskTable + 4 * j = deskDirectory + 4 * (2048 + j) by simp only [deskTable, deskDirectory]; omega,
      desk_word, deskWord, if_neg (by omega), if_neg (by omega)]
    simp

theorem desk_image (vaddr : Nat) (image : vaddr = 0x8048000 ∨ vaddr = 0xC0400000) :
    hasMagic (deskMem vaddr) deskElf = true ∧ ePhoff (deskMem vaddr) deskElf = 52 ∧ ePhnum (deskMem vaddr) deskElf = 1 ∧
      segmentAt (deskMem vaddr) deskElf 0 = ⟨ptLoad, 0, vaddr, 0x20, 0x40, 6⟩ ∧ pageAt vaddr 0 = vaddr / 0x1000 ∧
      segmentEnd ⟨ptLoad, 0, vaddr, 0x20, 0x40, 6⟩ = vaddr + 0x1000 := by
  rcases image with rfl | rfl <;> decide +kernel

-- The entries of the machine's directory and of its table.
def DeskSlots (mem : Mem) : Prop := ∀ j, j < 1024 →
  entry mem deskDirectory j = (if j = 768 then 0x83 else if j = 769 then 0x3003 else 0) ∧
    entry mem deskTable j = if j = 0 then 0x400003 else 0

section Slots

variable {mem : Mem} (slots : DeskSlots mem)

include slots

theorem desk_present (k : Nat) (small : k < 1024) (present : isPresent (entry mem deskDirectory k) = true) :
    k = 768 ∨ k = 769 := by
  by_contra other
  rw [(slots k small).1, if_neg (by omega), if_neg (by omega)] at present
  cases present

theorem desk_large (k : Nat) (small : k < 1024) (large : isLarge (entry mem deskDirectory k) = true) : k = 768 := by
  by_contra other
  rw [(slots k small).1, if_neg other] at large
  split at large <;> cases large

theorem desk_table (k : Nat) (small : k < 1024) (isSmall : Paging.Small mem deskDirectory k) : k = 769 := by
  rcases desk_present slots k small isSmall.1 with rfl | rfl
  · rw [Paging.Small, (slots 768 small).1, if_pos rfl] at isSmall
    exact absurd isSmall.2 (by decide)
  · rfl

theorem desk_frame : p2v (frameOf mem deskDirectory 769) = deskTable := by
  rw [frameOf, (slots 769 (by decide)).1]
  decide +kernel

theorem desk_half : KernelHalf DeskLive mem deskDirectory deskReserved where
  aligned := by decide
  kept := by
    intro s live held block member x low _ reserved
    have high := desk_block_high s live held block member
    simp only [deskReserved] at reserved
    omega
  directory := by
    intro x inDir
    simp only [InPage, deskDirectory] at inDir
    exact ⟨by omega, by omega⟩
  tables := by
    intro k smallK small x inTable
    rw [desk_table slots k smallK small, desk_frame slots, InPage, deskTable] at inTable
    exact ⟨by omega, by omega⟩
  own := by
    refine ⟨?_, ?_⟩
    · intro k smallK small
      rw [desk_table slots k smallK small, desk_frame slots]
      decide
    · intro k k' smallK smallK' small small' _
      rw [desk_table slots k smallK small, desk_table slots k' smallK' small']
  empty := by
    intro k low
    rw [(slots k (by omega)).1, if_neg (by omega), if_neg (by omega)]
    decide

theorem desk_closed (page frame flags : Nat) (inside : page < 2 ^ 20)
    (mapped : translate mem deskDirectory page = some (frame, flags)) :
    flags.testBit 2 = false := by
  have slot := (slots (page / 1024) (by omega)).1
  have table := (slots (page % 1024) (Nat.mod_lt _ (by decide))).2
  by_cases present : isPresent (entry mem deskDirectory (page / 1024)) = true
  · rcases desk_present slots _ (by omega) present with large | small
    · rw [large, if_pos rfl] at slot
      simp only [Paging.translate, large, slot] at mapped
      simp only [show isPresent 0x83 = true by decide, show isLarge 0x83 = true by decide, if_true, Option.some.injEq,
        Prod.mk.injEq] at mapped
      rw [← mapped.2]
      decide
    · rw [translate_small _ _ _ ⟨present, by rw [small] at slot ⊢; rw [slot]; decide⟩, small,
        desk_frame slots, table] at mapped
      split at mapped
      · rw [show leaf 0x400003 = some (0x400000, 3) by decide, Option.some.injEq, Prod.mk.injEq] at mapped
        rw [← mapped.2]
        decide
      · cases mapped
  · rw [translate_absent _ _ _ (by simpa using present)] at mapped
    cases mapped

end Slots

theorem desk_slots_congr (mem mem' : Mem) (slots : DeskSlots mem)
    (directory : ∀ x, InPage deskDirectory x → mem' x = mem x) (table : ∀ x, InPage deskTable x → mem' x = mem x) :
    DeskSlots mem' := by
  intro j small
  rw [entry_congr _ _ _ _ small directory, entry_congr _ _ _ _ small table]
  exact slots j small

section Desk

variable {vaddr : Nat} {h : Heap.State Buddy.State} {pages : List Heap.HeapPage} (ready : DeskReady vaddr h pages)
  (image : vaddr = 0x8048000 ∨ vaddr = 0xC0400000)

include ready

theorem desk_entry : DeskSlots h.mem := by
  apply desk_slots_congr (deskMem vaddr) h.mem (desk_slots vaddr)
  · intro x inPage
    simp only [InPage, deskDirectory] at inPage
    exact ready.low x (by omega)
  · intro x inPage
    simp only [InPage, deskTable] at inPage
    exact ready.low x (by omega)

include image

theorem desk_header : hasMagic h.mem deskElf = true ∧ ePhoff h.mem deskElf = 52 ∧ ePhnum h.mem deskElf = 1 ∧
    segmentAt h.mem deskElf 0 = ⟨ptLoad, 0, vaddr, 0x20, 0x40, 6⟩ := by
  obtain ⟨magic, offset, count, segment, -⟩ := desk_image vaddr image
  obtain ⟨magic', offset', count'⟩ := elf_header_congr (deskMem vaddr) h.mem deskElf
    (fun x _ high => ready.low x (by simp only [deskElf] at high; omega))
  refine ⟨magic'.trans magic, offset'.trans offset, count'.trans count, ?_⟩
  have place : Word.add (Word.add deskElf 52) (sizeofPhdr * 0) = 0xC0002034 := by decide +kernel
  rw [← segment, segmentAt, segmentAt, offset', offset, place]
  exact read_phdr_congr _ _ _ (fun x _ high => ready.low x (by simp only [sizeofPhdr] at high; omega))

theorem desk_touches (page : Nat) : Touches h.mem deskElf page ↔ page = vaddr / 0x1000 ∨ page = vaddr / 0x1000 + 1 := by
  obtain ⟨magic, -, count, segment⟩ := desk_header ready image
  obtain ⟨-, -, -, -, first, ends⟩ := desk_image vaddr image
  have segments : segmentCount h.mem deskElf = 1 := by rw [segmentCount, if_pos magic, count]
  have base : stackBase h.mem deskElf = vaddr + 0x1000 := by
    rw [stackBase, segments, lastEnd, lastEnd, segment, ends]
    omega
  have needed : pagesNeeded ⟨ptLoad, 0, vaddr, 0x20, 0x40, 6⟩ = 1 := by
    simp only [pagesNeeded]
    decide +kernel
  rw [Touches, base, segments]
  constructor
  · rintro (⟨i, before, -, j, few, rfl⟩ | rfl)
    · obtain rfl : i = 0 := by omega
      rw [segment] at few ⊢
      rw [needed] at few
      obtain rfl : j = 0 := by omega
      exact .inl first
    · omega
  · rintro (rfl | rfl)
    · refine .inl ⟨0, by decide, ?_⟩
      rw [Covers, segment, needed]
      exact ⟨rfl, 0, by decide, first.symm⟩
    · exact .inr (by omega)

theorem desk_header_byte (x : Nat) (header : HeaderByte h.mem deskElf x) : 0xC0002000 ≤ x ∧ x < 0xC0002054 := by
  obtain ⟨-, offset, count, -⟩ := desk_header ready image
  have place : Word.add (Word.add deskElf 52) (sizeofPhdr * 0) = 0xC0002034 := by decide +kernel
  rcases header with inHeader | ⟨i, before, inSegment⟩
  · simp only [deskElf] at inHeader
    omega
  · obtain rfl : i = 0 := by omega
    rw [offset, place, sizeofPhdr] at inSegment
    omega

theorem desk_reaches (k : Nat) (reaches : Reaches h.mem deskElf k) : k = 32 ∨ k = 769 := by
  obtain ⟨page, touches, rfl⟩ := reaches
  rw [desk_touches ready image] at touches
  omega

theorem desk_headers_kept : HeadersKept h.mem deskDirectory deskElf deskReserved where
  reserved := by
    intro x header
    have range := desk_header_byte ready image x header
    exact ⟨by omega, by omega⟩
  apart := by
    intro k smallK small x inTable header
    have range := desk_header_byte ready image x header
    rw [desk_table (desk_entry ready) k smallK small, desk_frame (desk_entry ready), InPage, deskTable] at inTable
    omega

theorem desk_space : KernelSpace DeskLive h.mem deskDirectory deskElf deskReserved := by
  apply spared_space (desk_half (desk_entry ready)) (desk_headers_kept ready image)
  rintro k ⟨page, touches, rfl⟩ _ large
  have reached := desk_reaches ready image (page / 1024) ⟨page, touches, rfl⟩
  have slot := desk_large (desk_entry ready) (page / 1024) (by omega) large
  omega

end Desk

def deskSymbols : Symbols := ⟨deskDirectory, 0xC0100000, 0xC0100010⟩

def blankSched : Sched.State :=
  ⟨⟨fun _ => none, fun _ => none⟩, fun _ => ⟨0, 0, .running, 0, 0⟩, Sched.emptyList, Sched.emptyList, Sched.emptyList,
    0, 0, 0, 0, 0, 0, 0, 0, 0⟩

def deskKernel (h : Heap.State Buddy.State) : Kernel Buddy.State := ⟨h, blankSched, 0, fun _ => 0⟩

theorem desk_requests {vaddr : Nat} {h : Heap.State Buddy.State} {pages : List Heap.HeapPage}
    (ready : DeskReady vaddr h pages) (image : vaddr = 0x8048000 ∨ vaddr = 0xC0400000) :
    requests h.mem deskElf = 7 := by
  obtain ⟨magic, -, count, segment⟩ := desk_header ready image
  have needed : segmentPages ⟨ptLoad, 0, vaddr, 0x20, 0x40, 6⟩ = 1 := by
    simp only [segmentPages, pagesNeeded]
    decide +kernel
  rw [requests, segmentCount, if_pos magic, count, pagesFrom, pagesFrom, segment, needed]

theorem desk_returns {vaddr : Nat} {h : Heap.State Buddy.State} {pages : List Heap.HeapPage}
    (ready : DeskReady vaddr h pages) (image : vaddr = 0x8048000 ∨ vaddr = 0xC0400000) (k : Kernel Buddy.State)
    (heap : k.heap = h) :
    ∃ thread k', createProcess pmm deskSymbols deskElf k = .ok (thread, k') := by
  have space := desk_space ready image
  have enough : Serves pmm (requests h.mem deskElf) h.pages :=
    serves_mono _ _ 11 _ (by rw [desk_requests ready image]; decide) ready.serves
  obtain ⟨new, h', built⟩ :=
    build_process_returns desk_lawful deskElf (space_headers_safe space) deskSymbols h ready.sound rfl rfl
    (fun i page before covers => ⟨page, .inl ⟨i, before, covers⟩, rfl⟩) ⟨_, .inr rfl, rfl⟩ enough
  rw [createProcess, heap, built]
  exact ⟨_, _, rfl⟩

theorem kernel_space_kept_desk : ∃ h thread k', Heap.initKmalloc pmm (deskHeap 0x8048000) = .ok h ∧
    createProcess pmm deskSymbols deskElf (deskKernel h) = .ok (thread, k') ∧
    KernelKept h.mem k'.heap.mem deskDirectory (k'.sched.thread thread).pd := by
  obtain ⟨h, pages, booted, ready⟩ := desk_ready 0x8048000
  obtain ⟨thread, k', done⟩ := desk_returns ready (.inl rfl) (deskKernel h) rfl
  refine ⟨h, thread, k', booted, done, ?_⟩
  apply (kernel_space_kept desk_lawful deskSymbols deskElf thread deskReserved [] [] [] pages
    (deskKernel h) k' ready.sound (desk_half (desk_entry ready)) (desk_headers_kept ready (.inl rfl))
    (fun page frame flags _ inside => desk_closed (desk_entry ready) page frame flags inside) done).1
  intro page touches
  have low := (desk_touches ready (.inl rfl) page).mp touches
  omega

-- The segment at 0xC0400000 goes into the kernel's own page table.
theorem kernel_space_overwritten :
    ∃ h thread k', Heap.initKmalloc pmm (deskHeap 0xC0400000) = .ok h ∧ hasMagic h.mem deskElf = true ∧
    createProcess pmm deskSymbols deskElf (deskKernel h) = .ok (thread, k') ∧
    ¬ KernelKept h.mem k'.heap.mem deskDirectory (k'.sched.thread thread).pd := by
  obtain ⟨h, pages, booted, ready⟩ := desk_ready 0xC0400000
  obtain ⟨thread, k', done⟩ := desk_returns ready (.inr rfl) (deskKernel h) rfl
  obtain ⟨new, built, -, -, pd, -⟩ := create_process_spec _ _ _ _ _ _ done
  refine ⟨h, thread, k', booted, (desk_header ready (.inr rfl)).1, done, ?_⟩
  rw [pd]
  intro keeps
  have large := (kernel_kept_iff desk_lawful ready.sound (desk_space ready (.inr rfl)) rfl
    (fun page frame flags _ inside => desk_closed (desk_entry ready) page frame flags inside) built).mp keeps 0xC0400
      (by decide) (by decide)
    ((desk_touches ready (.inr rfl) 0xC0400).mpr (.inl rfl))
  exact absurd (desk_large (desk_entry ready) _ (by decide) large.2) (by decide)

end X86OS.Process
