import X86OS.Process.Isolation

set_option autoImplicit false

namespace X86OS.Process

open Function Mem Paging

variable {σ : Type}

-- Where the pages of a segment end.
def pageEnd (p : Phdr) : Nat := p.pVaddr + (p.pMemsz + 0xFFF) / 0x1000 * 0x1000

-- Segment `i` is to be loaded.
def Loads (mem : Mem) (elf i : Nat) : Prop := i < ePhnum mem elf ∧ (segmentAt mem elf i).pType = ptLoad

-- The segments to be loaded start at page boundaries and share no byte.
structure SegmentLayout (mem : Mem) (elf : Nat) : Prop where
  aligned : ∀ i, Loads mem elf i → 0x1000 ∣ (segmentAt mem elf i).pVaddr
  disjoint : ∀ i i' x, Loads mem elf i → Loads mem elf i' → i ≠ i' →
    ¬ (((segmentAt mem elf i).pVaddr ≤ x ∧ x < (segmentAt mem elf i).pVaddr + (segmentAt mem elf i).pMemsz) ∧
      (segmentAt mem elf i').pVaddr ≤ x ∧ x < (segmentAt mem elf i').pVaddr + (segmentAt mem elf i').pMemsz)

-- An ELF file of `size` bytes in memory at `elf`.
structure ElfImage (mem : Mem) (elf size : Nat) : Prop extends SegmentLayout mem elf where
  fits : elf + size ≤ 2 ^ 32
  header : 52 ≤ size
  table : ePhoff mem elf + sizeofPhdr * ePhnum mem elf ≤ size
  magic : hasMagic mem elf = true
  file : ∀ i, Loads mem elf i → (segmentAt mem elf i).pOffset + (segmentAt mem elf i).pFilesz ≤ size
  filesz : ∀ i, Loads mem elf i → (segmentAt mem elf i).pFilesz ≤ (segmentAt mem elf i).pMemsz
  room : ∀ i, Loads mem elf i → pageEnd (segmentAt mem elf i) + 0x1000 ≤ 0xC0000000

-- The page allocator hands out neither the kernel's tables nor the file.
structure LoadSpace (Live : σ → List (Nat × Nat) → Prop) (mem : Mem) (kpd elf size : Nat) (Reserved : Nat → Prop) : Prop
    extends KernelHalf Live mem kpd Reserved where
  file : ∀ x, elf ≤ x → x < elf + size → Reserved x

-- `page` has a byte of a segment.
def SegmentPage (mem : Mem) (elf page : Nat) : Prop :=
  ∃ i j, Loads mem elf i ∧ j < (segmentAt mem elf i).pMemsz ∧ page = ((segmentAt mem elf i).pVaddr + j) / 0x1000

-- What the file asks for, in the memory `mem'` and the directory `pd` of the new process:
-- `base` is the result of `load_elf` and `held` what was handed out before.
structure ImageBuilt (mem mem' : Mem) (elf kpd pd base : Nat) (held : List (Nat × Nat)) : Prop where
  content : ∀ i j, Loads mem elf i → j < (segmentAt mem elf i).pMemsz →
    ∃ frame flags, translate mem' pd (((segmentAt mem elf i).pVaddr + j) / 0x1000) = some (frame, flags) ∧
      mem' (p2v frame + ((segmentAt mem elf i).pVaddr + j) % 0x1000) =
        (if j < (segmentAt mem elf i).pFilesz then mem (elf + (segmentAt mem elf i).pOffset + j) else 0) ∧
      userAccessible mem' pd (((segmentAt mem elf i).pVaddr + j) / 0x1000) = true
  separate :
    ∀ page page' frame frame' flags flags', SegmentPage mem elf page → SegmentPage mem elf page' → page ≠ page' →
    translate mem' pd page = some (frame, flags) → translate mem' pd page' = some (frame', flags') → frame ≠ frame'
  above : ∀ i, Loads mem elf i → pageEnd (segmentAt mem elf i) ≤ base
  reached : base = 0 ∨ ∃ i, Loads mem elf i ∧ base = pageEnd (segmentAt mem elf i)
  stackApart : ¬ SegmentPage mem elf (base / 0x1000)
  stack : ∃ frame flags, translate mem' pd (base / 0x1000) = some (frame, flags) ∧
    userAccessible mem' pd (base / 0x1000) = true ∧
    writable mem' pd (base / 0x1000) = true ∧ (∀ block ∈ held, Apart (frame, 0) block) ∧
    ∀ page frame' flags', SegmentPage mem elf page → translate mem' pd page = some (frame', flags') → frame' ≠ frame
  kernelHalf : ∀ k, 768 ≤ k → k < 1024 → entry mem' pd k = entry mem kpd k

-- Every segment to be loaded lies below the kernel.
def LowSegments (mem : Mem) (elf : Nat) : Prop :=
  ∀ i, Loads mem elf i → (segmentAt mem elf i).pVaddr + (segmentAt mem elf i).pMemsz ≤ 0xC0000000

section Low

variable {mem : Mem} {elf i : Nat} (low : LowSegments mem elf) (loads : Loads mem elf i)

include low loads

theorem low_pages_needed : pagesNeeded (segmentAt mem elf i) = ((segmentAt mem elf i).pMemsz + 0xFFF) / 0x1000 := by
  have bound := low i loads
  rw [pagesNeeded, show (0x1000 : Nat) = 2 ^ 12 from rfl, align_up_eq _ _ (by decide), Nat.shiftRight_eq_div_pow,
    Nat.mul_div_cancel _ (by decide)]
  omega

theorem low_page_at (q : Nat) (inside : q < pagesNeeded (segmentAt mem elf i)) :
    pageAt (segmentAt mem elf i).pVaddr q = (segmentAt mem elf i).pVaddr / 0x1000 + q ∧
      (segmentAt mem elf i).pVaddr / 0x1000 + q < 0xC0000 := by
  have bound := low i loads
  rw [low_pages_needed low loads] at inside
  rw [page_at_eq]
  omega

theorem low_covers (page : Nat) (covers : Covers mem elf i page) : page < 0xC0000 := by
  obtain ⟨-, q, inside, rfl⟩ := covers
  obtain ⟨place, below⟩ := low_page_at low loads q inside
  omega

-- The pages are counted from the size alone: only the page of the last byte can be left out.
theorem low_byte_covered (j : Nat) (inside : j < (segmentAt mem elf i).pMemsz) :
    Covers mem elf i (((segmentAt mem elf i).pVaddr + j) / 0x1000) ∨
      ((segmentAt mem elf i).pVaddr + j) / 0x1000 =
        ((segmentAt mem elf i).pVaddr + ((segmentAt mem elf i).pMemsz - 1)) / 0x1000 := by
  have needed := low_pages_needed low loads
  by_cases own : ((segmentAt mem elf i).pVaddr % 0x1000 + j) / 0x1000 < pagesNeeded (segmentAt mem elf i)
  · refine .inl ⟨loads.2, _, own, ?_⟩
    rw [(low_page_at low loads _ own).1]
    omega
  · exact .inr (by omega)

omit loads in
theorem low_stack : stackBase mem elf ≤ 0xC0000FFF := by
  have ends (n : Nat) (count : n ≤ ePhnum mem elf) : lastEnd mem elf n ≤ 0xC0000FFF := by
    induction n with
    | zero => exact Nat.zero_le _
    | succ n ih =>
        have here : segmentEnd (segmentAt mem elf n) ≤ 0xC0000FFF := by
          rw [segmentEnd]
          split
          next load =>
            have bound := low n ⟨by omega, load⟩
            rw [low_pages_needed low ⟨by omega, load⟩, Nat.shiftLeft_eq, Word.add_exact _ _ (by omega)]
            omega
          next => decide
        have earlier := ih (by omega)
        rw [lastEnd]
        omega
  rw [stackBase, segmentCount]
  split
  · exact ends _ (le_refl _)
  · exact Nat.zero_le _

end Low

-- Such segments below the kernel.
structure AlignedSegments (mem : Mem) (elf : Nat) : Prop extends SegmentLayout mem elf where
  low : LowSegments mem elf

section Aligned

variable {mem : Mem} {elf : Nat} (segments : AlignedSegments mem elf)

include segments

theorem aligned_byte (i j : Nat) (loads : Loads mem elf i) (inside : j < (segmentAt mem elf i).pMemsz) :
    j / 0x1000 < pagesNeeded (segmentAt mem elf i) ∧
      ((segmentAt mem elf i).pVaddr + j) / 0x1000 = (segmentAt mem elf i).pVaddr / 0x1000 + j / 0x1000 ∧
      ((segmentAt mem elf i).pVaddr + j) % 0x1000 = j % 0x1000 := by
  have aligned := segments.aligned i loads
  rw [low_pages_needed segments.low loads]
  omega

theorem aligned_covers (i j : Nat) (loads : Loads mem elf i) (inside : j < (segmentAt mem elf i).pMemsz) :
    Covers mem elf i (((segmentAt mem elf i).pVaddr + j) / 0x1000) := by
  obtain ⟨own, place, -⟩ := aligned_byte segments i j loads inside
  exact ⟨loads.2, _, own, place.trans (low_page_at segments.low loads _ own).1.symm⟩

theorem aligned_one_cover (i i' page : Nat) (loads : Loads mem elf i) (loads' : Loads mem elf i')
    (covers : Covers mem elf i page) (covers' : Covers mem elf i' page) : i = i' := by
  by_contra other
  obtain ⟨-, q, inside, rfl⟩ := covers
  obtain ⟨-, q', inside', same⟩ := covers'
  obtain ⟨place, -⟩ := low_page_at segments.low loads q inside
  obtain ⟨place', -⟩ := low_page_at segments.low loads' q' inside'
  have start := segments.aligned i loads
  have start' := segments.aligned i' loads'
  rw [low_pages_needed segments.low loads] at inside
  rw [low_pages_needed segments.low loads'] at inside'
  refine segments.disjoint i i' ((segmentAt mem elf i).pVaddr + 0x1000 * q) loads loads' other
    ⟨⟨by omega, by omega⟩, ?_⟩
  omega

end Aligned

section Arithmetic

variable {mem : Mem} {elf size : Nat} (elfImage : ElfImage mem elf size) {i : Nat} (loads : Loads mem elf i)

include elfImage

theorem image_segments : segmentCount mem elf = ePhnum mem elf := if_pos elfImage.magic

theorem image_low : LowSegments mem elf := by
  intro i loads
  have room := elfImage.room i loads
  simp only [pageEnd] at room
  omega

theorem image_aligned : AlignedSegments mem elf := ⟨elfImage.toSegmentLayout, image_low elfImage⟩

include loads

theorem image_segment_end : segmentEnd (segmentAt mem elf i) = pageEnd (segmentAt mem elf i) := by
  have room := elfImage.room i loads
  rw [segmentEnd, if_pos loads.2, low_pages_needed (image_low elfImage) loads, pageEnd, Nat.shiftLeft_eq]
  simp only [pageEnd] at room
  exact Word.add_exact _ _ (by omega)

theorem image_page (q : Nat) (inside : q < pagesNeeded (segmentAt mem elf i)) :
    pageAt (segmentAt mem elf i).pVaddr q = (segmentAt mem elf i).pVaddr / 0x1000 + q ∧
      0x1000 * q < (segmentAt mem elf i).pMemsz ∧ (segmentAt mem elf i).pVaddr / 0x1000 + q < 0xBFFFF := by
  have room := elfImage.room i loads
  have place := (low_page_at (image_low elfImage) loads q inside).1
  rw [low_pages_needed (image_low elfImage) loads] at inside
  simp only [pageEnd] at room
  exact ⟨place, by omega, by omega⟩

end Arithmetic

section Cover

variable {mem : Mem} {elf size : Nat} (elfImage : ElfImage mem elf size)

include elfImage

theorem image_covers (i page : Nat) (before : i < ePhnum mem elf) (covers : Covers mem elf i page) :
    SegmentPage mem elf page ∧ page < 0xBFFFF := by
  obtain ⟨load, q, inside, rfl⟩ := covers
  have loads : Loads mem elf i := ⟨before, load⟩
  obtain ⟨place, byte, low⟩ := image_page elfImage loads q inside
  have aligned := elfImage.aligned i loads
  refine ⟨⟨i, 0x1000 * q, loads, byte, ?_⟩, by omega⟩
  omega

theorem last_end_above (n i : Nat) (before : i < n) (loads : Loads mem elf i) :
    pageEnd (segmentAt mem elf i) ≤ lastEnd mem elf n := by
  induction n with
  | zero => omega
  | succ n ih =>
      rw [lastEnd]
      rcases Nat.lt_succ_iff_lt_or_eq.mp before with earlier | rfl
      · exact (ih earlier).trans (le_max_left _ _)
      · rw [image_segment_end elfImage loads]
        exact le_max_right _ _

theorem last_end_reached (n : Nat) (count : n ≤ ePhnum mem elf) :
    lastEnd mem elf n = 0 ∨ ∃ i, Loads mem elf i ∧ lastEnd mem elf n = pageEnd (segmentAt mem elf i) := by
  induction n with
  | zero => exact .inl rfl
  | succ n ih =>
      rw [lastEnd]
      rcases max_choice (lastEnd mem elf n) (segmentEnd (segmentAt mem elf n)) with left | right
      · rw [left]
        exact ih (by omega)
      · rw [right]
        by_cases load : (segmentAt mem elf n).pType = ptLoad
        · exact .inr ⟨n, ⟨by omega, load⟩, image_segment_end elfImage ⟨by omega, load⟩⟩
        · exact .inl (if_neg load)

theorem image_stack_low : stackBase mem elf + 0x1000 ≤ 0xC0000000 := by
  rw [stackBase, image_segments elfImage]
  rcases last_end_reached elfImage _ (le_refl _) with zero | ⟨i, loads, last⟩
  · omega
  · rw [last]
    exact elfImage.room i loads

theorem image_reaches_low (k : Nat) (reaches : Reaches mem elf k) : k < 768 := by
  obtain ⟨page, ⟨i, before, covers⟩ | rfl, rfl⟩ := reaches
  · rw [image_segments elfImage] at before
    have low := (image_covers elfImage i page before covers).2
    omega
  · have low := image_stack_low elfImage
    omega

theorem image_header_byte (x : Nat) (header : HeaderByte mem elf x) : elf ≤ x ∧ x < elf + size := by
  have fits := elfImage.fits
  have first := elfImage.header
  have table := elfImage.table
  rcases header with inHeader | ⟨i, before, inSegment⟩
  · omega
  · simp only [sizeofPhdr] at table inSegment
    rw [Word.add_exact elf _ (by omega), Word.add_exact _ _ (by omega)] at inSegment
    omega

theorem image_space {Live : σ → List (Nat × Nat) → Prop} {kpd : Nat} {Reserved : Nat → Prop}
    (half : LoadSpace Live mem kpd elf size Reserved) : KernelSpace Live mem kpd elf Reserved :=
  low_space half.toKernelHalf
    (fun x header => half.file x (image_header_byte elfImage x header).1 (image_header_byte elfImage x header).2)
    (image_reaches_low elfImage)

end Cover

theorem loading_allows {A : PageAllocator σ} {Live : σ → List (Nat × Nat) → Prop} (lawful : A.Lawful Live)
    {setting : Setting Live} {live foreign big : List (Nat × Nat)} {dir : Nat} {taken : List Nat}
    {image : Nat → Option Mapping} {pages : List Heap.HeapPage} {h : Heap.State σ}
    (loading : Loading setting live foreign dir taken image pages big h) (page : Nat) (m : Mapping)
    (found : image page = some m) (absent : isPresent (entry setting.mem setting.kpd (page / 1024)) = false) :
    userAccessible h.mem (p2v dir) page = true ∧ writable h.mem (p2v dir) page = m.flag.testBit 1 := by
  obtain ⟨inside, mapped, user, -⟩ := loading.mapped page m found
  rcases loading.slots (page / 1024) (by omega) with same | ⟨-, -, t, member, -, -, flag, userT, word⟩
  · rw [translate_absent _ _ _ (same ▸ absent)] at mapped
    cases mapped
  · obtain ⟨aligned, bound, -⟩ := taken_page lawful setting loading.sound t member
    obtain ⟨low, present, small⟩ := table_flags flag (user_flags flag userT).1
    have isSmall : Paging.Small h.mem (p2v dir) (page / 1024) := by
      rw [Paging.Small, word, entry_present _ _ aligned, entry_large _ _ aligned]
      exact ⟨present, small⟩
    have slotBit (i : Nat) (bit : i < 12) : (entry h.mem (p2v dir) (page / 1024) &&& 2 ^ i != 0) =
        (pagePresent ||| pageRw ||| flag).testBit i := by rw [flag_bit, word, entry_bit _ _ aligned i bit]
    have slotUser : (pagePresent ||| pageRw ||| flag).testBit 2 = true := by rcases userT with rfl | rfl <;> decide
    have slotRw : (pagePresent ||| pageRw ||| flag).testBit 1 = true := by rcases userT with rfl | rfl <;> decide
    rw [translate_small _ _ _ isSmall, leaf] at mapped
    split at mapped
    · rw [Option.some.injEq, Prod.mk.injEq] at mapped
      have leafBit (i : Nat) (bit : i < 12) :
          (entry h.mem (p2v (frameOf h.mem (p2v dir) (page / 1024))) (page % 1024) &&& 2 ^ i != 0) =
            m.flag.testBit i := by
        rw [flag_bit, ← mapped.2, show 0xFFF = 2 ^ 12 - 1 from rfl, Nat.and_two_pow_sub_one_eq_mod,
          Nat.testBit_mod_two_pow, decide_eq_true bit, Bool.true_and]
      have slot1 := slotBit 1 (by decide)
      have slot2 := slotBit 2 (by decide)
      have leaf1 := leafBit 1 (by decide)
      have leaf2 := leafBit 2 (by decide)
      rw [frameOf] at leaf1 leaf2
      simp only [userAccessible, writable, allows, pageUser, pageRw]
      constructor
      · rw [show (0x4 : Nat) = 2 ^ 2 from rfl, slot2, leaf2, slotUser, (user_flags m.flag user).2,
          Bool.or_true, Bool.and_true]
      · rw [show (0x2 : Nat) = 2 ^ 1 from rfl, slot1, leaf1, slotRw, isSmall.2, Bool.false_or, Bool.true_and]
    · cases mapped

section Built

variable {A : PageAllocator σ} {Live : σ → List (Nat × Nat) → Prop} (lawful : A.Lawful Live) {kpd elf size : Nat}
  {Reserved : Nat → Prop} {live foreign big : List (Nat × Nat)} {before pages : List Heap.HeapPage}
  {h h' : Heap.State σ} {new : NewThread} {dir kernelStack : Nat} {taken : List Nat}
  {segments image : Nat → Option Mapping} (elfImage : ElfImage h.mem elf size)
  (half : LoadSpace Live h.mem kpd elf size Reserved)
  (built : Built (image_space elfImage half).setting elf live foreign before new h' dir kernelStack taken segments
    image pages big)

omit elfImage in
theorem half_absent (half : LoadSpace Live h.mem kpd elf size Reserved) (page : Nat) (low : page < 0xC0000) :
    isPresent (entry h.mem kpd (page / 1024)) = false := half.empty _ (by omega)

theorem image_not_large (page : Nat) (low : page < 0xC0000) : ¬ (image_space elfImage half).setting.Large page :=
  fun large => absurd (large.1.symm.trans (half_absent half page low)) (by decide)

theorem image_file_safe (i : Nat) (loads : Loads h.mem elf i) : FileSafe (image_space elfImage half).setting
    (Word.add elf (segmentAt h.mem elf i).pOffset) (segmentAt h.mem elf i).pFilesz ∧
    ∀ o, segmentByte h.mem (Word.add elf (segmentAt h.mem elf i).pOffset) (segmentAt h.mem elf i).pFilesz o =
      if o < (segmentAt h.mem elf i).pFilesz then h.mem (elf + (segmentAt h.mem elf i).pOffset + o) else 0 := by
  have fits := elfImage.fits
  have file := elfImage.file i loads
  by_cases none : (segmentAt h.mem elf i).pFilesz = 0
  · rw [none]
    refine ⟨⟨?_, fun o inside => absurd inside (Nat.not_lt_zero o)⟩, fun o => ?_⟩
    · simp only [Word.add]
      omega
    · rw [segmentByte, if_neg (Nat.not_lt_zero o), if_neg (Nat.not_lt_zero o)]
  · rw [Word.add_exact _ _ (by omega)]
    refine ⟨⟨by omega, ?_⟩, fun o => rfl⟩
    intro o inside
    refine ⟨half.file _ (by omega) (by omega), ?_⟩
    rintro ⟨k, -, reaches, present, -⟩
    exact absurd (present.symm.trans (half.empty k (image_reaches_low elfImage k reaches))) (by decide)

include built

theorem image_shown (i q : Nat) (loads : Loads h.mem elf i) (inside : q < pagesNeeded (segmentAt h.mem elf i)) :
    ∃ m : Mapping, segments (pageAt (segmentAt h.mem elf i).pVaddr q) = some m ∧
      image (pageAt (segmentAt h.mem elf i).pVaddr q) = some m ∧
      ∀ off, off < 0x1000 → m.bytes off = if 0x1000 * q + off < (segmentAt h.mem elf i).pFilesz then
        h.mem (elf + (segmentAt h.mem elf i).pOffset + (0x1000 * q + off)) else 0 := by
  obtain ⟨place, byte, low⟩ := image_page elfImage loads q inside
  obtain ⟨safe, bytes⟩ := image_file_safe elfImage half i loads
  have all := image_segments elfImage
  have counted : i < segmentCount h.mem elf := all ▸ loads.1
  have small := image_not_large elfImage half (pageAt (segmentAt h.mem elf i).pVaddr q) (by omega)
  have last :
      ∀ i', i < i' → i' < segmentCount h.mem elf → ¬ Covers h.mem elf i' (pageAt (segmentAt h.mem elf i).pVaddr q) := by
    intro i' above within covers
    have same :=
      aligned_one_cover (image_aligned elfImage) i i' _ loads ⟨all ▸ within, covers.1⟩ ⟨loads.2, q, inside, rfl⟩ covers
    omega
  obtain ⟨m, found, -, content⟩ := built.loaded.shown i q counted loads.2 inside small last
  have notStack : pageAt (segmentAt h.mem elf i).pVaddr q ≠ stackBase h.mem elf / 0x1000 := by
    have above := last_end_above elfImage _ i loads.1 loads
    have aligned := elfImage.aligned i loads
    rw [stackBase, all, place]
    rw [low_pages_needed (image_low elfImage) loads] at inside
    simp only [pageEnd] at above
    omega
  refine ⟨m, found, ?_, fun off small => (content safe off small).trans (bytes _)⟩
  rcases built.stackPage with ⟨-, rfl⟩ | ⟨-, m', rfl, -⟩
  · exact found
  · exact (update_of_ne notStack _ _).trans found

theorem image_segment_page (page : Nat) (isSegment : SegmentPage h.mem elf page) :
    ∃ m : Mapping, segments page = some m ∧ image page = some m := by
  obtain ⟨i, j, loads, inside, rfl⟩ := isSegment
  obtain ⟨few, place, -⟩ := aligned_byte (image_aligned elfImage) i j loads inside
  obtain ⟨m, found, shown, -⟩ := image_shown elfImage half built i _ loads few
  rw [(image_page elfImage loads _ few).1, ← place] at found shown
  exact ⟨m, found, shown⟩

theorem image_separate (page page' frame frame' flags flags' : Nat) (isSegment : SegmentPage h.mem elf page)
    (isSegment' : SegmentPage h.mem elf page') (other : page ≠ page')
    (mapped : translate h'.mem new.pd page = some (frame, flags))
    (mapped' : translate h'.mem new.pd page' = some (frame', flags')) : frame ≠ frame' := by
  obtain ⟨m, -, shown⟩ := image_segment_page elfImage half built page isSegment
  obtain ⟨m', -, shown'⟩ := image_segment_page elfImage half built page' isSegment'
  rw [built.pd, (built.loading.mapped page m shown).2.1, Option.some.injEq, Prod.mk.injEq] at mapped
  rw [built.pd, (built.loading.mapped page' m' shown').2.1, Option.some.injEq, Prod.mk.injEq] at mapped'
  rintro rfl
  exact other (built.loading.separate page page' m m' shown shown' (mapped.1.trans mapped'.1.symm))

include lawful

theorem image_content (i j : Nat) (loads : Loads h.mem elf i) (inside : j < (segmentAt h.mem elf i).pMemsz) :
    ∃ frame flags, translate h'.mem new.pd (((segmentAt h.mem elf i).pVaddr + j) / 0x1000) = some (frame, flags) ∧
      h'.mem (p2v frame + ((segmentAt h.mem elf i).pVaddr + j) % 0x1000) =
        (if j < (segmentAt h.mem elf i).pFilesz then h.mem (elf + (segmentAt h.mem elf i).pOffset + j) else 0) ∧
      userAccessible h'.mem new.pd (((segmentAt h.mem elf i).pVaddr + j) / 0x1000) = true := by
  obtain ⟨few, place, off⟩ := aligned_byte (image_aligned elfImage) i j loads inside
  obtain ⟨page, -, low⟩ := image_page elfImage loads _ few
  obtain ⟨m, -, shown, bytes⟩ := image_shown elfImage half built i _ loads few
  rw [page, ← place] at shown
  obtain ⟨-, mapped, -, -, -, content⟩ := built.loading.mapped _ m shown
  rw [built.pd, off]
  refine ⟨m.frame, m.flag, mapped, ?_,
    (loading_allows lawful built.loading _ m shown (half_absent half _ (by omega))).1⟩
  rw [content _ (Nat.mod_lt _ (by decide)), bytes _ (Nat.mod_lt _ (by decide)), Nat.div_add_mod]

theorem taken_apart (f : Nat) (member : f ∈ taken) :
    ∀ block ∈ before.map Heap.pageBlock ++ (big ++ foreign), Apart (f, 0) block := by
  have apart := lawful.apart _ _ built.loading.sound.owned.owner
  have inTaken : (f, 0) ∈ pageBlocks taken := List.mem_map_of_mem member
  obtain ⟨-, rest, -⟩ := List.pairwise_append.mp apart
  obtain ⟨-, ours, across⟩ := List.pairwise_append.mp rest
  intro block inBlocks
  rcases List.mem_append.mp inBlocks with inHeap | inRest
  · obtain ⟨p, inPages, rfl⟩ := List.mem_map.mp inHeap
    obtain ⟨aligned, bound, outside⟩ :=
      taken_page lawful (image_space elfImage half).setting built.loading.sound f member
    have alignedP := p.aligned
    have high := p.high
    have fits := p.fits
    by_contra clash
    have same : p2v f = p.base := by
      simp only [Apart, Heap.pageBlock, v2p, p2v, Word.sub, Word.add, kernelVirtualBase, Heap.pageSize] at *
      omega
    refine (outside p.base ⟨by omega, by omega⟩).2 (built.kept _ ⟨p, inPages, le_refl _, ?_⟩)
    simp only [Heap.pageSize]
    omega
  · rcases List.mem_append.mp inRest with inBig | inForeign
    · exact (across block (List.mem_cons_of_mem _ inBig) (f, 0) (List.mem_append_left _ inTaken)).symm
    · exact (List.pairwise_append.mp ours).2.2 (f, 0) inTaken block inForeign

theorem image_stack : ∃ frame flags, translate h'.mem new.pd (stackBase h.mem elf / 0x1000) = some (frame, flags) ∧
    userAccessible h'.mem new.pd (stackBase h.mem elf / 0x1000) = true ∧
    writable h'.mem new.pd (stackBase h.mem elf / 0x1000) = true ∧
    (∀ block ∈ before.map Heap.pageBlock ++ (big ++ foreign), Apart (frame, 0) block) ∧
    ∀ page frame' flags', SegmentPage h.mem elf page → translate h'.mem new.pd page = some (frame', flags') →
      frame' ≠ frame := by
  have low := image_stack_low elfImage
  rcases built.stackPage with ⟨large, -⟩ | ⟨-, m, updated, flag, fresh⟩
  · exact absurd large (image_not_large elfImage half _ (by change stackBase h.mem elf / 0x1000 < _; omega))
  · have shown : image (stackBase h.mem elf / 0x1000) = some m := by
      rw [updated]
      exact update_self _ _ _
    obtain ⟨-, mapped, -, member, -⟩ := built.loading.mapped _ m shown
    obtain ⟨user, rw'⟩ := loading_allows lawful built.loading _ m shown (half_absent half _ (by omega))
    rw [built.pd]
    refine ⟨m.frame, m.flag, mapped, user, ?_, taken_apart lawful elfImage half built m.frame member, ?_⟩
    · rw [rw', flag]
      decide
    · intro page frame' flags' isSegment mappedPage
      obtain ⟨m', found, shown'⟩ := image_segment_page elfImage half built page isSegment
      rw [(built.loading.mapped page m' shown').2.1, Option.some.injEq, Prod.mk.injEq] at mappedPage
      exact mappedPage.1 ▸ fresh page m' found

theorem built_image :
    ImageBuilt h.mem h'.mem elf kpd new.pd (stackBase h.mem elf) (before.map Heap.pageBlock ++ (big ++ foreign)) where
  content := image_content lawful elfImage half built
  separate := image_separate elfImage half built
  above i loads := by
    rw [stackBase, image_segments elfImage]
    exact last_end_above elfImage _ i loads.1 loads
  reached := by
    rw [stackBase, image_segments elfImage]
    exact last_end_reached elfImage _ (le_refl _)
  stackApart := by
    rintro ⟨i, j, loads, inside, same⟩
    have above := last_end_above elfImage _ i loads.1 loads
    obtain ⟨few, place, -⟩ := aligned_byte (image_aligned elfImage) i j loads inside
    have aligned := elfImage.aligned i loads
    rw [stackBase, image_segments elfImage] at same
    rw [low_pages_needed (image_low elfImage) loads] at few
    simp only [pageEnd] at above
    omega
  stack := image_stack lawful elfImage half built
  kernelHalf := by
    intro k low high
    rw [built.pd]
    rcases built.loading.slots k high with word | ⟨reaches, -⟩
    · exact word
    · have below := image_reaches_low elfImage k reaches
      omega

end Built

theorem build_process_load (A : PageAllocator σ) (sym : Symbols) (elf : Nat) (h h' : Heap.State σ) (new : NewThread)
    (done : buildProcess A sym elf h = .ok (new, h')) :
    ∃ dir s' base h2, A.alloc 0 h.pages = .ok (dir, s') ∧ new.pd = p2v dir ∧
      loadElf A (p2v dir) elf { h with mem := kmemcpy (p2v dir) sym.kernelPageDirectory 0x1000 h.mem, pages := s' } =
        .ok (base, h2) := by
  rw [buildProcess] at done
  split at done
  · cases done
  rename_i dir s' allocDir
  simp only at done
  split at done
  · cases done
  rename_i base h2 elfDone
  refine ⟨dir, s', base, h2, allocDir, ?_, elfDone⟩
  repeat' split at done
  all_goals cases done
  rfl

-- `create_process` gets through when the page allocator has what it asks for, and then the new
-- directory shows the image that the file describes.
theorem process_image {A : PageAllocator σ} {Live : σ → List (Nat × Nat) → Prop} (lawful : A.Lawful Live)
    (sym : Symbols) (elf size : Nat) (Reserved : Nat → Prop) (live foreign big : List (Nat × Nat))
    (pages : List Heap.HeapPage) (k : Kernel σ) (sound : Heap.Sound Live ⟨k.heap, live, foreign⟩ pages big)
    (elfImage : ElfImage k.heap.mem elf size)
    (half : LoadSpace Live k.heap.mem sym.kernelPageDirectory elf size Reserved) :
    (Serves A (requests k.heap.mem elf) k.heap.pages → ∃ thread k', createProcess A sym elf k = .ok (thread, k')) ∧
      ∀ thread k', createProcess A sym elf k = .ok (thread, k') →
        ∃ dir s' base h2, A.alloc 0 k.heap.pages = .ok (dir, s') ∧
        loadElf A (p2v dir) elf
          { k.heap with
            mem := kmemcpy (p2v dir) sym.kernelPageDirectory 0x1000 k.heap.mem, pages := s' } = .ok (base, h2) ∧
        (k'.sched.thread thread).pd = p2v dir ∧
        ImageBuilt k.heap.mem k'.heap.mem elf sym.kernelPageDirectory (p2v dir) base
          (pages.map Heap.pageBlock ++ (big ++ foreign)) := by
  have space := image_space elfImage half
  constructor
  · intro serves
    obtain ⟨new, h', built⟩ := build_process_returns lawful elf (space_headers_safe space) sym k.heap sound rfl rfl
      (fun i page before covers => ⟨page, .inl ⟨i, before, covers⟩, rfl⟩) ⟨_, .inr rfl, rfl⟩ serves
    rw [createProcess, built]
    exact ⟨_, _, rfl⟩
  · intro thread k' done
    obtain ⟨new, result, -, -, pd, -⟩ := create_process_spec A sym elf thread k k' done
    obtain ⟨dir, s', base, h2, alloc, place, loadDone⟩ := build_process_load A sym elf _ _ new result
    obtain ⟨dir', kernelStack, taken, segments, image, pages', built⟩ :=
      build_process_built lawful space sound rfl result
    obtain ⟨last, -⟩ := load_elf_loading lawful (loading_start lawful space.setting sound rfl dir s' alloc) elf
      (space_headers_safe space) (fun i page before covers => ⟨page, .inl ⟨i, before, covers⟩, rfl⟩) base h2 loadDone
    refine ⟨dir, s', base, h2, alloc, loadDone, pd.trans place, ?_⟩
    rw [last, ← place]
    exact built_image lawful elfImage half built

theorem process_image_desk : ∃ h thread k' dir base pages, Heap.initKmalloc pmm (deskHeap 0x8048000) = .ok h ∧
    createProcess pmm deskSymbols deskElf (deskKernel h) = .ok (thread, k') ∧ (k'.sched.thread thread).pd = p2v dir ∧
    ImageBuilt h.mem k'.heap.mem deskElf deskDirectory (p2v dir) base (List.map Heap.pageBlock pages) := by
  obtain ⟨h, pages, booted, ready⟩ := desk_ready 0x8048000
  obtain ⟨magic, offset, count, segment⟩ := desk_header ready (.inl rfl)
  have only (i : Nat) (loads : Loads h.mem deskElf i) : i = 0 := by
    have before := loads.1
    omega
  have elfImage : ElfImage h.mem deskElf 0x1000 := {
    fits := by decide
    header := by decide
    table := by
      rw [offset, count]
      decide
    magic := magic
    file := by
      intro i loads
      rw [only i loads, segment]
      decide
    aligned := by
      intro i loads
      rw [only i loads, segment]
      decide
    filesz := by
      intro i loads
      rw [only i loads, segment]
      decide
    disjoint := fun i i' _ loads loads' other => absurd ((only i loads).trans (only i' loads').symm) other
    room := by
      intro i loads
      rw [only i loads, segment]
      decide }
  have half : LoadSpace DeskLive h.mem deskDirectory deskElf 0x1000 deskReserved := {
    desk_half (desk_entry ready) with
    file := by
      intro x low high
      simp only [deskElf] at low high
      exact ⟨by omega, by omega⟩ }
  obtain ⟨returns, built⟩ :=
    process_image desk_lawful deskSymbols deskElf 0x1000 deskReserved [] [] [] pages (deskKernel h) ready.sound
    elfImage half
  have few : requests h.mem deskElf ≤ 11 := by
    rw [desk_requests ready (.inl rfl)]
    decide
  obtain ⟨thread, k', done⟩ := returns (serves_mono _ _ 11 _ few ready.serves)
  obtain ⟨dir, s', base, h2, -, -, pd, imageBuilt⟩ := built thread k' done
  rw [List.append_nil, List.append_nil] at imageBuilt
  exact ⟨h, thread, k', dir, base, pages, booted, done, pd, imageBuilt⟩

end X86OS.Process
