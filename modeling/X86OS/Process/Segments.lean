import X86OS.Process.Loading

set_option autoImplicit false

namespace X86OS.Process

open Function Mem Paging

variable {σ : Type}

-- The virtual page of round `i` of a segment.
def pageAt (vaddr i : Nat) : Nat := Word.add vaddr (i <<< 12) / 0x1000

theorem page_at_eq (vaddr i : Nat) : pageAt vaddr i = (vaddr / 0x1000 + i) % 2 ^ 20 := by
  simp only [pageAt, Word.add, Nat.shiftLeft_eq]
  omega

theorem page_at_inj (vaddr i j : Nat) (smallI : i < 2 ^ 20) (smallJ : j < 2 ^ 20)
    (same : pageAt vaddr i = pageAt vaddr j) : i = j := by
  rw [page_at_eq, page_at_eq] at same
  omega

-- Byte `o` of a segment in memory.
def segmentByte (mem : Mem) (src filesz o : Nat) : UInt8 := if o < filesz then mem (src + o) else 0

section Load

variable {A : PageAllocator σ} {Live : σ → List (Nat × Nat) → Prop} (lawful : A.Lawful Live) {setting : Setting Live}
  {live foreign big : List (Nat × Nat)} {dir : Nat} {taken : List Nat} {image : Nat → Option Mapping}
  {pages : List Heap.HeapPage} {h : Heap.State σ}

-- The file's bytes are where no frame comes from and no entry is written.
def FileSafe (setting : Setting Live) (src filesz : Nat) : Prop :=
  src + filesz ≤ 2 ^ 32 ∧ ∀ o, o < filesz → setting.Reserved (src + o) ∧ ¬ setting.Writable (src + o)

include lawful

theorem fill_page (loading : Loading setting live foreign dir taken image pages big h) (f src i filesz : Nat)
    (member : f ∈ taken) (mem' : Mem) (copying : Nat)
    (filled : mem' = if filesz - 0x1000 * i ≠ 0 then kmemcpy (p2v f) (Word.add src (i <<< 12)) copying
      (kmemset (p2v f) 0 0x1000 h.mem) else kmemset (p2v f) 0 0x1000 h.mem)
    (amount : copying = if filesz - 0x1000 * i > 0x1000 then 0x1000 else filesz - 0x1000 * i) :
    (∀ x, ¬ InPage (p2v f) x → mem' x = h.mem x) ∧
      (FileSafe setting src filesz → ∀ off, off < 0x1000 →
        mem' (p2v f + off) = segmentByte setting.mem src filesz (0x1000 * i + off)) := by
  have zeroed (off : Nat) (inside : off < 0x1000) : kmemset (p2v f) 0 0x1000 h.mem (p2v f + off) = 0 := by
    rw [kmemset_eq_fill]
    exact fill_inside _ _ _ _ _ (by omega) (by omega)
  have framed (x : Nat) (outside : ¬ InPage (p2v f) x) : kmemset (p2v f) 0 0x1000 h.mem x = h.mem x := by
    rw [kmemset_eq_fill]
    apply fill_frame
    simp only [InPage] at outside
    omega
  have few : copying ≤ 0x1000 := by
    rw [amount]
    split <;> omega
  constructor
  · intro x outside
    rw [filled]
    split
    · rw [kmemcpy_frame _ _ _ _ _ (by simp only [InPage] at outside; omega), framed x outside]
    · exact framed x outside
  · rintro ⟨fits, safe⟩ off inside
    rw [filled, segmentByte]
    by_cases more : filesz - 0x1000 * i ≠ 0
    · have place : Word.add src (i <<< 12) = src + 0x1000 * i := by
        rw [Nat.shiftLeft_eq, Word.add_exact _ _ (by omega)]
        omega
      have source (o : Nat) (within : o < copying) : ¬ InPage (p2v f) (src + 0x1000 * i + o) ∧
          h.mem (src + 0x1000 * i + o) = setting.mem (src + 0x1000 * i + o) := by
        have bound : 0x1000 * i + o < filesz := by
          rw [amount] at within
          split at within <;> omega
        have byte := safe (0x1000 * i + o) bound
        rw [← Nat.add_assoc] at byte
        exact ⟨fun inPage => ((taken_page lawful setting loading.sound f member).2.2 _ inPage).1 byte.1,
          loading.reserved _ byte.1 byte.2⟩
      have forward : ForwardSafe (p2v f) (src + 0x1000 * i) copying := by
        by_contra overlapping
        simp only [ForwardSafe, not_or, not_le] at overlapping
        have clash := (source (p2v f - (src + 0x1000 * i)) (by omega)).1
        rw [Nat.add_sub_cancel' (by omega)] at clash
        exact clash ⟨Nat.le_refl _, by omega⟩
      rw [if_pos more, place, kmemcpy_eq_copy _ _ _ _ forward]
      by_cases copied : off < copying
      · rw [copy_inside _ _ _ _ _ copied, framed _ (source off copied).1, (source off copied).2, if_pos, Nat.add_assoc]
        rw [amount] at copied
        split at copied <;> omega
      · rw [copy_frame _ _ _ _ _ (by omega), zeroed off inside, if_neg]
        rw [amount] at copied
        split at copied <;> omega
    · rw [if_neg more, zeroed off inside, if_neg (by omega)]

theorem load_page_parts (loading : Loading setting live foreign dir taken image pages big h)
    (flags vaddr src i filesz rest : Nat) (h' : Heap.State σ)
    (done : loadPage A (p2v dir) flags vaddr src i (filesz - 0x1000 * i) h = .ok (rest, h')) :
    rest = filesz - 0x1000 * (i + 1) ∧ ∃ f s' mem', A.alloc 0 h.pages = .ok (f, s') ∧
      Loading setting live foreign dir (f :: taken) image pages big { h with mem := mem', pages := s' } ∧
      Idle dir image { h with mem := mem', pages := s' } f ∧
      mapRange A (p2v dir) f (Word.add vaddr (i <<< 12)) 1 flags { h with mem := mem', pages := s' } = .ok h' ∧
      (∀ x, ¬ InPage (p2v f) x → mem' x = h.mem x) ∧
      (FileSafe setting src filesz → ∀ off, off < 0x1000 →
        mem' (p2v f + off) = segmentByte setting.mem src filesz (0x1000 * i + off)) := by
  rw [loadPage] at done
  cases alloc : A.alloc 0 h.pages with
  | error e =>
      rw [alloc] at done
      cases done
  | ok result =>
      obtain ⟨f, s'⟩ := result
      rw [alloc] at done
      simp only at done
      obtain ⟨took, idle⟩ := loading_take lawful loading s' f alloc
      generalize amount : (if filesz - 0x1000 * i > 0x1000 then 0x1000 else filesz - 0x1000 * i) = copying at done
      generalize filled : (if filesz - 0x1000 * i ≠ 0 then
        kmemcpy (p2v f) (Word.add src (i <<< 12)) copying (kmemset (p2v f) 0 0x1000 h.mem)
          else kmemset (p2v f) 0 0x1000 h.mem) = mem' at done
      obtain ⟨framed, bytes⟩ :=
        fill_page lawful took f src i filesz List.mem_cons_self mem' copying filled.symm amount.symm
      have ready := loading_fill lawful took f List.mem_cons_self idle mem' framed
      have idle' : Idle dir image { h with mem := mem', pages := s' } f := by
        obtain ⟨alignedD, boundD, -⟩ := taken_page lawful setting took.sound dir took.dirTaken
        obtain ⟨alignedF, boundF, -⟩ := taken_page lawful setting took.sound f List.mem_cons_self
        have word (k : Nat) (smallK : k < 1024) : entry mem' (p2v dir) k = entry h.mem (p2v dir) k :=
          entry_congr _ _ _ _ smallK
            (fun x inDir => framed x (frames_apart dir f x alignedD alignedF boundD boundF idle.notDir.symm inDir))
        refine ⟨idle.notDir, ?_, idle.unmapped⟩
        intro k smallK small same
        exact idle.noTable k smallK ((small_congr _ _ _ _ (word k smallK)).mp small)
          ((frame_of_congr _ _ _ _ (word k smallK)).symm.trans same)
      cases mapped : mapRange A (p2v dir) f (Word.add vaddr (i <<< 12)) 1 flags { h with mem := mem', pages := s' } with
      | error e =>
          rw [mapped] at done
          cases done
      | ok h1 =>
          rw [mapped, Except.ok.injEq, Prod.mk.injEq] at done
          obtain ⟨remaining, rfl⟩ := done
          refine ⟨?_, f, s', mem', rfl, ready, idle', mapped, framed, bytes⟩
          rw [← remaining, ← amount]
          split <;> omega

theorem load_page_loading (loading : Loading setting live foreign dir taken image pages big h)
    (flags vaddr src i filesz : Nat) (user : UserFlags flags) (opened : setting.Open (pageAt vaddr i / 1024))
    (rest : Nat) (h' : Heap.State σ)
    (done : loadPage A (p2v dir) flags vaddr src i (filesz - 0x1000 * i) h = .ok (rest, h')) :
    rest = filesz - 0x1000 * (i + 1) ∧
      ∃ taken' image', Loading setting live foreign dir taken' image' pages big h' ∧ taken ⊆ taken' ∧
      ((setting.Large (pageAt vaddr i) ∧ image' = image) ∨
        (¬ setting.Large (pageAt vaddr i) ∧
          ∃ m : Mapping, image' = update image (pageAt vaddr i) (some m) ∧ m.flag = flags ∧
          (FileSafe setting src filesz →
            ∀ off, off < 0x1000 → m.bytes off = segmentByte setting.mem src filesz (0x1000 * i + off)))) := by
  obtain ⟨remaining, f, s', mem', -, ready, idle, mapped, -, bytes⟩ :=
    load_page_parts lawful loading flags vaddr src i filesz rest h' done
  have bound : Word.add vaddr (i <<< 12) < 2 ^ 32 := by
    rw [Word.add]
    exact Nat.mod_lt _ (by decide)
  obtain ⟨taken', image', after, grown, entered⟩ :=
    loading_map lawful ready f _ flags List.mem_cons_self idle bound opened user h' mapped
  refine ⟨remaining, taken', image', after, fun g inTaken => grown (List.mem_cons_of_mem _ inTaken), ?_⟩
  rcases entered with skipped | ⟨small, m, updated, -, flag, content⟩
  · exact .inl skipped
  · refine .inr ⟨small, m, updated, flag, ?_⟩
    intro safe off inside
    rw [content off inside]
    exact bytes safe off inside

-- What rounds `i` to `i + n` of a segment do to the image.
omit lawful in
structure Covered (setting : Setting Live) (image image' : Nat → Option Mapping)
    (flags vaddr src filesz i n : Nat) : Prop where
  outside : ∀ page, (∀ j, i ≤ j → j < i + n → pageAt vaddr j ≠ page) → image' page = image page
  large : ∀ page, setting.Large page → image' page = image page
  inside : ∀ j, i ≤ j → j < i + n → ¬ setting.Large (pageAt vaddr j) →
    ∃ m : Mapping, image' (pageAt vaddr j) = some m ∧ m.flag = flags ∧
    (FileSafe setting src filesz → ∀ off, off < 0x1000 →
      m.bytes off = segmentByte setting.mem src filesz (0x1000 * j + off))

-- Induction on the rounds left; the pages of one segment differ, so a later round leaves an
-- earlier page alone.
theorem load_pages_loading (flags vaddr src filesz n i : Nat) (image : Nat → Option Mapping) (taken : List Nat)
    (h : Heap.State σ) (loading : Loading setting live foreign dir taken image pages big h) (user : UserFlags flags)
    (few : i + n ≤ 2 ^ 20) (opened : ∀ j, i ≤ j → j < i + n → setting.Open (pageAt vaddr j / 1024)) (h' : Heap.State σ)
    (done : loadPages A (p2v dir) flags vaddr src n i (filesz - 0x1000 * i) h = .ok h') :
    ∃ taken' image', Loading setting live foreign dir taken' image' pages big h' ∧ taken ⊆ taken' ∧
      Covered setting image image' flags vaddr src filesz i n := by
  induction n generalizing i image taken h with
  | zero =>
      rw [loadPages, Except.ok.injEq] at done
      subst done
      exact ⟨taken, image, loading, fun _ member => member, fun _ _ => rfl, fun _ _ => rfl, fun j low high => by omega⟩
  | succ n ih =>
      rw [loadPages] at done
      cases round : loadPage A (p2v dir) flags vaddr src i (filesz - 0x1000 * i) h with
      | error e =>
          rw [round] at done
          cases done
      | ok result =>
          obtain ⟨rest, h1⟩ := result
          rw [round] at done
          simp only at done
          obtain ⟨remaining, taken1, image1, loading1, grown1, entered⟩ :=
            load_page_loading lawful loading flags vaddr src i filesz user
              (opened i (by omega) (by omega)) rest h1 round
          rw [remaining] at done
          obtain ⟨taken', image', loading', grown, covered⟩ :=
            ih (i + 1) image1 taken1 h1 loading1 (by omega) (fun j low high => opened j (by omega) (by omega)) done
          have later (j : Nat) (low : i + 1 ≤ j) (high : j < i + 1 + n) : pageAt vaddr j ≠ pageAt vaddr i := by
            intro same
            have := page_at_inj vaddr j i (by omega) (by omega) same
            omega
          have first : ∀ page, page ≠ pageAt vaddr i ∨ setting.Large page → image1 page = image page := by
            intro page which
            rcases entered with ⟨-, rfl⟩ | ⟨small, m, rfl, -⟩
            · rfl
            · rcases which with other | isLarge
              · exact update_of_ne other _ _
              · exact update_of_ne (fun same : page = pageAt vaddr i => small (same ▸ isLarge)) _ _
          refine ⟨taken', image', loading', fun f member => grown (grown1 member), ?_, ?_, ?_⟩
          · intro page unhit
            rw [covered.outside page (fun j low high => unhit j (by omega) (by omega)),
              first page (.inl (Ne.symm (unhit i (by omega) (by omega))))]
          · intro page isLarge
            rw [covered.large page isLarge, first page (.inr isLarge)]
          · intro j low high small
            rcases Nat.lt_or_eq_of_le low with above | rfl
            · exact covered.inside j above (by omega) small
            · rw [covered.outside (pageAt vaddr i) later]
              rcases entered with ⟨isLarge, -⟩ | ⟨-, m, rfl, flag, bytes⟩
              · exact absurd isLarge small
              · exact ⟨m, update_self _ _ _, flag, bytes⟩

end Load

theorem pages_needed_bound (p : Phdr) : pagesNeeded p < 2 ^ 20 := by
  rw [pagesNeeded, show (0x1000 : Nat) = 2 ^ 12 from rfl, align_up_eq _ _ (by decide), Nat.shiftRight_eq_div_pow,
    Nat.mul_div_cancel _ (by decide)]
  omega

theorem segment_flags_user (p : Phdr) : UserFlags (segmentFlags p) := by
  rw [segmentFlags]
  split
  · exact .inr rfl
  · exact .inl rfl

-- The header of segment `i`.
def segmentAt (mem : Mem) (elf i : Nat) : Phdr :=
  readPhdr mem (Word.add (Word.add elf (ePhoff mem elf)) (sizeofPhdr * i))

-- Where the pages of a segment end; headers of another type count nothing.
def segmentEnd (p : Phdr) : Nat := if p.pType = ptLoad then Word.add p.pVaddr (pagesNeeded p <<< 12) else 0

-- The largest end among the first `n` segments.
def lastEnd (mem : Mem) (elf : Nat) : Nat → Nat
  | 0 => 0
  | n + 1 => max (lastEnd mem elf n) (segmentEnd (segmentAt mem elf n))

-- A file without the magic number has no segments for the loader.
def segmentCount (mem : Mem) (elf : Nat) : Nat := if hasMagic mem elf then ePhnum mem elf else 0

def stackBase (mem : Mem) (elf : Nat) : Nat := lastEnd mem elf (segmentCount mem elf)

-- Segment `i` has `page` among its pages.
def Covers (mem : Mem) (elf i page : Nat) : Prop :=
  (segmentAt mem elf i).pType = ptLoad ∧
    ∃ j < pagesNeeded (segmentAt mem elf i), page = pageAt (segmentAt mem elf i).pVaddr j

-- The bytes of the ELF header and of the program headers.
def HeaderByte (mem : Mem) (elf x : Nat) : Prop :=
  (elf ≤ x ∧ x < elf + 52) ∨ ∃ i < ePhnum mem elf, Word.add (Word.add elf (ePhoff mem elf)) (sizeofPhdr * i) ≤ x ∧
    x < Word.add (Word.add elf (ePhoff mem elf)) (sizeofPhdr * i) + sizeofPhdr

theorem read_phdr_congr (mem mem' : Mem) (a : Nat) (same : ∀ x, a ≤ x → x < a + sizeofPhdr → mem' x = mem x) :
    readPhdr mem' a = readPhdr mem a := by
  have word (o : Nat) (inside : o + 4 ≤ 32) : mem'.readWord (a + o) = mem.readWord (a + o) :=
    read_word_congr _ _ _ (fun x low high => same x (by omega) (by simp only [sizeofPhdr]; omega))
  simp only [readPhdr, word 4 (by omega), word 8 (by omega), word 16 (by omega), word 20 (by omega), word 24 (by omega)]
  rw [show mem'.readWord a = mem.readWord a from word 0 (by omega)]

theorem elf_header_congr (mem mem' : Mem) (elf : Nat) (same : ∀ x, elf ≤ x → x < elf + 52 → mem' x = mem x) :
    hasMagic mem' elf = hasMagic mem elf ∧ ePhoff mem' elf = ePhoff mem elf ∧ ePhnum mem' elf = ePhnum mem elf := by
  have byte (o : Nat) (inside : o < 52) : mem' (elf + o) = mem (elf + o) := same _ (by omega) (by omega)
  refine ⟨?_, ?_, ?_⟩
  · simp only [hasMagic, eIdent, List.range, List.range.loop, List.all_cons, List.all_nil, byte 0 (by omega),
      byte 1 (by omega), byte 2 (by omega), byte 3 (by omega)]
  · exact read_word_congr _ _ _ (fun x low high => same x (by omega) (by omega))
  · simp only [ePhnum, readHalf, Nat.add_assoc, byte 44 (by omega), byte 45 (by omega)]

section Elf

variable {A : PageAllocator σ} {Live : σ → List (Nat × Nat) → Prop} (lawful : A.Lawful Live) {setting : Setting Live}
  {live foreign big : List (Nat × Nat)} {dir : Nat} {taken : List Nat} {image : Nat → Option Mapping}
  {pages : List Heap.HeapPage} {h : Heap.State σ}

-- The loader overwrites no header.
def HeadersSafe (setting : Setting Live) (elf : Nat) : Prop :=
  ∀ x, HeaderByte setting.mem elf x → setting.Reserved x ∧ ¬ setting.Writable x

-- Page `j` of segment `i` shows the file.
def Shows (setting : Setting Live) (elf : Nat) (image : Nat → Option Mapping) (i j : Nat) : Prop :=
  let p := segmentAt setting.mem elf i
  ∃ m : Mapping, image (pageAt p.pVaddr j) = some m ∧ m.flag = segmentFlags p ∧
    (FileSafe setting (Word.add elf p.pOffset) p.pFilesz →
      ∀ off, off < 0x1000 → m.bytes off = segmentByte setting.mem (Word.add elf p.pOffset) p.pFilesz (0x1000 * j + off))

-- The image after the first `n` segments: a page shows the last of them that covers it.
structure Loaded (setting : Setting Live) (elf n : Nat) (image : Nat → Option Mapping) : Prop where
  covered : ∀ page m, image page = some m → ¬ setting.Large page ∧ ∃ i < n, Covers setting.mem elf i page
  shown : ∀ i j, i < n → (segmentAt setting.mem elf i).pType = ptLoad → j < pagesNeeded (segmentAt setting.mem elf i) →
    ¬ setting.Large (pageAt (segmentAt setting.mem elf i).pVaddr j) →
    (∀ i', i < i' → i' < n → ¬ Covers setting.mem elf i' (pageAt (segmentAt setting.mem elf i).pVaddr j)) →
      Shows setting elf image i j

theorem nothing_loaded (setting : Setting Live) (elf : Nat) : Loaded setting elf 0 (fun _ => none) :=
  ⟨fun _ _ found => (Option.some_ne_none _ found.symm).elim, fun _ _ before => (Nat.not_lt_zero _ before).elim⟩

theorem loading_header (loading : Loading setting live foreign dir taken image pages big h) (elf i : Nat)
    (safe : HeadersSafe setting elf) (header : i < ePhnum setting.mem elf) :
    readPhdr h.mem (Word.add (Word.add elf (ePhoff setting.mem elf)) (sizeofPhdr * i)) =
      segmentAt setting.mem elf i := by
  apply read_phdr_congr
  intro x low high
  obtain ⟨reserved, fixed⟩ := safe x (.inr ⟨i, header, low, high⟩)
  exact loading.reserved x reserved fixed

theorem loading_elf_header (loading : Loading setting live foreign dir taken image pages big h) (elf : Nat)
    (safe : HeadersSafe setting elf) :
    hasMagic h.mem elf = hasMagic setting.mem elf ∧ ePhoff h.mem elf = ePhoff setting.mem elf ∧
      ePhnum h.mem elf = ePhnum setting.mem elf := by
  apply elf_header_congr
  intro x low high
  obtain ⟨reserved, fixed⟩ := safe x (.inl ⟨low, high⟩)
  exact loading.reserved x reserved fixed

include lawful

theorem load_segment_loading (loading : Loading setting live foreign dir taken image pages big h) (elf i : Nat)
    (safe : HeadersSafe setting elf) (header : i < ePhnum setting.mem elf)
    (opened : ∀ page, Covers setting.mem elf i page → setting.Open (page / 1024)) (loaded : Loaded setting elf i image)
    (endsAt : Nat) (h' : Heap.State σ)
    (done : loadSegment A (Word.add (Word.add elf (ePhoff setting.mem elf)) (sizeofPhdr * i)) (p2v dir) elf h =
      .ok (endsAt, h')) :
    endsAt = segmentEnd (segmentAt setting.mem elf i) ∧
      ∃ taken' image', Loading setting live foreign dir taken' image' pages big h' ∧
      taken ⊆ taken' ∧ Loaded setting elf (i + 1) image' := by
  rw [loadSegment] at done
  simp only [loading_header loading elf i safe header] at done
  by_cases load : (segmentAt setting.mem elf i).pType = ptLoad
  · rw [if_neg (not_not.mpr load)] at done
    cases run : loadPages A (p2v dir) (segmentFlags (segmentAt setting.mem elf i)) (segmentAt setting.mem elf i).pVaddr
        (Word.add elf (segmentAt setting.mem elf i).pOffset) (pagesNeeded (segmentAt setting.mem elf i)) 0
        (segmentAt setting.mem elf i).pFilesz h with
    | error e =>
        rw [run] at done
        cases done
    | ok h1 =>
        rw [run] at done
        have few := pages_needed_bound (segmentAt setting.mem elf i)
        obtain ⟨taken', image', loading', grown, covered⟩ :=
          load_pages_loading lawful _ _ _ (segmentAt setting.mem elf i).pFilesz _ 0 image
          taken h loading (segment_flags_user _) (by omega) (fun j low high => opened _ ⟨load, j, by omega, rfl⟩) h1 run
        simp only [loading_header loading' elf i safe header, Except.ok.injEq, Prod.mk.injEq] at done
        obtain ⟨rfl, rfl⟩ := done
        refine ⟨(if_pos load).symm, taken', image', loading', grown, ?_, ?_⟩
        · intro page m found
          by_cases hit : Covers setting.mem elf i page
          · refine ⟨fun isLarge => ?_, i, by omega, hit⟩
            rw [covered.large page isLarge] at found
            exact (loaded.covered page m found).1 isLarge
          · rw [covered.outside page (fun j _ high same => hit ⟨load, j, by omega, same.symm⟩)] at found
            obtain ⟨small, i', before, covers⟩ := loaded.covered page m found
            exact ⟨small, i', by omega, covers⟩
        · intro i' j before isLoad inside small last
          rcases Nat.lt_succ_iff_lt_or_eq.mp before with earlier | rfl
          · obtain ⟨m, found, rest⟩ :=
              loaded.shown i' j earlier isLoad inside small (fun k low high => last k low (by omega))
            refine ⟨m, ?_, rest⟩
            rw [covered.outside _ (fun j' _ high same => last i earlier (by omega) ⟨load, j', by omega, same.symm⟩),
              found]
          · exact covered.inside j (by omega) (by omega) small
  · rw [if_pos load, Except.ok.injEq, Prod.mk.injEq] at done
    obtain ⟨rfl, rfl⟩ := done
    refine ⟨(if_neg load).symm, taken, image, loading, fun _ member => member, ?_, ?_⟩
    · intro page m found
      obtain ⟨small, i', before, covers⟩ := loaded.covered page m found
      exact ⟨small, i', by omega, covers⟩
    · intro i' j before isLoad inside small last
      rcases Nat.lt_succ_iff_lt_or_eq.mp before with earlier | rfl
      · exact loaded.shown i' j earlier isLoad inside small (fun k low high => last k low (by omega))
      · exact absurd isLoad load

theorem load_segments_loading (elf n i : Nat) (image : Nat → Option Mapping) (taken : List Nat) (h : Heap.State σ)
    (loading : Loading setting live foreign dir taken image pages big h) (safe : HeadersSafe setting elf)
    (header : i + n = ePhnum setting.mem elf)
    (opened : ∀ k page, k < ePhnum setting.mem elf → Covers setting.mem elf k page → setting.Open (page / 1024))
    (loaded : Loaded setting elf i image) (result : Nat) (h' : Heap.State σ)
    (done : loadSegments A (Word.add elf (ePhoff setting.mem elf)) (p2v dir) elf n i (lastEnd setting.mem elf i) h =
      .ok (result, h')) :
    result = lastEnd setting.mem elf (i + n) ∧
      ∃ taken' image', Loading setting live foreign dir taken' image' pages big h' ∧
      taken ⊆ taken' ∧ Loaded setting elf (i + n) image' := by
  induction n generalizing i image taken h with
  | zero =>
      rw [loadSegments, Except.ok.injEq, Prod.mk.injEq] at done
      obtain ⟨rfl, rfl⟩ := done
      exact ⟨rfl, taken, image, loading, fun _ member => member, loaded⟩
  | succ n ih =>
      rw [loadSegments] at done
      cases run : loadSegment A (Word.add (Word.add elf (ePhoff setting.mem elf)) (sizeofPhdr * i)) (p2v dir) elf h with
      | error e =>
          rw [run] at done
          cases done
      | ok segment =>
          obtain ⟨endsAt, h1⟩ := segment
          rw [run] at done
          obtain ⟨rfl, taken1, image1, loading1, grown1, loaded1⟩ :=
            load_segment_loading lawful loading elf i safe (by omega) (fun page => opened i page (by omega))
              loaded endsAt h1 run
          have larger : (if segmentEnd (segmentAt setting.mem elf i) > lastEnd setting.mem elf i
              then segmentEnd (segmentAt setting.mem elf i) else lastEnd setting.mem elf i) =
              lastEnd setting.mem elf (i + 1) := by
            rw [lastEnd]
            split <;> omega
          simp only [larger] at done
          obtain ⟨last, taken', image', loading', grown, loaded'⟩ :=
            ih (i + 1) image1 taken1 h1 loading1 (by omega) loaded1 done
          rw [show i + 1 + n = i + (n + 1) by omega] at last loaded'
          exact ⟨last, taken', image', loading', fun f member => grown (grown1 member), loaded'⟩

theorem load_elf_loading (loading : Loading setting live foreign dir taken (fun _ => none) pages big h) (elf : Nat)
    (safe : HeadersSafe setting elf)
    (opened : ∀ k page, k < segmentCount setting.mem elf → Covers setting.mem elf k page → setting.Open (page / 1024))
    (result : Nat) (h' : Heap.State σ) (done : loadElf A (p2v dir) elf h = .ok (result, h')) :
    result = stackBase setting.mem elf ∧ ∃ taken' image', Loading setting live foreign dir taken' image' pages big h' ∧
      taken ⊆ taken' ∧ Loaded setting elf (segmentCount setting.mem elf) image' := by
  obtain ⟨magic, offset, count⟩ := loading_elf_header loading elf safe
  have empty := nothing_loaded setting elf
  rw [loadElf, magic, offset, count] at done
  rw [stackBase]
  by_cases valid : hasMagic setting.mem elf = true
  · have all : segmentCount setting.mem elf = ePhnum setting.mem elf := if_pos valid
    rw [if_pos valid] at done
    rw [all] at opened ⊢
    obtain ⟨last, rest⟩ :=
      load_segments_loading lawful elf _ 0 _ taken h loading safe (Nat.zero_add _) opened empty result h' done
    rw [Nat.zero_add] at last rest
    exact ⟨last, rest⟩
  · have none : segmentCount setting.mem elf = 0 := if_neg valid
    rw [if_neg valid, Except.ok.injEq, Prod.mk.injEq] at done
    obtain ⟨rfl, rfl⟩ := done
    rw [none]
    exact ⟨rfl, taken, _, loading, fun _ member => member, empty⟩

end Elf

end X86OS.Process
