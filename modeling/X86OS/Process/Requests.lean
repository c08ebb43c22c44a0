import X86OS.Mm.HeapProperties
import X86OS.Process.Building

set_option autoImplicit false

namespace X86OS.Process

open Function Mem Paging

variable {σ : Type}

-- The next `n` requests for a page are granted.
def Serves (A : PageAllocator σ) : Nat → σ → Prop
  | 0, _ => True
  | n + 1, s => ∃ f s', A.alloc 0 s = .ok (f, s') ∧ Serves A n s'

theorem serves_mono (A : PageAllocator σ) (m n : Nat) (s : σ) (few : m ≤ n) (serves : Serves A n s) : Serves A m s := by
  induction m generalizing n s with
  | zero => exact trivial
  | succ m ih =>
      obtain ⟨n, rfl⟩ := Nat.exists_eq_succ_of_ne_zero (show n ≠ 0 by omega)
      obtain ⟨f, s', alloc, rest⟩ := serves
      exact ⟨f, s', alloc, ih n s' (by omega) rest⟩

-- Pages of the segments from `i` on, `n` of them.
def segmentPages (p : Phdr) : Nat := if p.pType = ptLoad then pagesNeeded p else 0

def pagesFrom (mem : Mem) (elf : Nat) : Nat → Nat → Nat
  | 0, _ => 0
  | n + 1, i => segmentPages (segmentAt mem elf i) + pagesFrom mem elf n (i + 1)

-- A frame and perhaps a page table for each page of the image and of the stack, the
-- directory, the kernel's stack and perhaps a page for the heap.
def requests (mem : Mem) (elf : Nat) : Nat := 2 * pagesFrom mem elf (segmentCount mem elf) 0 + 5

section Returns

variable (A : PageAllocator σ) (m : Nat)

theorem map_one_returns (pd f vaddr flag : Nat) (h : Heap.State σ) (bound : vaddr < 2 ^ 32)
    (serves : Serves A (m + 1) h.pages) :
    ∃ h', mapRange A pd f vaddr 1 flag h = .ok h' ∧ Serves A m h'.pages := by
  rw [map_one A pd f vaddr flag h bound]
  by_cases present : isPresent (entry h.mem pd (vaddr / 0x1000 / 1024)) = true
  · rw [if_pos present]
    exact ⟨_, rfl, serves_mono A m (m + 1) _ (by omega) serves⟩
  · obtain ⟨t, s', alloc, rest⟩ := serves
    rw [if_neg present, alloc]
    exact ⟨_, rfl, rest⟩

theorem load_page_returns (pd flags vaddr src i copyRemaining : Nat) (h : Heap.State σ)
    (serves : Serves A (m + 2) h.pages) :
    ∃ rest h', loadPage A pd flags vaddr src i copyRemaining h = .ok (rest, h') ∧ Serves A m h'.pages := by
  obtain ⟨f, s', alloc, more⟩ := serves
  have bound : Word.add vaddr (i <<< 12) < 2 ^ 32 := by
    rw [Word.add]
    exact Nat.mod_lt _ (by decide)
  rw [loadPage, alloc]
  simp only
  generalize (if copyRemaining ≠ 0 then _ else _ : Mem) = filled
  obtain ⟨h', mapped, rest⟩ := map_one_returns A m pd f _ flags { h with mem := filled, pages := s' } bound more
  rw [mapped]
  exact ⟨_, h', rfl, rest⟩

theorem load_pages_returns (pd flags vaddr src n i copyRemaining : Nat) (h : Heap.State σ)
    (serves : Serves A (m + 2 * n) h.pages) :
    ∃ h', loadPages A pd flags vaddr src n i copyRemaining h = .ok h' ∧ Serves A m h'.pages := by
  induction n generalizing i copyRemaining h with
  | zero => exact ⟨h, rfl, serves⟩
  | succ n ih =>
      obtain ⟨rest, h1, round, more⟩ := load_page_returns A (m + 2 * n) pd flags vaddr src i copyRemaining h serves
      rw [loadPages, round]
      exact ih (i + 1) rest h1 more

theorem load_segment_returns (cur pd elf : Nat) (h : Heap.State σ)
    (serves : Serves A (m + 2 * segmentPages (readPhdr h.mem cur)) h.pages) :
    ∃ endsAt h', loadSegment A cur pd elf h = .ok (endsAt, h') ∧ Serves A m h'.pages := by
  rw [loadSegment]
  by_cases load : (readPhdr h.mem cur).pType = ptLoad
  · rw [segmentPages, if_pos load] at serves
    obtain ⟨h', run, rest⟩ := load_pages_returns A m pd (segmentFlags (readPhdr h.mem cur)) (readPhdr h.mem cur).pVaddr
      (Word.add elf (readPhdr h.mem cur).pOffset) _ 0 (readPhdr h.mem cur).pFilesz h serves
    simp only [load, ne_eq, not_true_eq_false, if_false, run]
    exact ⟨_, h', rfl, rest⟩
  · simp only [ne_eq, load, not_false_eq_true, if_true]
    exact ⟨0, h, rfl, serves_mono A m _ _ (by omega) serves⟩

end Returns

section Load

variable {A : PageAllocator σ} {Live : σ → List (Nat × Nat) → Prop} (lawful : A.Lawful Live) {setting : Setting Live}
  {live foreign big : List (Nat × Nat)} {dir : Nat} {pages : List Heap.HeapPage} (m elf : Nat)
  (safe : HeadersSafe setting elf)

include lawful

theorem kernel_stack_returns (sym : Symbols) (entry userEsp : Nat) (h : Heap.State σ)
    (sound : Heap.Sound Live ⟨h, live, foreign⟩ pages big) (serves : Serves A (m + 1) h.pages) :
    ∃ info h', setupKerenlStack A sym entry userEsp h = .ok (info, h') ∧ Serves A m h'.pages := by
  obtain ⟨addr, s', alloc, more⟩ := serves
  have low := (lawful.inRam _ _ (lawful.allocated _ _ _ _ _ sound.owned.owner alloc) (addr, 0) List.mem_cons_self).2
  obtain ⟨h', granted⟩ := Heap.kmalloc_one_page A h addr s' alloc (by simp only at low; omega)
  obtain ⟨addr', alloc', -, -, -⟩ := kmalloc_page_spec lawful sound _ h' granted
  rw [alloc, Except.ok.injEq, Prod.mk.injEq] at alloc'
  rw [setupKerenlStack, granted]
  exact ⟨_, _, rfl, alloc'.2 ▸ more⟩

theorem thread_returns (h : Heap.State σ) (sound : Heap.Sound Live ⟨h, live, foreign⟩ pages big)
    (serves : Serves A 1 h.pages) :
    ∃ thread h', Heap.kmalloc A sizeofThread h = .ok (some thread, h') := by
  rcases Heap.kmalloc_spec lawful h pages _ sizeofThread sound.owned with ⟨none, -⟩ | ⟨e, failed, -⟩ |
    ⟨-, pages', c, h1, result, -⟩ | ⟨-, addr, k, h1, result, -⟩
  · simp [sizeofThread] at none
  · obtain ⟨f, s', alloc, -⟩ := serves
    exact absurd (failed.symm.trans alloc) (by simp)
  · exact ⟨_, h1, result⟩
  · exact ⟨_, h1, result⟩

include safe

theorem load_segments_returns (n i lastAddr : Nat) (image : Nat → Option Mapping) (taken : List Nat) (h : Heap.State σ)
    (loading : Loading setting live foreign dir taken image pages big h) (header : i + n = ePhnum setting.mem elf)
    (opened : ∀ k page, k < ePhnum setting.mem elf → Covers setting.mem elf k page → setting.Open (page / 1024))
    (loaded : Loaded setting elf i image) (serves : Serves A (m + 2 * pagesFrom setting.mem elf n i) h.pages) :
    ∃ result h', loadSegments A (Word.add elf (ePhoff setting.mem elf)) (p2v dir) elf n i lastAddr h =
      .ok (result, h') ∧
      Serves A m h'.pages := by
  induction n generalizing i lastAddr image taken h with
  | zero => exact ⟨lastAddr, h, rfl, serves⟩
  | succ n ih =>
      rw [pagesFrom, ← loading_header loading elf i safe (by omega)] at serves
      obtain ⟨endsAt, h1, round, more⟩ := load_segment_returns A (m + 2 * pagesFrom setting.mem elf n (i + 1))
        (Word.add (Word.add elf (ePhoff setting.mem elf)) (sizeofPhdr * i)) (p2v dir) elf h
          (serves_mono A _ _ _ (by omega) serves)
      obtain ⟨-, taken1, image1, loading1, -, loaded1⟩ :=
        load_segment_loading lawful loading elf i safe (by omega) (fun page => opened i page (by omega))
          loaded endsAt h1 round
      rw [loadSegments, round]
      exact ih (i + 1) _ image1 taken1 h1 loading1 (by omega) loaded1 more

theorem load_elf_returns (taken : List Nat) (h : Heap.State σ)
    (loading : Loading setting live foreign dir taken (fun _ => none) pages big h)
    (opened : ∀ k page, k < segmentCount setting.mem elf → Covers setting.mem elf k page → setting.Open (page / 1024))
    (serves : Serves A (m + 2 * pagesFrom setting.mem elf (segmentCount setting.mem elf) 0) h.pages) :
    ∃ result h', loadElf A (p2v dir) elf h = .ok (result, h') ∧ Serves A m h'.pages := by
  obtain ⟨magic, offset, count⟩ := loading_elf_header loading elf safe
  rw [loadElf, magic, offset, count]
  by_cases valid : hasMagic setting.mem elf = true
  · have all : segmentCount setting.mem elf = ePhnum setting.mem elf := if_pos valid
    rw [all] at opened serves
    rw [if_pos valid]
    exact load_segments_returns lawful m elf safe _ 0 0 _ taken h loading (Nat.zero_add _) opened
      (nothing_loaded setting elf) serves
  · rw [if_neg valid]
    exact ⟨0, h, rfl, serves_mono A m _ _ (by omega) serves⟩

theorem build_process_returns (sym : Symbols) (h : Heap.State σ) (sound : Heap.Sound Live ⟨h, live, foreign⟩ pages big)
    (mem : setting.mem = h.mem) (directory : setting.kpd = sym.kernelPageDirectory)
    (opened : ∀ k page, k < segmentCount setting.mem elf → Covers setting.mem elf k page → setting.Open (page / 1024))
    (stackOpen : setting.Open (stackBase setting.mem elf / 0x1000 / 1024))
    (serves : Serves A (requests setting.mem elf) h.pages) :
    ∃ new h', buildProcess A sym elf h = .ok (new, h') := by
  obtain ⟨dir, s1, allocDir, serves1⟩ := serves
  have start := loading_start lawful setting sound mem dir s1 allocDir
  rw [buildProcess, ← directory, allocDir]
  simp only
  obtain ⟨base, h2, elfDone, userStack, s3, allocStack, serves3⟩ :=
    load_elf_returns lawful 4 elf safe [dir] _ start opened
    (serves_mono A _ _ _ (by omega) serves1)
  obtain ⟨rfl, taken2, segments, loading2, -⟩ := load_elf_loading lawful start elf safe opened base h2 elfDone
  obtain ⟨loading3, idle⟩ := loading_take lawful loading2 s3 userStack allocStack
  rw [elfDone]
  simp only [allocStack]
  obtain ⟨h4, mapDone, serves4⟩ :=
    map_one_returns A 2 (p2v dir) userStack (stackBase setting.mem elf) (pageUser ||| pagePresent ||| pageRw)
    { h2 with pages := s3 } (last_end_bound _ _ _) serves3
  obtain ⟨taken4, image, loading4, -⟩ := loading_map lawful loading3 userStack _ _ List.mem_cons_self idle
    (last_end_bound _ _ _) stackOpen (.inr rfl) h4 mapDone
  rw [mapDone]
  simp only
  obtain ⟨info, h5, stackDone, serves5⟩ := kernel_stack_returns lawful 1 sym (eEntry h2.mem elf)
    (Word.add (stackBase setting.mem elf) 0x1000) h4 loading4.sound serves4
  obtain ⟨kernelStack, -, -, sound5, -⟩ := kernel_stack_spec lawful sym loading4.sound _ _ info h5 stackDone
  obtain ⟨thread, h6, threadDone⟩ := thread_returns lawful h5 sound5 serves5
  rw [stackDone]
  simp only [threadDone]
  exact ⟨_, _, rfl⟩

end Load

end X86OS.Process
