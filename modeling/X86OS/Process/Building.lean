import X86OS.Process.Segments

set_option autoImplicit false

namespace X86OS.Process

open Function Machine Mem Paging

variable {σ : Type}

section Parts

variable {A : PageAllocator σ} {Live : σ → List (Nat × Nat) → Prop} (lawful : A.Lawful Live) (sym : Symbols)
  {live foreign big : List (Nat × Nat)} {pages : List Heap.HeapPage} {h : Heap.State σ}

include lawful

theorem page_stack_frame (addr x : Nat) (words : List Nat) (mem : Mem) (s : σ) (blocks : List (Nat × Nat))
    (held : Live s blocks) (member : (addr, 0) ∈ blocks) (few : words.length ≤ 1024) (outside : ¬ InPage (p2v addr) x) :
    (pushWords words (Word.add (p2v addr) 0x1000) mem).2 x = mem x := by
  obtain ⟨-, -, bound⟩ := Heap.live_high lawful s blocks addr 0 held member
  have top : Word.add (p2v addr) 0x1000 = (p2v addr + 0x1000) % 2 ^ 32 := by rw [Word.add, Nat.add_comm]
  rw [top]
  simp only [InPage] at outside
  exact push_words_frame words _ x mem (by omega) (by omega) (by omega)

theorem sound_block_write (sound : Heap.Sound Live ⟨h, live, foreign⟩ pages big) (addr : Nat) (mem' : Mem)
    (member : (addr, 0) ∈ big ++ foreign) (same : ∀ x, ¬ InPage (p2v addr) x → mem' x = h.mem x) :
    Heap.Sound Live ⟨{ h with mem := mem' }, live, foreign⟩ pages big := by
  apply sound_mem mem' sound
  intro x inHeap
  exact same x
    (fun inBlock => Heap.block_outside lawful h pages _ sound.owned addr 0 x member inBlock.1 inBlock.2 inHeap)

theorem kmalloc_page_spec (sound : Heap.Sound Live ⟨h, live, foreign⟩ pages big) (ptr : Nat) (h' : Heap.State σ)
    (done : Heap.kmalloc A 0x1000 h = .ok (some ptr, h')) :
    ∃ addr, A.alloc 0 h.pages = .ok (addr, h'.pages) ∧ ptr = p2v addr ∧
      h'.mem = h.mem ∧ Heap.Sound Live ⟨h', (ptr, 0x1000) :: live, foreign⟩ pages ((addr, 0) :: big) := by
  have unfolded : Heap.kmalloc A 0x1000 h = Heap.kmallocPages A 0x1000 h := by
    simp [Heap.kmalloc, Heap.minSize]
  have order : Heap.logTwo (0x1000 - 1) + 1 - Heap.baseShift = 0 := by decide
  rw [unfolded, Heap.kmallocPages, order] at done
  cases alloc : A.alloc 0 h.pages with
  | error e =>
      rw [alloc] at done
      cases done
  | ok result =>
      obtain ⟨addr, s'⟩ := result
      rw [alloc] at done
      have taken := sound_take lawful s' 0 addr sound alloc
      have live' := lawful.allocated _ _ _ _ _ sound.owned.owner alloc
      obtain ⟨high, -⟩ := Heap.live_high lawful _ _ addr 0 live' List.mem_cons_self
      have pointer : Heap.toPtr (p2v addr) = some (p2v addr) := if_neg (by simp only [high, kernelVirtualBase]; omega)
      simp only [pointer, Except.ok.injEq, Prod.mk.injEq, Option.some.injEq] at done
      obtain ⟨rfl, rfl⟩ := done
      refine ⟨addr, rfl, rfl, rfl, ?_⟩
      apply Heap.sound_grant_block lawful h _ live foreign big pages 0x1000 addr 0 sound (le_refl _) (le_refl _)
      refine ⟨Heap.settled_same _ _ pages (Heap.add_used_same _ _) taken.owned.toSettled, ?_, taken.owned.grown⟩
      exact lawful.reorder _ _ _ List.perm_middle.symm live'

theorem kmalloc_thread_spec (sound : Heap.Sound Live ⟨h, live, foreign⟩ pages big) (thread : Nat) (h' : Heap.State σ)
    (done : Heap.kmalloc A sizeofThread h = .ok (some thread, h')) :
    ∃ pages', Heap.Sound Live ⟨h', (thread, sizeofThread) :: live, foreign⟩ pages' big ∧
      (∀ x, Heap.InPages pages x → Heap.InPages pages' x) ∧ ∀ x, ¬ Heap.InPages pages' x → h'.mem x = h.mem x := by
  rcases Heap.kmalloc_spec lawful h pages _ sizeofThread sound.owned with ⟨-, null⟩ | ⟨e, -, failed⟩ |
    ⟨small, pages', c, h1, result, granted⟩ | ⟨large, -⟩
  · cases null.symm.trans done
  · cases failed.symm.trans done
  · cases result.symm.trans done
    exact ⟨pages', Heap.sound_grant lawful h _ live foreign big pages pages' sizeofThread c sound small granted,
      granted.kept, fun x outside => granted.frame x (.inr outside)⟩
  · simp [sizeofThread] at large

theorem kernel_stack_spec (sound : Heap.Sound Live ⟨h, live, foreign⟩ pages big) (entry userEsp : Nat)
    (info : KStackInfo) (h' : Heap.State σ) (done : setupKerenlStack A sym entry userEsp h = .ok (info, h')) :
    ∃ addr, A.alloc 0 h.pages = .ok (addr, h'.pages) ∧ info.kernelStackBase = p2v addr ∧
      Heap.Sound Live ⟨h', (p2v addr, 0x1000) :: live, foreign⟩ pages ((addr, 0) :: big) ∧
      ∀ x, ¬ InPage (p2v addr) x → h'.mem x = h.mem x := by
  rw [setupKerenlStack] at done
  cases granted : Heap.kmalloc A 0x1000 h with
  | error e =>
      rw [granted] at done
      cases done
  | ok result =>
      obtain ⟨stack, h1⟩ := result
      rw [granted] at done
      cases stack with
      | none => cases done
      | some stack =>
          obtain ⟨addr, alloc, rfl, mem, sound1⟩ := kmalloc_page_spec lawful sound stack h1 granted
          simp only [Except.ok.injEq, Prod.mk.injEq] at done
          obtain ⟨rfl, rfl⟩ := done
          have frame (x : Nat) :=
            page_stack_frame lawful addr x ([4 <<< 3 ||| 0 ||| 3, userEsp, 1 <<< 9, 3 <<< 3 ||| 0 ||| 3, entry,
            sym.launchProcess] ++ zeroRegisters) h1.mem _ _ sound1.owned.owner (by simp) (by simp [zeroRegisters])
          refine ⟨addr, alloc, rfl, sound_block_write lawful sound1 addr _ (by simp) frame, ?_⟩
          intro x outside
          exact (frame x outside).trans (congrFun mem x)

end Parts

-- What `create_process` leaves behind: the image of the segments, and over it the stack page.
structure Built {Live : σ → List (Nat × Nat) → Prop} (setting : Setting Live) (elf : Nat)
    (live foreign : List (Nat × Nat)) (before : List Heap.HeapPage) (new : NewThread) (h' : Heap.State σ)
    (dir kernelStack : Nat) (taken : List Nat)
    (segments image : Nat → Option Mapping)
    (pages : List Heap.HeapPage) (big : List (Nat × Nat)) : Prop where
  pd : new.pd = p2v dir
  stack : new.stack = p2v kernelStack
  kept : ∀ x, Heap.InPages before x → Heap.InPages pages x
  loading :
    Loading setting ((new.thread, sizeofThread) :: (p2v kernelStack, 0x1000) :: live) foreign dir taken image pages
    ((kernelStack, 0) :: big) h'
  loaded : Loaded setting elf (segmentCount setting.mem elf) segments
  stackPage : (setting.Large (stackBase setting.mem elf / 0x1000) ∧ image = segments) ∨
    (¬ setting.Large (stackBase setting.mem elf / 0x1000) ∧ ∃ m : Mapping,
      image = update segments (stackBase setting.mem elf / 0x1000) (some m) ∧
      m.flag = pageUser ||| pagePresent ||| pageRw ∧ ∀ page m', segments page = some m' → m'.frame ≠ m.frame)

theorem last_end_bound (mem : Mem) (elf n : Nat) : lastEnd mem elf n < 2 ^ 32 := by
  induction n with
  | zero => exact Nat.two_pow_pos 32
  | succ n ih =>
      have here : segmentEnd (segmentAt mem elf n) < 2 ^ 32 := by
        rw [segmentEnd]
        split
        · simp only [Word.add]
          omega
        · decide
      rw [lastEnd]
      omega

section Build

variable {A : PageAllocator σ} {Live : σ → List (Nat × Nat) → Prop} (lawful : A.Lawful Live) (setting : Setting Live)
  (sym : Symbols) {live foreign big : List (Nat × Nat)} {pages : List Heap.HeapPage} {h : Heap.State σ}

theorem loading_copy (dir : Nat) (sound : Heap.Sound Live ⟨h, live, pageBlocks [dir] ++ foreign⟩ pages big)
    (reserved : ∀ x, setting.Reserved x → ¬ setting.Writable x → h.mem x = setting.mem x)
    (word : ∀ k, k < 1024 → entry h.mem (p2v dir) k = entry setting.mem setting.kpd k) :
    Loading setting live foreign dir [dir] (fun _ => none) pages big h := by
  refine ⟨sound, List.mem_cons_self, reserved, fun k smallK => .inl (word k smallK), ?_, ?_, ?_⟩
  · intro k k' smallK smallK' small small' equal
    rw [Paging.Small, word k smallK] at small
    rw [Paging.Small, word k' smallK'] at small'
    simp only [frameOf, word k smallK, word k' smallK'] at equal
    exact setting.own.distinct k k' smallK smallK' small small' equal
  · exact fun _ _ found => (Option.some_ne_none _ found.symm).elim
  · exact fun _ _ _ _ found => (Option.some_ne_none _ found.symm).elim

include lawful

theorem directory_copied (sound : Heap.Sound Live ⟨h, live, foreign⟩ pages big) (dir : Nat) (s' : σ)
    (alloc : A.alloc 0 h.pages = .ok (dir, s')) :
    (∀ x, ¬ InPage (p2v dir) x → kmemcpy (p2v dir) setting.kpd 0x1000 h.mem x = h.mem x) ∧
      ∀ k, k < 1024 → entry (kmemcpy (p2v dir) setting.kpd 0x1000 h.mem) (p2v dir) k = entry h.mem setting.kpd k := by
  have sound1 : Heap.Sound Live ⟨{ h with pages := s' }, live, pageBlocks [dir] ++ foreign⟩ pages big :=
    sound_take lawful s' 0 dir sound alloc
  obtain ⟨aligned, bound, outside⟩ := taken_page lawful setting sound1 dir (by simp)
  have alignedPd := p2v_aligned dir aligned
  have forward : ForwardSafe (p2v dir) setting.kpd 0x1000 := by
    have other : p2v dir ≠ setting.kpd := by
      intro same
      exact (outside (p2v dir) ⟨le_refl _, by omega⟩).1 (setting.directory _ (same ▸ ⟨le_refl _, by omega⟩))
    have alignedK := setting.aligned
    simp only [ForwardSafe]
    omega
  constructor
  · intro x notDir
    exact kmemcpy_frame _ _ _ _ _ (by simp only [InPage] at notDir; omega)
  · intro k smallK
    rw [kmemcpy_eq_copy _ _ _ _ forward]
    exact copy_word h.mem (p2v dir) setting.kpd 0x1000 (4 * k) (Nat.mul_le_mul_left 4 smallK)

theorem loading_start (sound : Heap.Sound Live ⟨h, live, foreign⟩ pages big) (mem : setting.mem = h.mem) (dir : Nat)
    (s' : σ) (alloc : A.alloc 0 h.pages = .ok (dir, s')) :
    Loading setting live foreign dir [dir] (fun _ => none) pages big
      { h with mem := kmemcpy (p2v dir) setting.kpd 0x1000 h.mem, pages := s' } := by
  have sound1 : Heap.Sound Live ⟨{ h with pages := s' }, live, pageBlocks [dir] ++ foreign⟩ pages big :=
    sound_take lawful s' 0 dir sound alloc
  obtain ⟨-, -, outside⟩ := taken_page lawful setting sound1 dir (by simp)
  obtain ⟨same, word⟩ := directory_copied lawful setting sound dir s' alloc
  generalize kmemcpy (p2v dir) setting.kpd 0x1000 h.mem = copied at same word ⊢
  refine loading_copy setting dir (sound_mem copied sound1 ?_) ?_ (mem ▸ word)
  · exact fun x inHeap => same x (fun inDir => (outside x inDir).2 inHeap)
  · intro x reserved fixed
    rw [mem]
    exact same x (fun inDir => (outside x inDir).1 reserved)

theorem stack_and_thread_spec {dir : Nat} {taken : List Nat} {image : Nat → Option Mapping}
    (loading : Loading setting live foreign dir taken image pages big h) (entry userEsp : Nat) (info : KStackInfo)
    (thread : Nat) (h5 h6 : Heap.State σ) (stackDone : setupKerenlStack A sym entry userEsp h = .ok (info, h5))
    (threadDone : Heap.kmalloc A sizeofThread h5 = .ok (some thread, h6)) :
    ∃ kernelStack pages', info.kernelStackBase = p2v kernelStack ∧ (∀ x, Heap.InPages pages x → Heap.InPages pages' x) ∧
      Heap.Sound Live
        ⟨h6, (thread, sizeofThread) :: (p2v kernelStack, 0x1000) :: live, pageBlocks taken ++ foreign⟩ pages'
        ((kernelStack, 0) :: big) ∧
      ∀ x, setting.Reserved x ∨ (∃ f ∈ taken, InPage (p2v f) x) → h6.mem x = h.mem x := by
  obtain ⟨kernelStack, allocKernel, place, sound5, frame5⟩ :=
    kernel_stack_spec lawful sym loading.sound _ _ info h5 stackDone
  obtain ⟨pages', sound6, kept6, frame6⟩ := kmalloc_thread_spec lawful sound5 thread h6 threadDone
  refine ⟨kernelStack, pages', place, kept6, sound6, ?_⟩
  have owner := sound6.owned.owner
  intro x kept
  have notHeap : ¬ Heap.InPages pages' x := by
    rcases kept with reserved | ⟨f, member, inPage⟩
    · exact reserved_not_heap setting sound6 x reserved
    · exact ((taken_page lawful setting sound6 f member).2.2 x inPage).2
  have notStack : ¬ InPage (p2v kernelStack) x := by
    intro inStack
    rcases kept with reserved | ⟨f, member, inPage⟩
    · exact setting.kept _ _ owner (kernelStack, 0) (by simp) x inStack.1 inStack.2 reserved
    · obtain ⟨alignedF, boundF, -⟩ := taken_page lawful setting loading.sound f member
      obtain ⟨alignedK, lowK⟩ := lawful.inRam _ _ owner (kernelStack, 0) (by simp)
      have other : f ≠ kernelStack :=
        fun same => taken_fresh lawful _ kernelStack loading.sound allocKernel (same ▸ member)
      exact frames_apart f kernelStack x alignedF alignedK boundF (by simp only at lowK; omega) other inPage inStack
  rw [frame6 x notHeap, frame5 x notStack]

theorem build_process_loading (sound : Heap.Sound Live ⟨h, live, foreign⟩ pages big) (mem : setting.mem = h.mem)
    (directory : setting.kpd = sym.kernelPageDirectory) (elf : Nat) (safe : HeadersSafe setting elf)
    (opened : ∀ k page, k < segmentCount setting.mem elf → Covers setting.mem elf k page → setting.Open (page / 1024))
    (stackOpen : setting.Open (stackBase setting.mem elf / 0x1000 / 1024)) (new : NewThread) (h' : Heap.State σ)
    (done : buildProcess A sym elf h = .ok (new, h')) :
    ∃ dir kernelStack taken segments image pages',
      Built setting elf live foreign pages new h' dir kernelStack taken segments image pages' big := by
  rw [buildProcess, ← directory] at done
  split at done
  · cases done
  rename_i dir s1 allocDir
  have start := loading_start lawful setting sound mem dir s1 allocDir
  simp only at done
  split at done
  · cases done
  rename_i base h2 elfDone
  obtain ⟨rfl, taken2, segments, loading2, -, loaded⟩ := load_elf_loading lawful start elf safe opened base h2 elfDone
  split at done
  · cases done
  rename_i userStack s3 allocStack
  obtain ⟨loading3, idle⟩ := loading_take lawful loading2 s3 userStack allocStack
  split at done
  · cases done
  rename_i h4 mapDone
  obtain ⟨taken4, image, loading4, -, entered⟩ := loading_map lawful loading3 userStack _ _ List.mem_cons_self idle
    (last_end_bound _ _ _) stackOpen (.inr rfl) h4 mapDone
  split at done
  · cases done
  rename_i info h5 stackDone
  split at done
  · cases done
  · cases done
  rename_i thread h6 threadDone
  obtain ⟨kernelStack, pages', place, kept6, sound6, frame6⟩ :=
    stack_and_thread_spec lawful setting sym loading4 _ _ info thread h5 h6 stackDone threadDone
  simp only [Except.ok.injEq, Prod.mk.injEq] at done
  obtain ⟨rfl, rfl⟩ := done
  refine ⟨dir, kernelStack, taken4, segments, image, pages', rfl, place, kept6, ?_, loaded, ?_⟩
  · exact loading_other lawful loading4 _ _ pages' h6 sound6 frame6
  · rcases entered with large | ⟨small, m, updated, rfl, flag, -⟩
    · exact .inl large
    · exact .inr ⟨small, m, updated, flag, idle.unmapped⟩

end Build

theorem create_process_spec (A : PageAllocator σ) (sym : Symbols) (elf thread : Nat) (k k' : Kernel σ)
    (done : createProcess A sym elf k = .ok (thread, k')) : ∃ new, buildProcess A sym elf k.heap = .ok (new, k'.heap) ∧
      thread = new.thread ∧ k' = startThread new k'.heap k ∧ (k'.sched.thread thread).pd = new.pd ∧
      (k'.sched.thread thread).stack = new.stack := by
  rw [createProcess] at done
  split at done
  · cases done
  · next new h built =>
      simp only [Except.ok.injEq, Prod.mk.injEq] at done
      obtain ⟨rfl, rfl⟩ := done
      refine ⟨new, built, rfl, rfl, ?_, ?_⟩ <;>
        simp [startThread, Sched.threadReady, Sched.State.setStatus, Sched.State.setQue, Sched.State.modify]

end X86OS.Process
