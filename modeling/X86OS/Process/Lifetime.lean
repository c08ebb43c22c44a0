import X86OS.Process.Coverage
import X86OS.Process.Discipline

set_option autoImplicit false

namespace X86OS.Process

open Function Mem Paging Relation

variable {σ : Type}

theorem serves_logged (A : PageAllocator σ) (n : Nat) (s : σ) (log : List PageEvent) (serves : Serves A n s) :
    Serves A.logged n (s, log) := by
  induction n generalizing s log with
  | zero => trivial
  | succ n ih =>
      obtain ⟨f, s', alloc, rest⟩ := serves
      exact ⟨f, _, logged_alloc A 0 f s s' log alloc, ih s' _ rest⟩

theorem half_logged {Live : σ → List (Nat × Nat) → Prop} {mem : Mem} {kpd : Nat} {Reserved : Nat → Prop}
    (half : KernelHalf Live mem kpd Reserved) : KernelHalf (LoggedLive Live) mem kpd Reserved :=
  ⟨⟨half.aligned, fun s live held => half.kept s.1 live held.owner, half.directory, half.tables, half.own⟩, half.empty⟩

section Calls

variable {A : PageAllocator σ} {Live : σ → List (Nat × Nat) → Prop} (lawful : A.Lawful Live) {sym : Symbols}
  {h : Heap.State σ} {live foreign big : List (Nat × Nat)} {pages : List Heap.HeapPage}
  (sound : Heap.Sound Live ⟨h, live, foreign⟩ pages big)

include lawful sound

theorem thread_serves (n : Nat) (serves : Serves A (n + 1) h.pages) :
    ∃ thread h', Heap.kmalloc A sizeofThread h = .ok (some thread, h') ∧ Serves A n h'.pages := by
  obtain ⟨thread, h', done⟩ := thread_returns lawful h sound (serves_mono A 1 _ _ (by omega) serves)
  refine ⟨thread, h', done, ?_⟩
  rcases Heap.kmalloc_takes A sizeofThread h h' _ (by decide) done with same | ⟨addr, alloc⟩
  · rw [same]
    exact serves_mono A n _ _ (by omega) serves
  · obtain ⟨f, s', alloc', rest⟩ := serves
    cases alloc.symm.trans alloc'
    exact rest

theorem build_thread_returns (entry arg n : Nat) (serves : Serves A (n + 2) h.pages) :
    ∃ new h', buildThread A sym entry arg h = .ok (new, h') ∧ Serves A n h'.pages := by
  obtain ⟨stack, s', alloc, rest⟩ := serves
  obtain ⟨thread, h1, done, more⟩ := thread_serves lawful (sound_take lawful s' 0 stack sound alloc) n rest
  rw [buildThread, alloc]
  simp only [done]
  exact ⟨_, _, rfl, more⟩

-- `destroy_thread` hands the stack's record to the page allocator as it is. The page that `kfree`
-- may give back after that is the one it would give back without.
theorem destroy_thread_frees (k : Kernel σ) (heap : k.heap = h) (t : Nat) (object : (t, sizeofThread) ∈ live) :
    ∃ h1 live' pages' big' h', Heap.Sound Live ⟨h1, live', foreign⟩ pages' big' ∧
      destroyThread A t k = .ok { k with heap := h' } ∧
      ((h1.pages = h.pages ∧ h'.pages = A.free (k.sched.thread t).stack h.pages) ∨
        ∃ addr, h1.pages = A.free addr h.pages ∧ h'.pages = A.free addr (A.free (k.sched.thread t).stack h.pages)) := by
  have unaligned : ¬ isAligned t Heap.pageSize = true := by
    rcases sound.backed _ object with ⟨-, c, member, -, place, -⟩ | ⟨large, -⟩
    · simp only at place
      rw [place]
      exact Heap.chunk_unaligned pages c member
    · simp [sizeofThread] at large
  obtain ⟨front, back, rfl⟩ := List.append_of_mem object
  obtain ⟨h1, pages', big', freed, sound', -⟩ :=
    Heap.kfree_live_spec lawful _ front back foreign big pages t sizeofThread sound
  subst heap
  rcases Heap.kfree_frees A t k.heap h1 unaligned freed with ⟨same, all⟩ | ⟨addr, given, all⟩
  · have result : Heap.kfree A t { k.heap with pages := A.free (k.sched.thread t).stack k.heap.pages } = _ := all σ A _
    refine ⟨h1, _, pages', big', h1.withPages (A.free (k.sched.thread t).stack k.heap.pages), sound',
      ?_, .inl ⟨same, rfl⟩⟩
    rw [destroyThread, result]
  · have result : Heap.kfree A t { k.heap with pages := A.free (k.sched.thread t).stack k.heap.pages } = _ := all σ A _
    refine ⟨h1, _, pages', big', h1.withPages (A.free addr (A.free (k.sched.thread t).stack k.heap.pages)), sound', ?_,
      .inr ⟨addr, given, rfl⟩⟩
    rw [destroyThread, result]

end Calls

section Life

variable {A : PageAllocator σ} {Live : σ × List PageEvent → List (Nat × Nat) → Prop} (lawful : A.logged.Lawful Live)
  {sym : Symbols} {Reserved : Nat → Prop} {S : System σ} {live foreign leaked big : List (Nat × Nat)}
  {pages : List Heap.HeapPage} {k : Kernel (σ × List PageEvent)} {g : Sched.Ghost} {threads processes : List Nat}

theorem quiet_clean (s' : Sched.State) (g' : Sched.Ghost) (run : ReflTransGen Sched.Quiet ⟨k.sched, g⟩ ⟨s', g'⟩) :
    ReflTransGen (CleanStep A sym Reserved) ⟨k, g, threads, processes⟩
      ⟨{ k with sched := s' }, g', threads, processes⟩ := by
  refine run.lift (fun c : Sched.Config => (⟨{ k with sched := c.state }, c.ghost, threads, processes⟩ : System σ)) ?_
  rintro ⟨s1, g1⟩ ⟨s2, g2⟩ ⟨step, alive, destroyed⟩
  exact ⟨.switch, .switch { k with sched := s1 } s2 g1 g2 threads processes step alive destroyed, trivial⟩

include lawful

theorem boots_returns (rate reaperMain n : Nat) (h : Heap.State (σ × List PageEvent)) (s : Sched.State)
    (sound : Heap.Sound Live ⟨h, [], []⟩ pages []) (serves : Serves A.logged (n + 3) h.pages) :
    ∃ S, Boots A sym rate reaperMain h s S ∧ Serves A.logged n S.kernel.heap.pages := by
  obtain ⟨main, h1, mainDone, serves1⟩ := thread_serves lawful sound (n + 2) serves
  obtain ⟨pages1, sound1, -⟩ := kmalloc_thread_spec lawful sound main h1 mainDone
  obtain ⟨new, h2, built, serves2⟩ :
      ∃ new h2, buildThread A.logged sym reaperMain 0 h1 = .ok (new, h2) ∧ Serves A.logged n h2.pages :=
    build_thread_returns lawful sound1 reaperMain 0 n serves1
  refine ⟨_, ⟨main, h1, new.thread, startThread new h2 (bootKernel sym main rate h1 s), mainDone, ?_, rfl⟩, serves2⟩
  have heap : (bootKernel sym main rate h1 s).heap = h1 := rfl
  rw [threadCreate, heap, built]

theorem image_builds (whole : Whole Live sym Reserved S live foreign leaked big pages) (elf : Nat)
    (image : LowImage Reserved S.kernel.heap.mem elf)
    (serves : Serves A.logged (requests S.kernel.heap.mem elf) S.kernel.heap.pages) :
    ∃ new h', buildProcess A.logged sym elf S.kernel.heap = .ok (new, h') :=
  build_process_returns lawful elf (space_headers_safe (whole_space whole elf image)) sym S.kernel.heap
    whole.heap rfl rfl (fun i page before covers => ⟨page, .inl ⟨i, before, covers⟩, rfl⟩) ⟨_, .inr rfl, rfl⟩ serves

theorem process_exits (whole : Whole Live sym Reserved S live foreign leaked big pages) (m : Sched.Model)
    (good : Sched.Good S.kernel.sched S.ghost m) (resting : Sched.Resting m [m.reaper])
    (check : S.ghost.point m.reaper = .check) (elf : Nat) (image : LowImage Reserved S.kernel.heap.mem elf)
    (serves : Serves A.logged (requests S.kernel.heap.mem elf) S.kernel.heap.pages) :
    ∃ S1 S2 t, Step A sym S (.createProcess S.kernel.heap.mem elf) S1 ∧ S1.processes = t :: S.processes ∧
      ReflTransGen (CleanStep A sym Reserved) S1 S2 ∧ S2.processes = S1.processes ∧
      S2.kernel.sched.curThread = S2.kernel.sched.reaper ∧ S2.ghost.point S2.kernel.sched.reaper = .destroy t := by
  have space := whole_space whole elf image
  obtain ⟨new, h', built⟩ := image_builds lawful whole elf image serves
  obtain ⟨k, g, threads, processes⟩ := S
  simp only at good check image serves built
  have done : createProcess A.logged sym elf k = .ok (new.thread, startThread new h' k) := by
    rw [createProcess, built]
  obtain ⟨dir, kernelStack, taken, segments, shown, pages', result⟩ :=
    build_process_built lawful space whole.heap rfl built
  obtain ⟨dead, notIdle, -⟩ :=
    whole_fresh whole new.thread _ ((p2v kernelStack, 0x1000) :: live) result.loading.sound.distinct
    (List.subset_cons_self _ _)
  obtain ⟨m', good', reaper, queued⟩ := start_thread_good new h' k g m good dead notIdle
  have other : m.reaper ≠ new.thread := ne_of_mem_of_not_mem good.inv.reaperIn dead
  obtain ⟨s2, g2, run, isReaper, point⟩ := Sched.exits_to_reaper good' (reaper ▸ queued _ resting)
    (by rw [reaper]; exact (update_of_ne other _ _).trans check) (update_self _ _ _)
  exact ⟨_, _, new.thread, .createProcess k _ g threads processes elf new.thread done, rfl, quiet_clean s2 g2 run,
    rfl, isReaper, point⟩

theorem process_reaped (whole : Whole Live sym Reserved S live foreign leaked big pages) (t : Nat)
    (process : t ∈ S.processes) (isReaper : S.kernel.sched.curThread = S.kernel.sched.reaper)
    (point : S.ghost.point S.kernel.sched.reaper = .destroy t) :
    ∃ S', Step A sym S (.reap true) S' := by
  obtain ⟨k, g, threads, processes⟩ := S
  simp only at process isReaper point
  obtain ⟨-, -, -, -, h', -, done, -⟩ := destroy_thread_frees lawful whole.heap k rfl t
    (whole.objects t ((whole.alive t).mpr (.inr process)))
  have step : Step A sym ⟨k, g, threads, processes⟩ _ _ := .reap k _ g threads processes t isReaper point done
  rw [decide_eq_true process] at step
  exact ⟨_, step⟩

end Life

theorem step_reap_spec (A : PageAllocator σ) (sym : Symbols) (S S' : System σ) (process : Bool)
    (step : Step A sym S (.reap process) S') :
    ∃ t, S.ghost.point S.kernel.sched.reaper = .destroy t ∧ process = decide (t ∈ S.processes) ∧
      destroyThread A.logged t S.kernel = .ok S'.kernel := by
  cases step with
  | reap k k' g threads processes t isReaper point done => exact ⟨t, point, rfl, done⟩

theorem step_create_spec (A : PageAllocator σ) (sym : Symbols) (S S' : System σ) (mem : Mem) (elf : Nat)
    (step : Step A sym S (.createProcess mem elf) S') :
    ∃ t, createProcess A.logged sym elf S.kernel = .ok (t, S'.kernel) ∧
      S' = ⟨S'.kernel, S.ghost.add t, S.threads, t :: S.processes⟩ := by
  cases step with
  | createProcess k k' g threads processes elf t done => exact ⟨t, done, rfl⟩

-- A process is made, and after steps of the rest of the kernel the reaper destroys it.
structure Lifetime (A : PageAllocator σ) (sym : Symbols) (Reserved : Nat → Prop) (elf t : Nat)
    (S₀ S₁ S₂ S₃ : System σ) : Prop where
  create : Step A sym S₀ (.createProcess S₀.kernel.heap.mem elf) S₁
  image : LowImage Reserved S₀.kernel.heap.mem elf
  made : S₁.processes = t :: S₀.processes
  meanwhile : ReflTransGen (CleanStep A sym Reserved) S₁ S₂
  exited : S₂.ghost.point S₂.kernel.sched.reaper = .destroy t
  reap : Step A sym S₂ (.reap true) S₃

section Reaped

variable {A : PageAllocator σ} {Live : σ → List (Nat × Nat) → Prop} (lawful : A.Lawful Live) {sym : Symbols}
  {Reserved : Nat → Prop} {S S' : System σ} {live foreign leaked big : List (Nat × Nat)} {pages : List Heap.HeapPage}

include lawful

theorem whole_out_low (whole : Whole (LoggedLive Live) sym Reserved S live foreign leaked big pages) (block : Nat × Nat)
    (out : block ∈ outstanding S.log) : block.1 < 2 ^ 30 := by
  have owner := whole.heap.owned.owner
  have below := (lawful.inRam _ _ owner.owner block (owner.held.mem_iff.mp out)).2
  have positive := Nat.two_pow_pos block.2
  omega

theorem reap_process_log (whole : Whole (LoggedLive Live) sym Reserved S live foreign leaked big pages)
    (step : Step A sym S (.reap true) S') :
    ∃ wild later, 2 ^ 30 ≤ wild ∧ S'.log = later ++ .returned wild :: S.log ∧
      (later = [] ∨ ∃ addr, later = [.returned addr] ∧ ∀ block ∈ foreign, block.1 ≠ addr) := by
  obtain ⟨t, point, process, done⟩ := step_reap_spec A sym S S' true step
  have member : t ∈ S.processes := of_decide_eq_true process.symm
  obtain ⟨h1, live', pages', big', h', sound, result, freed⟩ :=
    destroy_thread_frees (logged_lawful A Live lawful) whole.heap S.kernel rfl t
    (whole.objects t ((whole.alive t).mpr (.inr member)))
  have same : S'.kernel = { S.kernel with heap := h' } := Except.ok.inj (done.symm.trans result)
  have log : S'.log = h'.pages.2 := by rw [System.log, same]
  refine ⟨(S.kernel.sched.thread t).stack, ?_⟩
  rcases freed with ⟨-, given⟩ | ⟨addr, undone, given⟩
  · refine ⟨[], whole.high t member, ?_, .inl rfl⟩
    rw [log, given]
    rfl
  · refine ⟨[.returned addr], whole.high t member, ?_, .inr ⟨addr, rfl, ?_⟩⟩
    · rw [log, given]
      rfl
    · intro block inForeign
      have owner := sound.owned.owner
      rw [undone] at owner
      have out : block ∈ outstanding (.returned addr :: S.log) := owner.held.mem_iff.mpr (by simp [inForeign])
      simpa using (List.mem_filter.mp out).2

theorem reap_process_wild (whole : Whole (LoggedLive Live) sym Reserved S live foreign leaked big pages)
    (step : Step A sym S (.reap true) S') :
    ¬ Disciplined S'.log := by
  obtain ⟨wild, later, high, log, last⟩ := reap_process_log lawful whole step
  intro disciplined
  have first : Disciplined (.returned wild :: S.log) := by
    rw [log] at disciplined
    rcases last with rfl | ⟨addr, rfl, -⟩
    · exact disciplined
    · exact disciplined.1
  obtain ⟨block, out, rfl⟩ := List.mem_map.mp first.2
  have low := whole_out_low lawful whole block out
  omega

theorem reap_process_kept (whole : Whole (LoggedLive Live) sym Reserved S live foreign leaked big pages)
    (step : Step A sym S (.reap true) S') (block : Nat × Nat) (member : block ∈ foreign) :
    block ∈ outstanding S'.log := by
  obtain ⟨wild, later, high, log, last⟩ := reap_process_log lawful whole step
  have out : block ∈ outstanding S.log := whole.heap.owned.owner.held.mem_iff.mpr (by simp [member])
  have low := whole_out_low lawful whole block out
  have first : block ∈ outstanding (.returned wild :: S.log) := List.mem_filter.mpr ⟨out, by simpa using by omega⟩
  rw [log]
  rcases last with rfl | ⟨addr, rfl, other⟩
  · exact first
  · exact List.mem_filter.mpr ⟨first, by simpa using other block member⟩

end Reaped

-- The kernel has booted on a machine with nothing handed out.
def Booted (A : PageAllocator σ) (Live : σ → List (Nat × Nat) → Prop) (sym : Symbols) (Reserved : Nat → Prop)
    (S : System σ) : Prop :=
  ∃ h₀ h s rate reaperMain, Heap.Blank h₀ ∧ h₀.pages.2 = [] ∧ Live h₀.pages.1 [] ∧
    Heap.initKmalloc A.logged h₀ = .ok h ∧
    KernelHalf Live h.mem sym.kernelPageDirectory Reserved ∧ Boots A sym rate reaperMain h s S

section Main

variable {A : PageAllocator σ} {Live : σ → List (Nat × Nat) → Prop} (lawful : A.Lawful Live) {sym : Symbols}
  {Reserved : Nat → Prop}

include lawful

theorem booted_whole (S S' : System σ) (start : Booted A Live sym Reserved S)
    (run : ReflTransGen (CleanStep A sym Reserved) S S') :
    ∃ live foreign leaked big pages, Whole (LoggedLive Live) sym Reserved S' live foreign leaked big pages := by
  obtain ⟨h₀, h, s, rate, reaperMain, blank, unused, owner, init, half, boots⟩ := start
  have logged := logged_lawful A Live lawful
  have idle : LoggedLive Live h₀.pages [] := by
    refine ⟨owner, ?_, ?_⟩ <;> rw [unused]
    · trivial
    · exact .nil
  obtain ⟨p, sound, -⟩ := Heap.init_kmalloc_sound logged h₀ h [] blank idle init
  obtain ⟨⟨_, _, _, whole⟩, -⟩ := whole_boots logged rate reaperMain h s sound (half_logged half) boots
  obtain ⟨live, foreign, leaked, big, pages, whole', -⟩ := whole_run logged whole run
  exact ⟨live, foreign, leaked, big, pages, whole'⟩

end Main

def plainSample : Phdr := ⟨ptLoad, 0, 0x8048000, 0x20, 0x40, pfR ||| pfW⟩

theorem desk_half_low (mem : Mem) (slots : DeskSlots mem) : KernelHalf DeskLive mem deskDirectory (· < 0xC0004000) := by
  have half := desk_half slots
  refine ⟨⟨half.aligned, ?_, fun x inDir => (half.directory x inDir).2,
    fun k small isSmall x inTable => (half.tables k small isSmall x inTable).2, half.own⟩, half.empty⟩
  intro s live held block member x low _ reserved
  have high := desk_block_high s live held block member
  omega

theorem sample_boots (s : Sched.State) : ∃ h pages f S₀, Heap.Sound (LoggedLive DeskLive) ⟨h, [], []⟩ pages [] ∧
    Boots pmm deskSymbols 1 0xC0100020 h s S₀ ∧ Booted pmm DeskLive deskSymbols (· < 0xC0004000) S₀ ∧
    KernelHalf (LoggedLive DeskLive) h.mem deskDirectory (· < 0xC0004000) ∧ Serves pmm.logged 8 S₀.kernel.heap.pages ∧
    LoggedLive DeskLive h.pages [(f, 0)] ∧ (∀ x, ¬ InPage (p2v f) x → h.mem x = sampleMem plainSample x) ∧
    ∀ x < 0xC0004000, h.mem x = sampleMem plainSample x := by
  have logged := logged_lawful pmm DeskLive desk_lawful
  obtain ⟨f, s', alloc, serves⟩ := serves_of_served pmm 12 deskPages (by decide +kernel)
  have live : DeskLive deskPages [] := pmm_boot_live _ _ _ desk_bootable
  have idle : LoggedLive DeskLive (deskPages, []) [] := ⟨live, trivial, .nil⟩
  have allocLogged := logged_alloc pmm 0 f deskPages s' [] alloc
  obtain ⟨h, pages, start, sound, taken, same⟩ :=
    heap_boots logged (sampleMem plainSample) (deskPages, []) _ f idle allocLogged
  have shown (x : Nat) (low : x < 0xC0004000) : h.mem x = sampleMem plainSample x :=
    same x (desk_low f x _ (desk_lawful.allocated _ _ _ _ _ live alloc) low)
  have half := desk_half_low h.mem (sample_slots shown)
  have enough : Serves pmm.logged 11 h.pages := by
    rw [taken]
    exact serves_logged pmm 11 s' _ serves
  obtain ⟨S₀, boots, serves₀⟩ :
      ∃ S, Boots pmm deskSymbols 1 0xC0100020 h s S ∧ Serves pmm.logged 8 S.kernel.heap.pages :=
    boots_returns logged 1 0xC0100020 8 h s sound enough
  refine ⟨h, pages, f, S₀, sound, boots, ⟨_, h, s, 1, 0xC0100020, ?_, rfl, live, start, half, boots⟩, half_logged half,
    serves₀, ?_, same, shown⟩
  · exact ⟨fun _ => rfl, rfl, rfl⟩
  · rw [taken]
    exact logged.allocated _ _ _ _ _ idle allocLogged

theorem sample_booted : ∃ S₀ live foreign pages m, Booted pmm DeskLive deskSymbols (· < 0xC0004000) S₀ ∧
    Whole (LoggedLive DeskLive) deskSymbols (· < 0xC0004000) S₀ live foreign [] [] pages ∧
    Sched.Good S₀.kernel.sched S₀.ghost m ∧
    Sched.Resting m [m.reaper] ∧ S₀.ghost.point m.reaper = .check ∧ Serves pmm.logged 8 S₀.kernel.heap.pages ∧
    ∀ x < 0xC0004000, S₀.kernel.heap.mem x = sampleMem plainSample x := by
  have logged := logged_lawful pmm DeskLive desk_lawful
  obtain ⟨h, pages, f, S₀, sound, boots, booted, half, serves, -, -, shown⟩ := sample_boots blankSched
  obtain ⟨⟨live₀, foreign₀, pages₀, whole₀⟩, kept, m, good, resting, ghost⟩ :=
    whole_boots logged 1 0xC0100020 h blankSched sound half boots
  refine ⟨S₀, live₀, foreign₀, pages₀, m, booted, whole₀, good, resting, ?_, serves,
    fun x low => (kept x low).trans (shown x low)⟩
  rw [ghost]
  exact if_pos rfl

theorem sample_lifetime : ∃ S₀ S₁ S₂ S₃ t, Booted pmm DeskLive deskSymbols (· < 0xC0004000) S₀ ∧
    hasMagic S₀.kernel.heap.mem deskElf = true ∧ Lifetime pmm deskSymbols (· < 0xC0004000) deskElf t S₀ S₁ S₂ S₃ := by
  have sample : plainSample ∈ samples := by decide
  have logged := logged_lawful pmm DeskLive desk_lawful
  obtain ⟨S₀, live, foreign, pages, m, start, whole₀, good, resting, check, serves, shown⟩ := sample_booted
  have image : LowImage (· < 0xC0004000) S₀.kernel.heap.mem deskElf :=
    ⟨fun x header => (sample_header_byte sample shown x header).2, sample_touches sample shown⟩
  obtain ⟨S₁, S₂, t, create, made, run, processes, isReaper, point⟩ :=
    process_exits logged whole₀ m good resting check deskElf image
    (serves_mono _ _ 8 _ (by rw [sample_requests sample shown]; decide) serves)
  obtain ⟨_, _, _, _, _, whole₁, -⟩ := whole_step logged whole₀ _ create image
  obtain ⟨_, _, _, _, _, whole₂, -⟩ := whole_run logged whole₁ run
  obtain ⟨S₃, reap⟩ := process_reaped logged whole₂ t (by rw [processes, made]; exact List.mem_cons_self) isReaper point
  exact ⟨S₀, S₁, S₂, S₃, t, start, (sample_header sample shown).1, create, image, made, run, point, reap⟩

theorem lifetime_clean (A : PageAllocator σ) (sym : Symbols) (Reserved : Nat → Prop) (elf t : Nat)
    (S₀ S₁ S₂ S₃ : System σ) (life : Lifetime A sym Reserved elf t S₀ S₁ S₂ S₃) :
    ReflTransGen (CleanStep A sym Reserved) S₀ S₂ :=
  .head ⟨_, life.create, life.image⟩ life.meanwhile

-- As long as images stay below and no process is reaped, every address given to the page
-- allocator is out; the first process to be reaped breaks that.
theorem free_discipline {A : PageAllocator σ} {Live : σ → List (Nat × Nat) → Prop} (lawful : A.Lawful Live)
    (sym : Symbols) (Reserved : Nat → Prop) (S S' : System σ) (start : Booted A Live sym Reserved S)
    (run : ReflTransGen (CleanStep A sym Reserved) S S') :
    Disciplined S'.log ∧ ∀ S'', Step A sym S' (.reap true) S'' → ¬ Disciplined S''.log := by
  obtain ⟨live, foreign, leaked, big, pages, whole⟩ := booted_whole lawful S S' start run
  exact ⟨whole.heap.owned.owner.disciplined, fun S'' step => reap_process_wild lawful whole step⟩

theorem free_discipline_sample : ∃ S₀ S₁ S₂ t, Booted pmm DeskLive deskSymbols (· < 0xC0004000) S₀ ∧
    Step pmm deskSymbols S₀ (.createProcess S₀.kernel.heap.mem deskElf) S₁ ∧
    ReflTransGen (CleanStep pmm deskSymbols (· < 0xC0004000)) S₁ S₂ ∧
      S₂.ghost.point S₂.kernel.sched.reaper = .destroy t ∧ Disciplined S₂.log := by
  obtain ⟨S₀, S₁, S₂, S₃, t, start, -, life⟩ := sample_lifetime
  exact ⟨S₀, S₁, S₂, t, start, life.create, life.meanwhile, life.exited,
    (free_discipline desk_lawful deskSymbols _ S₀ S₂ start (lifetime_clean _ _ _ _ _ _ _ _ _ life)).1⟩

-- The stack of a process is recorded by its virtual address, which `destroy_thread` frees.
theorem process_stack_freed_wild : ∃ S₀ S₃, Booted pmm DeskLive deskSymbols (· < 0xC0004000) S₀ ∧
    ReflTransGen (fun S S' => ∃ e, Step pmm deskSymbols S e S') S₀ S₃ ∧ ¬ Disciplined S₃.log := by
  obtain ⟨S₀, S₁, S₂, S₃, t, start, -, life⟩ := sample_lifetime
  have clean := lifetime_clean _ _ _ _ _ _ _ _ _ life
  obtain ⟨_, _, _, _, _, whole⟩ := booted_whole desk_lawful S₀ S₂ start clean
  have run : ReflTransGen (fun S S' => ∃ e, Step pmm deskSymbols S e S') S₀ S₂ :=
    clean.lift id (fun S S' ⟨e, step, _⟩ => ⟨e, step⟩)
  exact ⟨S₀, S₃, start, .tail run ⟨_, life.reap⟩, reap_process_wild desk_lawful whole life.reap⟩

-- The frames of a process: its directory, the page tables and pages of its half and its kernel stack.
inductive ProcessFrame (mem : Mem) (thread : Sched.Thread) (f : Nat) : Prop
  | directory (place : thread.pd = p2v f)
  | table (k : Nat) (low : k < 768) (small : Paging.Small mem thread.pd k) (place : frameOf mem thread.pd k = f)
  | page (page flags : Nat) (low : page < 0xC0000) (mapped : translate mem thread.pd page = some (f, flags))
  | kernelStack (place : thread.stack = p2v f)

-- Those `create_process` obtained for `t` between the first two states are not out any more.
def FramesBack (S₀ S₁ S₃ : System σ) (t : Nat) : Prop :=
  ∀ f, ProcessFrame S₁.kernel.heap.mem (S₁.kernel.sched.thread t) f → (f, 0) ∈ outstanding S₁.log →
    (f, 0) ∉ outstanding S₀.log → (f, 0) ∉ outstanding S₃.log

section Leak

variable {A : PageAllocator σ} {Live : σ → List (Nat × Nat) → Prop} (lawful : A.Lawful Live) {sym : Symbols}
  {Reserved : Nat → Prop} {S : System σ} {live foreign leaked big : List (Nat × Nat)} {pages : List Heap.HeapPage}

theorem whole_leaked_out (whole : Whole (LoggedLive Live) sym Reserved S live foreign leaked big pages)
    (block : Nat × Nat) (member : block ∈ leaked) : block ∈ foreign ∧ block ∈ outstanding S.log := by
  have inForeign : block ∈ foreign := whole.held.mem_iff.mpr (List.mem_append_right _ member)
  exact ⟨inForeign, whole.heap.owned.owner.held.mem_iff.mpr (by simp [inForeign])⟩

include lawful

theorem directory_fresh (whole : Whole (LoggedLive Live) sym Reserved S live foreign leaked big pages) (elf t dir : Nat)
    (k' : Kernel (σ × List PageEvent)) (done : createProcess A.logged sym elf S.kernel = .ok (t, k'))
    (place : (k'.sched.thread t).pd = p2v dir) (low : dir < 2 ^ 32) : (dir, 0) ∉ outstanding S.log := by
  obtain ⟨new, built, -, -, pd, -⟩ := create_process_spec A.logged sym elf t S.kernel k' done
  obtain ⟨dir', s', -, -, alloc, pd', -⟩ := build_process_load A.logged sym elf S.kernel.heap k'.heap new built
  have logged := logged_lawful A Live lawful
  have owner := whole.heap.owned.owner
  have held := logged.allocated _ _ _ _ _ owner alloc
  have low' := (logged.inRam _ _ held (dir', 0) List.mem_cons_self).2
  have same : dir = dir' := p2v_inj dir dir' low (by simp only at low'; omega) (place.symm.trans (pd.trans pd'))
  intro out
  apply fresh_of_apart dir' 0 _ (logged.apart _ _ held)
  exact List.mem_map.mpr ⟨(dir, 0), owner.held.mem_iff.mp out, same⟩

theorem created_directory (whole : Whole (LoggedLive Live) sym Reserved S live foreign leaked big pages) (elf t : Nat)
    (S' : System σ) (create : Step A sym S (.createProcess S.kernel.heap.mem elf) S')
    (image : LowImage Reserved S.kernel.heap.mem elf) (made : S'.processes = t :: S.processes) :
    ∃ live' foreign' leaked' big' pages' dir,
      Whole (LoggedLive Live) sym Reserved S' live' foreign' leaked' big' pages' ∧ (dir, 0) ∈ leaked' ∧
      (S'.kernel.sched.thread t).pd = p2v dir ∧ (dir, 0) ∉ outstanding S.log ∧ (dir, 0) ∈ outstanding S'.log := by
  obtain ⟨t', done, after⟩ := step_create_spec A sym S S' _ elf create
  obtain rfl : t = t' := by
    rw [after] at made
    exact (List.cons.inj made).1.symm
  obtain ⟨live', foreign', big', pages', dir, taken, inTaken, place, whole'⟩ :=
    whole_create_process (logged_lawful A Live lawful) whole elf t S'.kernel done image
  rw [← after] at whole'
  have lost : (dir, 0) ∈ pageBlocks taken ++ leaked := List.mem_append_left _ (List.mem_map.mpr ⟨dir, inTaken, rfl⟩)
  obtain ⟨-, out⟩ := whole_leaked_out whole' _ lost
  have low := whole_out_low lawful whole' _ out
  exact ⟨live', foreign', _, big', pages', dir, whole', lost, place,
    directory_fresh lawful whole elf t dir S'.kernel done place (by simp only at low; omega), out⟩

theorem lifetime_directory (elf t : Nat) (S S₀ S₁ S₂ S₃ : System σ) (start : Booted A Live sym Reserved S)
    (before : ReflTransGen (CleanStep A sym Reserved) S S₀) (life : Lifetime A sym Reserved elf t S₀ S₁ S₂ S₃) :
    ∃ dir, (S₁.kernel.sched.thread t).pd = p2v dir ∧ (dir, 0) ∉ outstanding S₀.log ∧ (dir, 0) ∈ outstanding S₁.log ∧
      (dir, 0) ∈ outstanding S₃.log := by
  obtain ⟨_, _, _, _, _, whole₀⟩ := booted_whole lawful S S₀ start before
  obtain ⟨_, _, _, _, _, dir, whole₁, lost, place, fresh, out⟩ :=
    created_directory lawful whole₀ elf t S₁ life.create life.image life.made
  obtain ⟨_, _, _, _, _, whole₂, grown⟩ := whole_run (logged_lawful A Live lawful) whole₁ life.meanwhile
  obtain ⟨inForeign, -⟩ := whole_leaked_out whole₂ _ (grown lost)
  exact ⟨dir, place, fresh, out, reap_process_kept lawful whole₂ life.reap _ inForeign⟩

end Leak

-- No process gives its memory back: its directory at least is lost for good.
theorem process_leaks {A : PageAllocator σ} {Live : σ → List (Nat × Nat) → Prop} (lawful : A.Lawful Live)
    (sym : Symbols) (Reserved : Nat → Prop) (elf t : Nat) (S S₀ S₁ S₂ S₃ : System σ)
    (start : Booted A Live sym Reserved S) (before : ReflTransGen (CleanStep A sym Reserved) S S₀)
    (life : Lifetime A sym Reserved elf t S₀ S₁ S₂ S₃) :
    ¬ FramesBack S₀ S₁ S₃ t := by
  obtain ⟨dir, place, fresh, out₁, out₃⟩ := lifetime_directory lawful elf t S S₀ S₁ S₂ S₃ start before life
  exact fun back => back dir (.directory place) out₁ fresh out₃

theorem process_leaks_sample : ∃ S₀ S₁ S₂ S₃ t, Booted pmm DeskLive deskSymbols (· < 0xC0004000) S₀ ∧
    Lifetime pmm deskSymbols (· < 0xC0004000) deskElf t S₀ S₁ S₂ S₃ ∧ ¬ FramesBack S₀ S₁ S₃ t := by
  obtain ⟨S₀, S₁, S₂, S₃, t, start, -, life⟩ := sample_lifetime
  exact ⟨S₀, S₁, S₂, S₃, t, start, life,
    process_leaks desk_lawful deskSymbols _ deskElf t S₀ S₀ S₁ S₂ S₃ start .refl life⟩

-- The page of the directory is one of those the machine has lost.
theorem process_directory_lost : ∃ S₀ S₁ S₂ S₃ t dir, Booted pmm DeskLive deskSymbols (· < 0xC0004000) S₀ ∧
    Lifetime pmm deskSymbols (· < 0xC0004000) deskElf t S₀ S₁ S₂ S₃ ∧ hasMagic S₀.kernel.heap.mem deskElf = true ∧
    ProcessFrame S₁.kernel.heap.mem (S₁.kernel.sched.thread t) dir ∧ (dir, 0) ∉ outstanding S₀.log ∧
    (dir, 0) ∈ outstanding S₁.log ∧ (dir, 0) ∈ outstanding S₃.log := by
  obtain ⟨S₀, S₁, S₂, S₃, t, start, magic, life⟩ := sample_lifetime
  obtain ⟨dir, place, fresh, out₁, out₃⟩ := lifetime_directory desk_lawful deskElf t S₀ S₀ S₁ S₂ S₃ start .refl life
  exact ⟨S₀, S₁, S₂, S₃, t, dir, start, life, magic, .directory place, fresh, out₁, out₃⟩

end X86OS.Process
