import X86OS.Process.KernelRuns
import X86OS.Sched.Spaces

set_option autoImplicit false

namespace X86OS.Process

open Function Mem Paging Relation

variable {σ : Type}

-- The kernel between two calls, over any bookkeeping `Live` of the recorded allocator. The page
-- blocks outside the heap are the stacks of the threads from `thread_create` and `leaked`,
-- which nothing refers to any more; the stack of a process is recorded by a virtual address.
structure Whole (Live : σ × List PageEvent → List (Nat × Nat) → Prop) (sym : Symbols)
    (Reserved : Nat → Prop) (S : System σ) (live foreign leaked big : List (Nat × Nat))
    (pages : List Heap.HeapPage) : Prop where
  heap : Heap.Sound Live ⟨S.kernel.heap, live, foreign⟩ pages big
  sched : ∃ m, Sched.Good S.kernel.sched S.ghost m
  half : KernelHalf Live S.kernel.heap.mem sym.kernelPageDirectory Reserved
  idle : (S.kernel.sched.idleThread, sizeofThread) ∈ live
  alive : ∀ t, t ∈ S.ghost.alive ↔ t ∈ S.threads ∨ t ∈ S.processes
  objects : ∀ t ∈ S.ghost.alive, (t, sizeofThread) ∈ live
  once : S.threads.Nodup
  apart : ∀ t ∈ S.threads, t ∉ S.processes
  held : foreign.Perm (S.threads.map (fun t => ((S.kernel.sched.thread t).stack, 0)) ++ leaked)
  high : ∀ t ∈ S.processes, 2 ^ 30 ≤ (S.kernel.sched.thread t).stack

theorem start_thread_stack (new : NewThread) (h : Heap.State σ) (k : Kernel σ) (t : Nat) :
    ((startThread new h k).sched.thread t).stack = if t = new.thread then new.stack else (k.sched.thread t).stack := by
  by_cases here : t = new.thread <;>
    simp [startThread, Sched.threadReady, Sched.State.setStatus, Sched.State.setQue, Sched.State.modify, here]

theorem start_stacks_same (new : NewThread) (h : Heap.State σ) (k : Kernel σ) (threads : List Nat)
    (other : new.thread ∉ threads) :
    threads.map (fun t => (((startThread new h k).sched.thread t).stack, 0)) =
      threads.map (fun t => ((k.sched.thread t).stack, 0)) := by
  apply List.map_congr_left
  intro t member
  rw [start_thread_stack, if_neg (ne_of_mem_of_not_mem member other)]

theorem start_thread_good (new : NewThread) (h : Heap.State σ) (k : Kernel σ) (g : Sched.Ghost) (m : Sched.Model)
    (good : Sched.Good k.sched g m) (fresh : new.thread ∉ g.alive) (notIdle : new.thread ≠ k.sched.idleThread) :
    ∃ m', Sched.Good (startThread new h k).sched (g.add new.thread) m' ∧ m'.reaper = m.reaper ∧
      ∀ ready, Sched.Resting m ready → Sched.Resting m' (ready ++ [new.thread]) := by
  have good' := Sched.good_fire (.ready new.thread
    { k.sched.thread new.thread with esp := new.esp, stack := new.stack, pd := new.pd }) _ good
      (if_pos ⟨fresh, notIdle⟩)
  refine ⟨_, good', rfl, ?_⟩
  rintro ready ⟨queue, asleep, dead, cur⟩
  exact ⟨congrArg (· ++ [new.thread]) queue, asleep, dead, cur⟩

section Steps

variable {A : PageAllocator σ} {Live : σ × List PageEvent → List (Nat × Nat) → Prop} (lawful : A.logged.Lawful Live)
  {sym : Symbols} {Reserved : Nat → Prop} {S S' : System σ} {live foreign leaked big : List (Nat × Nat)}
  {pages : List Heap.HeapPage} {k : Kernel (σ × List PageEvent)} {g : Sched.Ghost} {threads processes : List Nat}

theorem whole_switch (whole : Whole Live sym Reserved ⟨k, g, threads, processes⟩ live foreign leaked big pages)
    (s' : Sched.State) (g' : Sched.Ghost) (step : Sched.Step ⟨k.sched, g⟩ ⟨s', g'⟩) (alive : g'.alive = g.alive) :
    Whole Live sym Reserved ⟨{ k with sched := s' }, g', threads, processes⟩ live foreign leaked big pages := by
  obtain ⟨m, good⟩ := whole.sched
  obtain ⟨ownStack, idle⟩ := Sched.step_stacks _ _ _ _ step alive
  refine ⟨whole.heap, Sched.good_step _ good step, whole.half, ?_, ?_, ?_, whole.once, whole.apart, ?_, ?_⟩
  · rw [idle]
    exact whole.idle
  · intro t
    rw [alive]
    exact whole.alive t
  · intro t member
    exact whole.objects t (alive ▸ member)
  · simp only [ownStack]
    exact whole.held
  · intro t member
    rw [ownStack t]
    exact whole.high t member

theorem whole_fresh (whole : Whole Live sym Reserved ⟨k, g, threads, processes⟩ live foreign leaked big pages)
    (t size : Nat) (live' : List (Nat × Nat)) (distinct : (((t, size) :: live').map Prod.fst).Nodup)
    (kept : live ⊆ live') :
    t ∉ g.alive ∧ t ≠ k.sched.idleThread ∧ t ∉ threads ∧ t ∉ processes := by
  have absent (x : Nat) (member : (x, sizeofThread) ∈ live) : x ≠ t := by
    rintro rfl
    exact (List.nodup_cons.mp distinct).1 (List.mem_map.mpr ⟨_, kept member, rfl⟩)
  have dead : t ∉ g.alive := fun member => absent t (whole.objects t member) rfl
  refine ⟨dead, fun same => absent _ whole.idle same.symm, ?_, ?_⟩
  · exact fun member => dead ((whole.alive t).mpr (.inl member))
  · exact fun member => dead ((whole.alive t).mpr (.inr member))

theorem low_reaches {mem : Mem} {elf : Nat} (image : LowImage Reserved mem elf) (j : Nat)
    (reaches : Reaches mem elf j) : j < 768 := by
  obtain ⟨page, touches, rfl⟩ := reaches
  have := image.low page touches
  omega

theorem whole_space (whole : Whole Live sym Reserved S live foreign leaked big pages) (elf : Nat)
    (image : LowImage Reserved S.kernel.heap.mem elf) :
    KernelSpace Live S.kernel.heap.mem sym.kernelPageDirectory elf Reserved :=
  low_space whole.half image.headers (low_reaches image)

theorem low_reserved {h h' : Heap.State (σ × List PageEvent)} {elf : Nat}
    (half : KernelHalf Live h.mem sym.kernelPageDirectory Reserved) (image : LowImage Reserved h.mem elf)
    {new : NewThread} {dir kernelStack : Nat} {taken : List Nat} {segments shown : Nat → Option Mapping}
    {pages' : List Heap.HeapPage}
    (built : Built (low_space half image.headers (low_reaches image)).setting elf live foreign pages new h' dir
      kernelStack taken segments shown pages' big)
    (x : Nat) (inside : Reserved x) : h'.mem x = h.mem x := by
  apply built.loading.reserved x inside
  rintro ⟨j, -, reaches, present, -⟩
  exact absurd (present.symm.trans (half.empty j (low_reaches image j reaches))) (by decide)

include lawful

theorem whole_thread_create (whole : Whole Live sym Reserved ⟨k, g, threads, processes⟩ live foreign leaked big pages)
    (entry arg t : Nat) (k' : Kernel (σ × List PageEvent))
    (done : threadCreate A.logged sym entry arg k = .ok (t, k')) :
    ∃ live' foreign' pages',
      Whole Live sym Reserved ⟨k', g.add t, t :: threads, processes⟩ live' foreign' leaked big pages' := by
  rw [threadCreate] at done
  split at done
  · cases done
  rename_i new h' built
  simp only [Except.ok.injEq, Prod.mk.injEq] at done
  obtain ⟨rfl, rfl⟩ := done
  obtain ⟨m, good⟩ := whole.sched
  obtain ⟨pages', sound, reserved⟩ := build_thread_spec lawful whole.half.kept whole.heap entry arg built
  obtain ⟨dead, notIdle, notThread, notProcess⟩ :=
    whole_fresh whole new.thread _ live sound.distinct (List.Subset.refl _)
  have here : ((startThread new h' k).sched.thread new.thread).stack = new.stack := by
    rw [start_thread_stack, if_pos rfl]
  obtain ⟨m', good', -⟩ := start_thread_good new h' k g m good dead notIdle
  refine ⟨_, _, pages', sound, ⟨m', good'⟩, half_congr _ _ whole.half reserved, ?_, ?_, ?_, ?_, ?_, ?_, ?_⟩
  · exact List.mem_cons_of_mem _ whole.idle
  · intro x
    have before := whole.alive x
    simp only [Sched.Ghost.add, List.mem_cons] at before ⊢
    tauto
  · intro x member
    rcases List.mem_cons.mp member with rfl | old
    · exact List.mem_cons_self
    · exact List.mem_cons_of_mem _ (whole.objects x old)
  · exact List.nodup_cons.mpr ⟨notThread, whole.once⟩
  · intro x member
    rcases List.mem_cons.mp member with rfl | old
    · exact notProcess
    · exact whole.apart x old
  · simp only [List.map_cons, List.cons_append, start_stacks_same new h' k threads notThread, here]
    exact whole.held.cons _
  · intro x member
    rw [start_thread_stack, if_neg (ne_of_mem_of_not_mem member notProcess)]
    exact whole.high x member

theorem whole_started (whole : Whole Live sym Reserved ⟨k, g, threads, processes⟩ live foreign leaked big pages)
    (elf : Nat) (image : LowImage Reserved k.heap.mem elf) {k' : Kernel (σ × List PageEvent)} {new : NewThread}
    (started : k' = startThread new k'.heap k) {dir kernelStack : Nat} {taken : List Nat}
    {segments shown : Nat → Option Mapping} {pages' : List Heap.HeapPage}
    (built : Built (whole_space whole elf image).setting elf live foreign pages new k'.heap dir kernelStack taken
      segments shown pages' big) :
    Whole Live sym Reserved ⟨k', g.add new.thread, threads, new.thread :: processes⟩
      ((new.thread, sizeofThread) :: (p2v kernelStack, 0x1000) :: live) (pageBlocks taken ++ foreign)
        (pageBlocks taken ++ leaked)
      ((kernelStack, 0) :: big) pages' := by
  obtain ⟨m, good⟩ := whole.sched
  have sound := built.loading.sound
  obtain ⟨dead, notIdle, notThread, notProcess⟩ :=
    whole_fresh whole new.thread _ ((p2v kernelStack, 0x1000) :: live) sound.distinct
    (List.subset_cons_self _ _)
  have here : (k'.sched.thread new.thread).stack = new.stack := by
    rw [started, start_thread_stack, if_pos rfl]
  refine ⟨sound, ?_, half_congr _ _ whole.half (low_reserved whole.half image built), ?_, ?_, ?_,
    whole.once, ?_, ?_, ?_⟩
  · simp only
    obtain ⟨m', good', -⟩ := start_thread_good new k'.heap k g m good dead notIdle
    rw [started]
    exact ⟨m', good'⟩
  · simp only
    rw [started]
    exact List.mem_cons_of_mem _ (List.mem_cons_of_mem _ whole.idle)
  · intro x
    have before := whole.alive x
    simp only [Sched.Ghost.add, List.mem_cons] at before ⊢
    tauto
  · intro x member
    rcases List.mem_cons.mp member with rfl | old
    · exact List.mem_cons_self
    · exact List.mem_cons_of_mem _ (List.mem_cons_of_mem _ (whole.objects x old))
  · intro x member inProcesses
    rcases List.mem_cons.mp inProcesses with rfl | old
    · exact notThread member
    · exact whole.apart x member old
  · simp only
    rw [started, start_stacks_same new k'.heap k threads notThread]
    exact (whole.held.append_left _).trans (List.perm_append_comm_assoc _ _ _)
  · intro x member
    rcases List.mem_cons.mp member with rfl | old
    · rw [here, built.stack]
      obtain ⟨high, -⟩ := Heap.live_high lawful _ _ kernelStack 0 sound.owned.owner (by simp)
      rw [high, kernelVirtualBase]
      omega
    · simp only
      rw [started, start_thread_stack, if_neg (ne_of_mem_of_not_mem old notProcess)]
      exact whole.high x old

-- The pages of a process are nowhere to be found again, its kernel stack aside.
theorem whole_create_process (whole : Whole Live sym Reserved ⟨k, g, threads, processes⟩ live foreign leaked big pages)
    (elf t : Nat) (k' : Kernel (σ × List PageEvent)) (done : createProcess A.logged sym elf k = .ok (t, k'))
    (image : LowImage Reserved k.heap.mem elf) :
    ∃ live' foreign' big' pages' dir taken, dir ∈ taken ∧ (k'.sched.thread t).pd = p2v dir ∧
      Whole Live sym Reserved ⟨k', g.add t, threads, t :: processes⟩ live' foreign'
        (pageBlocks taken ++ leaked) big' pages' := by
  obtain ⟨new, result, rfl, started, pd, -⟩ := create_process_spec A.logged sym elf t k k' done
  have space := whole_space whole elf image
  obtain ⟨dir, kernelStack, taken, segments, shown, pages', built⟩ :=
    build_process_built lawful space whole.heap rfl result
  exact ⟨_, _, _, pages', dir, taken, built.loading.dirTaken, pd.trans built.pd,
    whole_started lawful whole elf image started built⟩

theorem whole_reap (whole : Whole Live sym Reserved ⟨k, g, threads, processes⟩ live foreign leaked big pages) (t : Nat)
    (k' : Kernel (σ × List PageEvent)) (isReaper : k.sched.curThread = k.sched.reaper)
    (point : g.point k.sched.reaper = .destroy t) (done : destroyThread A.logged t k = .ok k')
    (thread : t ∉ processes) :
    ∃ live' foreign' big' pages', Whole Live sym Reserved
      ⟨k', (g.remove t).move k.sched.reaper .check, threads.erase t,
        processes.erase t⟩ live' foreign' leaked big' pages' := by
  obtain ⟨m, good⟩ := whole.sched
  have alive : t ∈ g.alive := (good.inv.victim t (good.sim.reaper ▸ point)).1
  have notIdle : k.sched.idleThread ≠ t := by
    rintro rfl
    exact good.inv.idleOut (good.sim.idle ▸ alive)
  have member : t ∈ threads := ((whole.alive t).mp alive).resolve_right thread
  have moved : foreign.Perm (((k.sched.thread t).stack, 0) ::
      ((threads.erase t).map (fun t => ((k.sched.thread t).stack, 0)) ++ leaked)) :=
    whole.held.trans (((List.perm_cons_erase member).map _).append_right leaked)
  obtain ⟨h', live', pages', big', result, sound, kept, reserved⟩ :=
    destroy_thread_spec lawful whole.half.kept k whole.heap t (whole.objects t alive) _ moved
  cases result.symm.trans done
  refine ⟨live', _, big', pages', sound, Sched.good_step _ good (.reaperDestroy k.sched g t isReaper point),
    half_congr _ _ whole.half reserved, kept _ notIdle whole.idle, ?_, ?_, whole.once.erase t, ?_, List.Perm.refl _, ?_⟩
  · intro x
    have before := whole.alive x
    have apart := whole.apart x
    simp only [Sched.Ghost.move, Sched.Ghost.remove, List.mem_filter, decide_eq_true_eq, whole.once.mem_erase_iff,
      List.erase_of_not_mem thread] at before apart ⊢
    constructor
    · rintro ⟨inAlive, other⟩
      exact (before.mp inAlive).imp_left (fun inThreads => ⟨other, inThreads⟩)
    · rintro (⟨other, inThreads⟩ | inProcesses)
      · exact ⟨before.mpr (.inl inThreads), other⟩
      · exact ⟨before.mpr (.inr inProcesses), fun same => thread (same ▸ inProcesses)⟩
  · intro x inAlive
    obtain ⟨old, other⟩ := List.mem_filter.mp inAlive
    exact kept x (by simpa using other) (whole.objects x old)
  · intro x inThreads inProcesses
    exact whole.apart x (List.mem_of_mem_erase inThreads) (List.mem_of_mem_erase inProcesses)
  · intro x inProcesses
    exact whole.high x (List.mem_of_mem_erase inProcesses)

theorem whole_step (whole : Whole Live sym Reserved S live foreign leaked big pages) (e : Event)
    (step : Step A sym S e S') (clean : Clean Reserved e) : ∃ live' foreign' leaked' big' pages',
      Whole Live sym Reserved S' live' foreign' leaked' big' pages' ∧ leaked ⊆ leaked' := by
  cases step with
  | switch k s' g g' threads processes step alive destroyed =>
      exact ⟨_, _, _, _, _, whole_switch whole s' g' step alive, List.Subset.refl _⟩
  | threadCreate k k' g threads processes entry arg t done =>
      obtain ⟨live', foreign', pages', whole'⟩ := whole_thread_create lawful whole entry arg t k' done
      exact ⟨_, _, _, _, _, whole', List.Subset.refl _⟩
  | createProcess k k' g threads processes elf t done =>
      obtain ⟨live', foreign', big', pages', dir, taken, -, -, whole'⟩ :=
        whole_create_process lawful whole elf t k' done clean
      exact ⟨_, _, _, _, _, whole', List.subset_append_right _ _⟩
  | reap k k' g threads processes t isReaper point done =>
      obtain ⟨live', foreign', big', pages', whole'⟩ :=
        whole_reap lawful whole t k' isReaper point done (of_decide_eq_false clean)
      exact ⟨_, _, _, _, _, whole', List.Subset.refl _⟩

end Steps

-- A run of clean steps.
def CleanStep (A : PageAllocator σ) (sym : Symbols) (Reserved : Nat → Prop) (S S' : System σ) : Prop :=
  ∃ e, Step A sym S e S' ∧ Clean Reserved e

section Runs

variable {A : PageAllocator σ} {Live : σ × List PageEvent → List (Nat × Nat) → Prop} (lawful : A.logged.Lawful Live)
  {sym : Symbols} {Reserved : Nat → Prop} {S S' : System σ} {live foreign leaked big : List (Nat × Nat)}
  {pages : List Heap.HeapPage}

include lawful

theorem whole_run (whole : Whole Live sym Reserved S live foreign leaked big pages)
    (run : ReflTransGen (CleanStep A sym Reserved) S S') :
    ∃ live' foreign' leaked' big' pages', Whole Live sym Reserved S' live' foreign' leaked' big' pages' ∧
      leaked ⊆ leaked' := by
  induction run with
  | refl => exact ⟨_, _, _, _, _, whole, List.Subset.refl _⟩
  | tail _ step ih =>
      obtain ⟨_, _, _, _, _, before, grown⟩ := ih
      obtain ⟨e, step, clean⟩ := step
      obtain ⟨_, _, _, _, _, after, more⟩ := whole_step lawful before e step clean
      exact ⟨_, _, _, _, _, after, fun _ member => more (grown member)⟩

theorem whole_boots (rate reaperMain : Nat) (h : Heap.State (σ × List PageEvent)) (s : Sched.State)
    (sound : Heap.Sound Live ⟨h, [], []⟩ pages []) (half : KernelHalf Live h.mem sym.kernelPageDirectory Reserved)
    (boots : Boots A sym rate reaperMain h s S) :
    (∃ live foreign pages', Whole Live sym Reserved S live foreign [] [] pages') ∧
      (∀ x, Reserved x → S.kernel.heap.mem x = h.mem x) ∧
      ∃ m, Sched.Good S.kernel.sched S.ghost m ∧ Sched.Resting m [m.reaper] ∧ S.ghost = Sched.bootGhost m.reaper := by
  obtain ⟨main, h1, reaper, k, mainDone, reaperDone, rfl⟩ := boots
  obtain ⟨pages1, sound1, -, frame1⟩ := kmalloc_thread_spec lawful sound main h1 mainDone
  have reserved1 (x : Nat) (reserved : Reserved x) : h1.mem x = h.mem x :=
    frame1 x (kept_not_heap Reserved half.kept sound1 x reserved)
  have half1 : KernelHalf Live h1.mem sym.kernelPageDirectory Reserved := half_congr _ _ half reserved1
  rw [threadCreate] at reaperDone
  split at reaperDone
  · cases reaperDone
  rename_i new h2 built
  simp only [Except.ok.injEq, Prod.mk.injEq] at reaperDone
  obtain ⟨rfl, rfl⟩ := reaperDone
  obtain ⟨pages2, sound2, reserved2⟩ := build_thread_spec lawful half1.kept sound1 reaperMain 0 built
  have other : main ≠ new.thread := by
    rintro rfl
    exact (List.nodup_cons.mp sound2.distinct).1 (by simp)
  obtain ⟨m, good, resting⟩ := Sched.boot_resting main new.thread rate sym.kernelPageDirectory
    { (bootKernel sym main rate h1 s).sched.thread new.thread with
      esp := new.esp, stack := new.stack, pd := new.pd } s other
  have reaper : m.reaper = new.thread := good.sim.reaper.symm
  have here : ((startThread new h2 (bootKernel sym main rate h1 s)).sched.thread new.thread).stack = new.stack := by
    rw [start_thread_stack, if_pos rfl]
  refine ⟨⟨_, _, pages2, sound2, ⟨m, good⟩, half_congr _ _ half1 reserved2, ?_, ?_, ?_,
    List.nodup_singleton _, ?_, ?_, ?_⟩,
    fun x reserved => (reserved2 x reserved).trans (reserved1 x reserved), m, good, reaper ▸ resting, by rw [reaper]⟩
  · exact List.mem_cons_of_mem _ List.mem_cons_self
  · intro t
    simp [Sched.bootGhost]
  · intro t member
    obtain rfl : t = new.thread := by simpa [Sched.bootGhost] using member
    exact List.mem_cons_self
  · exact fun _ _ => List.not_mem_nil
  · have marked : (({ (startThread new h2 (bootKernel sym main rate h1 s)).sched with reaper := new.thread }).setStatus
        main .idle).thread
        new.thread = (startThread new h2 (bootKernel sym main rate h1 s)).sched.thread new.thread := by
      simp [Sched.State.setStatus, Sched.State.modify, other.symm]
    simp only [List.map_cons, List.map_nil, List.append_nil, marked, here]
    exact List.Perm.refl _
  · exact fun _ member => absurd member List.not_mem_nil

end Runs

end X86OS.Process
