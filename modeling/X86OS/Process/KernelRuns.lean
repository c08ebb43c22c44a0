import X86OS.Mm.HeapFree
import X86OS.Process.Isolation
import X86OS.Sched.Reaping

set_option autoImplicit false

namespace X86OS.Process

open Function Mem Paging Relation

variable {σ : Type}

-- The kernel over a page allocator whose calls are recorded, the scheduler's bookkeeping, and
-- which of the live threads `thread_create` and `create_process` made.
structure System (σ : Type) where
  kernel : Kernel (σ × List PageEvent)
  ghost : Sched.Ghost
  threads : List Nat
  processes : List Nat

def System.log (S : System σ) : List PageEvent := S.kernel.heap.pages.2

-- What a step does; a process is created from the image at `elf` in `mem`, and a thread is
-- reaped that `create_process` made or did not make.
inductive Event where
  | switch
  | threadCreate
  | createProcess (mem : Mem) (elf : Nat)
  | reap (process : Bool)

-- The calls of the kernel, each as a whole. All that neither makes nor destroys a thread is
-- a step of the scheduler: ticks, switches, sleep, exit and the rest of the reaper's loop.
inductive Step (A : PageAllocator σ) (sym : Symbols) : System σ → Event → System σ → Prop
  | switch (k : Kernel (σ × List PageEvent)) (s' : Sched.State) (g g' : Sched.Ghost) (threads processes : List Nat)
      (step : Sched.Step ⟨k.sched, g⟩ ⟨s', g'⟩) (alive : g'.alive = g.alive) (destroyed : g'.destroyed = g.destroyed) :
      Step A sym ⟨k, g, threads, processes⟩ .switch ⟨{ k with sched := s' }, g', threads, processes⟩
  | threadCreate (k k' : Kernel (σ × List PageEvent)) (g : Sched.Ghost) (threads processes : List Nat)
      (entry arg t : Nat) (done : threadCreate A.logged sym entry arg k = .ok (t, k')) :
      Step A sym ⟨k, g, threads, processes⟩ .threadCreate ⟨k', g.add t, t :: threads, processes⟩
  | createProcess (k k' : Kernel (σ × List PageEvent)) (g : Sched.Ghost) (threads processes : List Nat) (elf t : Nat)
      (done : createProcess A.logged sym elf k = .ok (t, k')) :
      Step A sym ⟨k, g, threads, processes⟩ (.createProcess k.heap.mem elf) ⟨k', g.add t, threads, t :: processes⟩
  | reap (k k' : Kernel (σ × List PageEvent)) (g : Sched.Ghost) (threads processes : List Nat) (t : Nat)
      (isReaper : k.sched.curThread = k.sched.reaper) (point : g.point k.sched.reaper = .destroy t)
      (done : destroyThread A.logged t k = .ok k') :
      Step A sym ⟨k, g, threads, processes⟩ (.reap (decide (t ∈ processes)))
        ⟨k', (g.remove t).move k.sched.reaper .check, threads.erase t, processes.erase t⟩

-- An image with its headers out of the page allocator's reach and all its pages below 0xC0000000.
structure LowImage (Reserved : Nat → Prop) (mem : Mem) (elf : Nat) : Prop where
  headers : ∀ x, HeaderByte mem elf x → Reserved x
  low : ∀ page, Touches mem elf page → page < 0xC0000

-- Programs stay below, and no process is reaped.
def Clean (Reserved : Nat → Prop) : Event → Prop
  | .switch => True
  | .threadCreate => True
  | .createProcess mem elf => LowImage Reserved mem elf
  | .reap process => process = false

-- `init_sched` with a `Thread` for the boot thread from `kmalloc`, then `init_reaper`.
def bootKernel (sym : Symbols) (main rate : Nat) (h : Heap.State (σ × List PageEvent)) (s : Sched.State) :
    Kernel (σ × List PageEvent) :=
  ⟨h, { Sched.initSched main rate sym.kernelPageDirectory s with zombieQue := Sched.emptyList }, 1, fun _ => 0⟩

def Boots (A : PageAllocator σ) (sym : Symbols) (rate reaperMain : Nat) (h : Heap.State (σ × List PageEvent))
    (s : Sched.State) (S : System σ) : Prop :=
  ∃ main h1 reaper k, Heap.kmalloc A.logged sizeofThread h = .ok (some main, h1) ∧
    threadCreate A.logged sym reaperMain 0 (bootKernel sym main rate h1 s) = .ok (reaper, k) ∧
    S =
      ⟨{ k with sched := { k.sched with reaper := reaper }.setStatus main .idle }, Sched.bootGhost reaper, [reaper], []⟩

theorem half_congr {Live : σ → List (Nat × Nat) → Prop} {kpd : Nat} {Reserved : Nat → Prop} (mem mem' : Mem)
    (half : KernelHalf Live mem kpd Reserved) (same : ∀ x, Reserved x → mem' x = mem x) :
    KernelHalf Live mem' kpd Reserved := by
  have word (k : Nat) (small : k < 1024) : entry mem' kpd k = entry mem kpd k :=
    entry_congr _ _ _ _ small (fun x inDir => same x (half.directory x inDir))
  refine ⟨⟨half.aligned, half.kept, half.directory, ?_, own_congr _ _ _ half.own word⟩, ?_⟩
  · intro k small table x inTable
    rw [frame_of_congr _ _ _ _ (word k small)] at inTable
    exact half.tables k small ((small_congr _ _ _ _ (word k small)).mp table) x inTable
  · intro k low
    rw [word k (by omega)]
    exact half.empty k low

section Calls

variable {A : PageAllocator σ} {Live : σ → List (Nat × Nat) → Prop} (lawful : A.Lawful Live) {sym : Symbols}
  {Reserved : Nat → Prop} {live foreign big : List (Nat × Nat)} {pages : List Heap.HeapPage} {h h' : Heap.State σ}
  {new : NewThread}

include lawful

theorem build_thread_frame (sound : Heap.Sound Live ⟨h, live, foreign⟩ pages big) (entry arg : Nat)
    (done : buildThread A sym entry arg h = .ok (new, h')) :
    ∃ pages', Heap.Sound Live ⟨h', (new.thread, sizeofThread) :: live, (new.stack, 0) :: foreign⟩ pages' big ∧
      (∀ x, Heap.InPages pages x → Heap.InPages pages' x) ∧
      ∀ x, ¬ Heap.InPages pages' x → ¬ InPage (p2v new.stack) x → h'.mem x = h.mem x := by
  rw [buildThread] at done
  split at done
  · cases done
  rename_i stack s' alloc
  simp only at done
  split at done
  · cases done
  · cases done
  rename_i thread h1 threadDone
  simp only [Except.ok.injEq, Prod.mk.injEq] at done
  obtain ⟨rfl, rfl⟩ := done
  obtain ⟨pages', sound1, grown, frame1⟩ :=
    kmalloc_thread_spec lawful (sound_take lawful s' 0 stack sound alloc) thread h1 threadDone
  have pushed (x : Nat) :=
    page_stack_frame lawful stack x ([thread, arg, entry, 0, sym.kthreadStub] ++ zeroRegisters) h1.mem _ _
    sound1.owned.owner (by simp) (by simp [zeroRegisters])
  exact ⟨pages', sound_block_write lawful sound1 stack _ (by simp) pushed, grown,
    fun x notHeap notStack => (pushed x notStack).trans (frame1 x notHeap)⟩

theorem build_thread_spec (kept : KeptOut Live Reserved) (sound : Heap.Sound Live ⟨h, live, foreign⟩ pages big)
    (entry arg : Nat) (done : buildThread A sym entry arg h = .ok (new, h')) :
    ∃ pages', Heap.Sound Live ⟨h', (new.thread, sizeofThread) :: live, (new.stack, 0) :: foreign⟩ pages' big ∧
      ∀ x, Reserved x → h'.mem x = h.mem x := by
  obtain ⟨pages', sound1, -, frame⟩ := build_thread_frame lawful sound entry arg done
  refine ⟨pages', sound1, fun x reserved => frame x (kept_not_heap Reserved kept sound1 x reserved) (fun inStack => ?_)⟩
  exact kept _ _ sound1.owned.owner (new.stack, 0) (by simp) x inStack.1 inStack.2 reserved

theorem destroy_thread_spec (kept : KeptOut Live Reserved) (k : Kernel σ)
    (sound : Heap.Sound Live ⟨k.heap, live, foreign⟩ pages big) (t : Nat) (object : (t, sizeofThread) ∈ live)
    (rest : List (Nat × Nat)) (stack : foreign.Perm (((k.sched.thread t).stack, 0) :: rest)) :
    ∃ h' live' pages' big', destroyThread A t k = .ok { k with heap := h' } ∧
      Heap.Sound Live ⟨h', live', rest⟩ pages' big' ∧
      (∀ x, x ≠ t → (x, sizeofThread) ∈ live → (x, sizeofThread) ∈ live') ∧ ∀ x, Reserved x →
        h'.mem x = k.heap.mem x := by
  have sound1 : Heap.Sound Live
      ⟨{ k.heap with pages := A.free (k.sched.thread t).stack k.heap.pages }, live, rest⟩ pages big := by
    refine ⟨Heap.owned_pages k.heap pages _ _ _ sound.owned (lawful.freed _ _ 0 _ ?_), sound.backed, sound.distinct⟩
    apply lawful.reorder _ _ _ _ sound.owned.owner
    have moved : (big ++ foreign).Perm (((k.sched.thread t).stack, 0) :: (big ++ rest)) :=
      (stack.append_left big).trans List.perm_middle
    exact (moved.append_left _).trans List.perm_middle
  obtain ⟨front, back, rfl⟩ := List.append_of_mem object
  obtain ⟨h', pages', big', freed, sound2, frame⟩ :=
    Heap.kfree_live_spec lawful _ front back rest big pages t sizeofThread sound1
  refine ⟨h', front ++ back, pages', big', ?_, sound2, ?_, ?_⟩
  · rw [destroyThread, freed]
  · intro x other member
    simp only [List.mem_append, List.mem_cons, Prod.mk.injEq] at member ⊢
    tauto
  · exact fun x reserved => frame x (.inr (kept_not_heap Reserved kept sound1 x reserved))

end Calls

end X86OS.Process
