import X86OS.Process.Lifetime
import X86OS.Process.Walls

set_option autoImplicit false

namespace X86OS.Process

open Function Mem Paging Relation

variable {σ : Type}

-- The byte that the program of a thread reads at an offset of a page, if it may.
def userByte (S : System σ) (t page off : Nat) : Option UInt8 :=
  let mem := S.kernel.heap.mem
  let pd := (S.kernel.sched.thread t).pd
  if userAccessible mem pd page then (translate mem pd page).map (fun walk => mem (p2v walk.1 + off)) else none

def System.write (S : System σ) (x : Nat) (value : UInt8) : System σ :=
  { S with kernel := { S.kernel with heap := { S.kernel.heap with mem := writeByte S.kernel.heap.mem x value } } }

-- An image is loaded into blank frames; `map_range` would take what it finds in them for page tables.
def BlankFrames (A : PageAllocator σ) (S : System σ) : Event → Prop
  | .switch => True
  | .threadCreate => True
  | .createProcess mem elf => Zeroed A.logged mem (requests mem elf) S.kernel.heap.pages
  | .reap _ => True

-- A call of the kernel, clean and with zeroed frames for `create_process`, or a store of the program that has the
-- processor, through the directory in `cr3`.
inductive Move (A : PageAllocator σ) (sym : Symbols) (Reserved : Nat → Prop) : System σ → Option Nat → System σ → Prop
  | kernel (S S' : System σ) (e : Event) (step : Step A sym S e S') (clean : Clean Reserved e)
      (blank : BlankFrames A S e) :
      Move A sym Reserved S none S'
  | store (S : System σ) (page off f : Nat) (value : UInt8) (program : S.kernel.sched.curThread ∈ S.processes)
      (inside : page < 2 ^ 20) (few : off < 0x1000)
      (shown : UserFrame S.kernel.heap.mem (p2v S.kernel.sched.cr3) page f)
      (allowed : writable S.kernel.heap.mem (p2v S.kernel.sched.cr3) page = true) :
      Move A sym Reserved S (some S.kernel.sched.curThread) (S.write (p2v f + off) value)

def owned (processes : List Nat) (frames : Nat → List Nat) : List (Nat × Nat) :=
  processes.flatMap (fun t => pageBlocks (frames t))

-- Each process has a directory and frames of its own, and its walls stand.
structure Separated (Live : σ × List PageEvent → List (Nat × Nat) → Prop) (sym : Symbols)
    (Reserved : Nat → Prop) (S : System σ) (live foreign big : List (Nat × Nat)) (pages : List Heap.HeapPage)
    (dir : Nat → Nat)
    (frames : Nat → List Nat) : Prop where
  whole : Whole Live sym Reserved S live foreign (owned S.processes frames) big pages
  place : Sched.InPlace S.kernel.sched
  once : S.processes.Nodup
  closed : Closed S.kernel.heap.mem sym.kernelPageDirectory
  space : ∀ t ∈ S.processes, (S.kernel.sched.thread t).pd = p2v (dir t)
  walls : ∀ t ∈ S.processes, Walls S.kernel.heap.mem sym.kernelPageDirectory (dir t) (frames t)

-- What a move leaves alone; `who` may have written to its own memory.
structure Spares (Reserved : Nat → Prop) (who : Option Nat) (S S' : System σ) (dir dir' : Nat → Nat)
    (frames frames' : Nat → List Nat) :
    Prop where
  kernel : ∀ x, Reserved x → S'.kernel.heap.mem x = S.kernel.heap.mem x
  process : ∀ u ∈ S.processes, u ∈ S'.processes ∧ dir' u = dir u ∧ frames' u = frames u
  memory :
    ∀ u ∈ S.processes, who ≠ some u → ∀ f ∈ frames u, ∀ x, InPage (p2v f) x → S'.kernel.heap.mem x = S.kernel.heap.mem x

theorem owned_frame (processes : List Nat) (frames : Nat → List Nat) (t f x : Nat) (process : t ∈ processes)
    (member : f ∈ frames t) (inside : InPage (p2v f) x) : InBlocks (owned processes frames) x :=
  ⟨(f, 0), List.mem_flatMap.mpr ⟨t, process, List.mem_map_of_mem member⟩, inside.1, inside.2⟩

theorem owned_new (processes : List Nat) (frames : Nat → List Nat) (t : Nat) (taken : List Nat)
    (other : t ∉ processes) :
    owned (t :: processes) (update frames t taken) = pageBlocks taken ++ owned processes frames := by
  rw [owned, List.flatMap_cons, update_self]
  congr 1
  apply List.flatMap_congr
  intro u member
  rw [update_of_ne (ne_of_mem_of_not_mem member other)]

theorem start_thread_pd (new : NewThread) (h : Heap.State σ) (k : Kernel σ) (t : Nat) :
    ((startThread new h k).sched.thread t).pd = if t = new.thread then new.pd else (k.sched.thread t).pd := by
  by_cases here : t = new.thread <;>
    simp [startThread, Sched.threadReady, Sched.State.setStatus, Sched.State.setQue, Sched.State.modify, here]

theorem start_in_place (new : NewThread) (h : Heap.State σ) (k : Kernel σ) (other : new.thread ≠ k.sched.curThread)
    (place : Sched.InPlace k.sched) : Sched.InPlace (startThread new h k).sched :=
  Sched.ready_in_place k.sched new.thread
    { k.sched.thread new.thread with esp := new.esp, stack := new.stack, pd := new.pd } other place

theorem destroy_thread_sched (A : PageAllocator σ) (t : Nat) (k k' : Kernel σ) (done : destroyThread A t k = .ok k') :
    k'.sched = k.sched := by
  rw [destroyThread] at done
  split at done
  · cases done
  · cases done
    rfl

section Steps

variable {A : PageAllocator σ} {Live : σ × List PageEvent → List (Nat × Nat) → Prop} (lawful : A.logged.Lawful Live)
  {sym : Symbols} {Reserved : Nat → Prop} {S S' : System σ} {live foreign big : List (Nat × Nat)}
  {pages : List Heap.HeapPage} {dir : Nat → Nat} {frames : Nat → List Nat}
  (sep : Separated Live sym Reserved S live foreign big pages dir frames)

include sep

theorem separated_closed (same : ∀ x, Reserved x → S'.kernel.heap.mem x = S.kernel.heap.mem x) :
    Closed S'.kernel.heap.mem sym.kernelPageDirectory := by
  intro k small
  rw [entry_congr _ _ _ _ small (fun x inDir => same x (sep.whole.half.directory x inDir))]
  exact sep.closed k small

theorem separated_keep {live' foreign' big' : List (Nat × Nat)} {pages' : List Heap.HeapPage}
    (processes : S'.processes = S.processes)
    (whole : Whole Live sym Reserved S' live' foreign' (owned S.processes frames) big' pages')
    (place : Sched.InPlace S'.kernel.sched)
    (pd : ∀ t ∈ S.processes, (S'.kernel.sched.thread t).pd = (S.kernel.sched.thread t).pd)
    (same : ∀ x, Reserved x ∨ InBlocks (owned S.processes frames) x → S'.kernel.heap.mem x = S.kernel.heap.mem x) :
    Separated Live sym Reserved S' live' foreign' big' pages' dir frames := by
  refine ⟨processes ▸ whole, place, processes ▸ sep.once,
    separated_closed sep (fun x reserved => same x (.inl reserved)), ?_, ?_⟩
  · intro t member
    rw [processes] at member
    rw [pd t member]
    exact sep.space t member
  · intro t member
    rw [processes] at member
    exact walls_congr (sep.walls t member) sep.whole.half (fun x reserved => same x (.inl reserved))
      (fun f inFrames _ x inside => same x (.inr (owned_frame _ frames t f x member inFrames inside)))

theorem separated_current {new : NewThread} (dead : new.thread ∉ S.ghost.alive)
    (notIdle : new.thread ≠ S.kernel.sched.idleThread) :
    new.thread ≠ S.kernel.sched.curThread := by
  obtain ⟨m, good⟩ := sep.whole.sched
  intro same
  rw [same, good.sim.cur] at dead notIdle
  rcases good.inv.cur with idle | alive
  · exact notIdle (idle.trans good.sim.idle.symm)
  · exact dead alive

include lawful

theorem separated_spares (e : Event) (step : Step A sym S e S') (clean : Clean Reserved e)
    (processes : ∀ u ∈ S.processes, u ∈ S'.processes) :
    Spares Reserved none S S' dir dir frames frames := by
  have same := step_keeps_leaked lawful sep.whole e step clean
  refine ⟨fun x reserved => same x (.inl reserved), fun u member => ⟨processes u member, rfl, rfl⟩, ?_⟩
  exact fun u member _ f inFrames x inside => same x (.inr (owned_frame _ frames u f x member inFrames inside))

theorem separated_create (elf t : Nat) (k' : Kernel (σ × List PageEvent))
    (done : createProcess A.logged sym elf S.kernel = .ok (t, k')) (image : LowImage Reserved S.kernel.heap.mem elf)
    (zeroed : Zeroed A.logged S.kernel.heap.mem (requests S.kernel.heap.mem elf) S.kernel.heap.pages) :
    ∃ live' foreign' big' pages' dir' frames',
      Separated Live sym Reserved ⟨k', S.ghost.add t, S.threads, t :: S.processes⟩ live' foreign' big'
        pages' dir' frames' ∧
      Spares Reserved none S ⟨k', S.ghost.add t, S.threads, t :: S.processes⟩ dir dir' frames frames' := by
  have step : Step A sym S (.createProcess S.kernel.heap.mem elf) ⟨k', S.ghost.add t, S.threads, t :: S.processes⟩ :=
    .createProcess S.kernel k' S.ghost S.threads S.processes elf t done
  have same := step_keeps_leaked lawful sep.whole _ step image
  obtain ⟨new, result, rfl, started, pd, -⟩ := create_process_spec A.logged sym elf t S.kernel k' done
  obtain ⟨dir₀, kernelStack, taken, segments, shown, pages', built⟩ :=
    build_process_built lawful (whole_space sep.whole elf image) sep.whole.heap rfl result
  have whole' := whole_started lawful sep.whole elf image started built
  obtain ⟨dead, notIdle, notThread, notProcess⟩ :=
    whole_fresh sep.whole new.thread _ ((p2v kernelStack, 0x1000) :: live)
    built.loading.sound.distinct (List.subset_cons_self _ _)
  have others (u : Nat) (member : u ∈ S.processes) : u ≠ new.thread := ne_of_mem_of_not_mem member notProcess
  rw [← owned_new S.processes frames new.thread taken notProcess] at whole'
  refine ⟨_, _, _, pages', update dir new.thread dir₀, update frames new.thread taken, ⟨whole', ?_, ?_, ?_, ?_, ?_⟩, ?_⟩
  · simp only
    rw [started]
    exact start_in_place new k'.heap S.kernel (separated_current sep dead notIdle) sep.place
  · exact List.nodup_cons.mpr ⟨notProcess, sep.once⟩
  · exact separated_closed sep (fun x reserved => same x (.inl reserved))
  · intro u member
    rcases List.mem_cons.mp member with rfl | old
    · rw [update_self]
      exact pd.trans built.pd
    · simp only
      rw [update_of_ne (others u old), started, start_thread_pd, if_neg (others u old)]
      exact sep.space u old
  · intro u member
    rcases List.mem_cons.mp member with rfl | old
    · rw [update_self, update_self]
      exact process_walls lawful sep.whole.half image built sep.whole.heap sep.closed result zeroed
    · rw [update_of_ne (others u old), update_of_ne (others u old)]
      exact walls_congr (sep.walls u old) sep.whole.half (fun x reserved => same x (.inl reserved))
        (fun f inFrames _ x inside => same x (.inr (owned_frame _ frames u f x old inFrames inside)))
  · refine ⟨fun x reserved => same x (.inl reserved), fun u member => ?_, fun u member _ f inFrames x inside => ?_⟩
    · exact ⟨List.mem_cons_of_mem _ member, update_of_ne (others u member) _ _, update_of_ne (others u member) _ _⟩
    · exact same x (.inr (owned_frame _ frames u f x member inFrames inside))

theorem separated_kernel (e : Event) (step : Step A sym S e S') (clean : Clean Reserved e) (blank : BlankFrames A S e) :
    ∃ live' foreign' big' pages' dir' frames', Separated Live sym Reserved S' live' foreign' big' pages' dir' frames' ∧
      Spares Reserved none S S' dir dir' frames frames' := by
  have same := step_keeps_leaked lawful sep.whole e step clean
  cases step with
  | switch k s' g g' threads processes moved alive destroyed =>
      have spares := separated_spares lawful sep .switch (.switch k s' g g' threads processes moved alive destroyed)
        clean (fun _ => id)
      obtain ⟨m, good⟩ := sep.whole.sched
      have moves : Sched.Relocates k.sched s' := by
        rcases Sched.step_moves _ _ _ _ moved with moves | ⟨t, thread, new, -, -, made⟩
        · exact moves
        · rw [made] at alive
          exact absurd (congrArg List.length alive) (by simp [Sched.Ghost.add])
      exact ⟨_, _, _, _, dir, frames, separated_keep sep rfl (whole_switch sep.whole s' g' moved alive)
        (Sched.step_in_place _ _ _ _ m good moved sep.place) (fun t _ => Sched.relocates_pd _ _ moves t) same, spares⟩
  | threadCreate k k' g threads processes entry arg t done =>
      have spares := separated_spares lawful sep .threadCreate (.threadCreate k k' g threads processes entry arg t done)
        clean (fun _ => id)
      obtain ⟨live', foreign', pages', whole'⟩ := whole_thread_create lawful sep.whole entry arg t k' done
      rw [threadCreate] at done
      split at done
      · cases done
      rename_i new h' built
      simp only [Except.ok.injEq, Prod.mk.injEq] at done
      obtain ⟨rfl, rfl⟩ := done
      obtain ⟨pages1, sound1, -⟩ := build_thread_spec lawful sep.whole.half.kept sep.whole.heap entry arg built
      obtain ⟨dead, notIdle, -, notProcess⟩ :=
        whole_fresh sep.whole new.thread _ live sound1.distinct (List.Subset.refl _)
      exact ⟨_, _, _, _, dir, frames, separated_keep sep rfl whole'
        (start_in_place new h' k (separated_current sep dead notIdle) sep.place)
        (fun u member => (start_thread_pd new h' k u).trans (if_neg (ne_of_mem_of_not_mem member notProcess)))
          same, spares⟩
  | createProcess k k' g threads processes elf t done => exact separated_create lawful sep elf t k' done clean blank
  | reap k k' g threads processes t isReaper point done =>
      have thread : t ∉ processes := of_decide_eq_false clean
      have erased : processes.erase t = processes := List.erase_of_not_mem thread
      have spares := separated_spares lawful sep _ (.reap k k' g threads processes t isReaper point done) clean
        (fun u member => by rw [erased]; exact member)
      obtain ⟨live', foreign', big', pages', whole'⟩ := whole_reap lawful sep.whole t k' isReaper point done thread
      have sched := destroy_thread_sched A.logged t k k' done
      refine ⟨_, _, _, _, dir, frames, separated_keep sep erased whole' ?_ (fun u _ => ?_) same, spares⟩
      · exact sched ▸ sep.place
      · simp only [sched]

-- What belongs to the kernel: the reserved bytes, the heap with its large blocks, and the stacks of its threads.
def KernelByte (Reserved : Nat → Prop) (S : System σ) (big : List (Nat × Nat)) (pages : List Heap.HeapPage)
    (x : Nat) : Prop :=
  Reserved x ∨ Heap.InPages pages x ∨ InBlocks big x ∨
    InBlocks (S.threads.map (fun t => ((S.kernel.sched.thread t).stack, 0))) x

omit lawful in
theorem separated_foreign (t f : Nat) (process : t ∈ S.processes) (member : f ∈ frames t) :
    (f, 0) ∈ owned S.processes frames ∧ (f, 0) ∈ foreign := by
  have lost : (f, 0) ∈ owned S.processes frames := List.mem_flatMap.mpr ⟨t, process, List.mem_map_of_mem member⟩
  exact ⟨lost, sep.whole.held.mem_iff.mpr (List.mem_append_right _ lost)⟩

theorem separated_blocks : (∀ a ∈ big, ∀ b ∈ owned S.processes frames, Apart a b) ∧
    (∀ a ∈ S.threads.map (fun t => ((S.kernel.sched.thread t).stack, 0)), ∀ b ∈ owned S.processes frames, Apart a b) ∧
    (owned S.processes frames).Pairwise Apart := by
  obtain ⟨-, rest, -⟩ := List.pairwise_append.mp (lawful.apart _ _ sep.whole.heap.owned.owner)
  obtain ⟨-, others, across⟩ := List.pairwise_append.mp rest
  obtain ⟨-, owners, stackApart⟩ :=
    List.pairwise_append.mp ((sep.whole.held.pairwise_iff (Std.Symm.symm _ _)).mp others)
  exact ⟨fun a inBig b inOwned => across a inBig b (sep.whole.held.mem_iff.mpr (List.mem_append_right _ inOwned)),
    stackApart, owners⟩

theorem separated_frame (t f : Nat) (process : t ∈ S.processes) (member : f ∈ frames t) :
    0x1000 ∣ f ∧ f < 2 ^ 32 ∧ ∀ x, InPage (p2v f) x → ¬ KernelByte Reserved S big pages x := by
  obtain ⟨lost, inForeign⟩ := separated_foreign sep t f process member
  have owner := sep.whole.heap.owned.owner
  have inRest : (f, 0) ∈ big ++ foreign := List.mem_append_right _ inForeign
  have block : (f, 0) ∈ pages.map Heap.pageBlock ++ (big ++ foreign) := List.mem_append_right _ inRest
  obtain ⟨aligned, low⟩ := lawful.inRam _ _ owner _ block
  obtain ⟨bigApart, stackApart, -⟩ := separated_blocks lawful sep
  refine ⟨aligned, by simp only at low; omega, ?_⟩
  rintro x inPage (reserved | inHeap | ⟨other, inBig, inOther⟩ | ⟨other, isStack, inOther⟩)
  · exact sep.whole.half.kept _ _ owner _ block x inPage.1 inPage.2 reserved
  · exact Heap.block_outside lawful _ pages _ sep.whole.heap.owned f 0 x inRest inPage.1 inPage.2 inHeap
  · exact blocks_disjoint lawful _ _ owner other (f, 0) (List.mem_append_right _ (List.mem_append_left _ inBig)) block
      (bigApart other inBig _ lost) x inOther inPage
  · have inStacks := sep.whole.held.mem_iff.mpr (List.mem_append_left _ isStack)
    exact blocks_disjoint lawful _ _ owner other (f, 0)
      (List.mem_append_right _ (List.mem_append_right _ inStacks)) block (stackApart other isStack _ lost) x inOther
      inPage

theorem separated_apart (t u f f' : Nat) (process : t ∈ S.processes) (process' : u ∈ S.processes) (other : t ≠ u)
    (member : f ∈ frames t) (member' : f' ∈ frames u) : f ≠ f' := by
  obtain ⟨-, -, owners⟩ := separated_blocks lawful sep
  obtain ⟨-, across⟩ := List.pairwise_flatMap.mp owners
  have symm : Std.Symm (fun t u => ∀ a ∈ pageBlocks (frames t), ∀ b ∈ pageBlocks (frames u), Apart a b) :=
    ⟨fun t u apart a inA b inB => (apart b inB a inA).symm⟩
  have apart :=
    across.forall process process' other (f, 0) (List.mem_map_of_mem member) (f', 0) (List.mem_map_of_mem member')
  simp only [Apart] at apart
  omega

theorem separated_user (t page f : Nat) (process : t ∈ S.processes) (inside : page < 2 ^ 20)
    (shown : UserFrame S.kernel.heap.mem (S.kernel.sched.thread t).pd page f) :
    f ∈ frames t ∧ ∀ u ∈ S.processes, ¬ PagingFrame S.kernel.heap.mem (dir u) f := by
  rw [sep.space t process] at shown
  obtain ⟨member, notPaging⟩ := (sep.walls t process).pages page f inside shown
  refine ⟨member, fun u process' paging => ?_⟩
  by_cases same : u = t
  · exact notPaging (same ▸ paging)
  have outside (x : Nat) (inPage : InPage (p2v f) x) : ¬ Reserved x :=
    fun reserved => (separated_frame lawful sep t f process member).2.2 x inPage (.inl reserved)
  rcases paging with isDir | ⟨k, small, table, isTable⟩
  · exact separated_apart lawful sep u t _ f process' process same (sep.walls u process').dirTaken member isDir.symm
  · rcases (sep.walls u process').slots k small with word | taken
    · have frame : frameOf S.kernel.heap.mem sym.kernelPageDirectory k = f :=
        (congrArg (· &&& pageMask) word).symm.trans isTable
      rw [Paging.Small, word] at table
      refine outside (p2v f) ⟨le_refl _, by omega⟩ (sep.whole.half.tables k small table _ ?_)
      rw [frame]
      exact ⟨le_refl _, by omega⟩
    · exact separated_apart lawful sep u t _ f process' process same taken member isTable

theorem separated_store (page off f : Nat) (value : UInt8) (program : S.kernel.sched.curThread ∈ S.processes)
    (inside : page < 2 ^ 20) (few : off < 0x1000)
    (shown : UserFrame S.kernel.heap.mem (p2v S.kernel.sched.cr3) page f) :
    Separated Live sym Reserved (S.write (p2v f + off) value) live foreign big pages dir frames ∧
      Spares Reserved (some S.kernel.sched.curThread) S (S.write (p2v f + off) value) dir dir frames frames := by
  have own := sep.space _ program
  have loaded : p2v S.kernel.sched.cr3 = (S.kernel.sched.thread S.kernel.sched.curThread).pd := by
    obtain ⟨-, bound, -⟩ := separated_frame lawful sep _ _ program (sep.walls _ program).dirTaken
    rw [sep.place.space, own, v2p_p2v _ bound]
  rw [loaded] at shown
  obtain ⟨member, notPaging⟩ := separated_user lawful sep _ page f program inside shown
  obtain ⟨aligned, bound, outside⟩ := separated_frame lawful sep _ f program member
  have same (x : Nat) (notHere : ¬ InPage (p2v f) x) :
      (S.write (p2v f + off) value).kernel.heap.mem x = S.kernel.heap.mem x :=
    write_byte_frame _ _ _ _ (fun here => notHere (here ▸ ⟨by omega, by omega⟩))
  have reserved (x : Nat) (kept : Reserved x) : (S.write (p2v f + off) value).kernel.heap.mem x = S.kernel.heap.mem x :=
    same x (fun inPage => outside x inPage (.inl kept))
  have elsewhere (u f' x : Nat) (process : u ∈ S.processes) (inFrames : f' ∈ frames u) (other : f' ≠ f)
      (inPage : InPage (p2v f') x) :
      (S.write (p2v f + off) value).kernel.heap.mem x = S.kernel.heap.mem x := by
    obtain ⟨aligned', bound', -⟩ := separated_frame lawful sep u f' process inFrames
    exact same x (frames_apart f' f x aligned' aligned bound' bound other inPage)
  have whole := sep.whole
  refine ⟨⟨⟨?_, whole.sched, half_congr _ _ whole.half reserved, whole.idle, whole.alive, whole.objects, whole.once,
    whole.apart, whole.held, whole.high⟩, sep.place, sep.once, separated_closed sep reserved, sep.space, ?_⟩, ?_⟩
  · exact sound_block_write lawful whole.heap f _
      (List.mem_append_right _ (separated_foreign sep _ f program member).2) same
  · intro u process
    refine walls_congr (sep.walls u process) whole.half reserved (fun f' inFrames paging x inPage => ?_)
    refine elsewhere u f' x process inFrames ?_ inPage
    rintro rfl
    exact notPaging u process paging
  · refine ⟨reserved, fun u process => ⟨process, rfl, rfl⟩, fun u process notSelf f' inFrames x inPage => ?_⟩
    have other : u ≠ S.kernel.sched.curThread := fun same => notSelf (congrArg some same.symm)
    exact elsewhere u f' x process inFrames
      (separated_apart lawful sep u _ f' f process program other inFrames member) inPage

theorem separated_move (who : Option Nat) (move : Move A sym Reserved S who S') :
    ∃ live' foreign' big' pages' dir' frames', Separated Live sym Reserved S' live' foreign' big' pages' dir' frames' ∧
      Spares Reserved who S S' dir dir' frames frames' := by
  cases move with
  | kernel _ e step clean blank => exact separated_kernel lawful sep e step clean blank
  | store page off f value program inside few shown allowed =>
      obtain ⟨sep', spares⟩ := separated_store lawful sep page off f value program inside few shown
      exact ⟨_, _, _, _, _, _, sep', spares⟩

omit lawful sep in
theorem user_byte_none (t page off : Nat) (shut : ¬ UserReaches S.kernel.heap.mem (S.kernel.sched.thread t).pd page) :
    userByte S t page off = none := by
  simp only [userByte]
  split
  · rename_i user
    cases walk : translate S.kernel.heap.mem (S.kernel.sched.thread t).pd page with
    | none => rfl
    | some frame => exact absurd ⟨by rw [walk]; rfl, user⟩ shut
  · rfl

omit lawful in
theorem spares_user_byte {live' foreign' big' : List (Nat × Nat)} {pages' : List Heap.HeapPage} {dir' : Nat → Nat}
    {frames' : Nat → List Nat} (sep' : Separated Live sym Reserved S' live' foreign' big' pages' dir' frames')
    (who : Option Nat) (spares : Spares Reserved who S S' dir dir' frames frames') (u : Nat) (process : u ∈ S.processes)
    (other : who ≠ some u) (page off : Nat) (inside : page < 2 ^ 20) (few : off < 0x1000) :
    userByte S' u page off = userByte S u page off := by
  obtain ⟨process', sameDir, -⟩ := spares.process u process
  have tables : SameTables S.kernel.heap.mem S'.kernel.heap.mem (dir u) :=
    walls_tables (sep.walls u process) sep.whole.half spares.kernel
    (fun f inFrames _ => spares.memory u process other f inFrames)
  have slot : page / 1024 < 1024 := by omega
  have word := tables.directory (page / 1024) slot
  have table := tables.tables (page / 1024) (page % 1024) slot (Nat.mod_lt _ (by decide))
  have place : (S'.kernel.sched.thread u).pd = p2v (dir u) := by rw [sep'.space u process', sameDir]
  have reachable : UserReaches S'.kernel.heap.mem (S'.kernel.sched.thread u).pd page ↔
      UserReaches S.kernel.heap.mem (S.kernel.sched.thread u).pd page := by
    rw [place, sep.space u process]
    exact user_reaches_congr _ _ _ _ page word table
  by_cases reaches : UserReaches S.kernel.heap.mem (S.kernel.sched.thread u).pd page
  · have reaches' := reachable.mpr reaches
    have same : translate S'.kernel.heap.mem (S'.kernel.sched.thread u).pd page =
        translate S.kernel.heap.mem (S.kernel.sched.thread u).pd page := by
      rw [place, sep.space u process]
      exact translate_congr _ _ _ _ page word table
    obtain ⟨⟨f, flags⟩, walk⟩ := Option.isSome_iff_exists.mp reaches.1
    have shown : UserFrame S.kernel.heap.mem (p2v (dir u)) page f := by
      rw [← sep.space u process]
      exact ⟨reaches, by rw [walk]; rfl⟩
    have inFrames := ((sep.walls u process).pages page f inside shown).1
    rw [userByte, userByte, if_pos reaches'.2, if_pos reaches.2, same, walk, Option.map_some, Option.map_some]
    exact congrArg some (spares.memory u process other f inFrames (p2v f + off) ⟨by omega, by omega⟩)
  · rw [user_byte_none u page off reaches, user_byte_none u page off (fun reaches' => reaches (reachable.mp reaches'))]

theorem separated_run (run : ReflTransGen (fun S S' => ∃ who, Move A sym Reserved S who S') S S') :
    ∃ live' foreign' big' pages' dir' frames',
      Separated Live sym Reserved S' live' foreign' big' pages' dir' frames' := by
  induction run with
  | refl => exact ⟨_, _, _, _, _, _, sep⟩
  | tail _ move ih =>
      obtain ⟨_, _, _, _, _, _, before⟩ := ih
      obtain ⟨who, move⟩ := move
      obtain ⟨_, _, _, _, _, _, after, -⟩ := separated_move lawful before who move
      exact ⟨_, _, _, _, _, _, after⟩

theorem private_run (u : Nat) (process : u ∈ S.processes)
    (run : ReflTransGen (fun S S' => ∃ who, who ≠ some u ∧ Move A sym Reserved S who S') S S') :
    (∃ live' foreign' big' pages' dir' frames',
      Separated Live sym Reserved S' live' foreign' big' pages' dir' frames') ∧
      u ∈ S'.processes ∧ ∀ page off, page < 2 ^ 20 → off < 0x1000 → userByte S' u page off = userByte S u page off := by
  induction run with
  | refl => exact ⟨⟨_, _, _, _, _, _, sep⟩, process, fun _ _ _ _ => rfl⟩
  | tail _ move ih =>
      obtain ⟨⟨_, _, _, _, _, _, before⟩, member, same⟩ := ih
      obtain ⟨who, other, move⟩ := move
      obtain ⟨_, _, _, _, _, _, after, spares⟩ := separated_move lawful before who move
      refine ⟨⟨_, _, _, _, _, _, after⟩, (spares.process u member).1, fun page off inside few => ?_⟩
      rw [spares_user_byte before after who spares u member other page off inside few, same page off inside few]

end Steps

end X86OS.Process
