import X86OS.Process.Separation

set_option autoImplicit false

namespace X86OS.Process

open Function Mem Paging Relation

variable {σ : Type}

section Boot

variable {A : PageAllocator σ} {Live : σ → List (Nat × Nat) → Prop} (lawful : A.Lawful Live) {sym : Symbols}
  {Reserved : Nat → Prop}

theorem boots_in_place (rate reaperMain : Nat) (h : Heap.State (σ × List PageEvent)) (s : Sched.State) (S : System σ)
    (boots : Boots A sym rate reaperMain h s S) (m : Sched.Model) (good : Sched.Good S.kernel.sched S.ghost m)
    (loaded : S.kernel.sched.cr3 = v2p sym.kernelPageDirectory) : Sched.InPlace S.kernel.sched ∧ S.processes = [] := by
  obtain ⟨main, h1, reaper, k, mainDone, reaperDone, rfl⟩ := boots
  refine ⟨?_, rfl⟩
  rw [threadCreate] at reaperDone
  split at reaperDone
  · cases reaperDone
  rename_i new h2 built
  simp only [Except.ok.injEq, Prod.mk.injEq] at reaperDone
  obtain ⟨rfl, rfl⟩ := reaperDone
  have idle : m.idle = main := good.sim.idle.symm
  have other : new.thread ≠ main := by
    intro same
    exact good.inv.idleOut (by rw [idle, ← same]; exact List.mem_singleton_self _)
  have first : Sched.InPlace (bootKernel sym main rate h1 s).sched := by
    refine ⟨?_, fun notIdle => absurd rfl notIdle⟩
    have pd : ((bootKernel sym main rate h1 s).sched.thread main).pd = sym.kernelPageDirectory := by
      simp [bootKernel, Sched.initSched, Sched.State.modify]
    exact loaded.trans (congrArg v2p pd.symm)
  have second := start_in_place new h2 (bootKernel sym main rate h1 s) other first
  refine Sched.in_place_same _ _ (Sched.status_place _ main .idle) ?_
  exact ⟨second.space, second.stack⟩

include lawful

theorem booted_separated (S : System σ) (start : Booted A Live sym Reserved S)
    (closed : Closed S.kernel.heap.mem sym.kernelPageDirectory)
    (loaded : S.kernel.sched.cr3 = v2p sym.kernelPageDirectory) :
    ∃ live foreign big pages dir frames,
      Separated (LoggedLive Live) sym Reserved S live foreign big pages dir frames := by
  obtain ⟨h₀, h, s, rate, reaperMain, blank, unused, owner, init, half, boots⟩ := start
  have logged := logged_lawful A Live lawful
  have idle : LoggedLive Live h₀.pages [] := by
    refine ⟨owner, ?_, ?_⟩ <;> rw [unused]
    · trivial
    · exact .nil
  obtain ⟨p, sound, -⟩ := Heap.init_kmalloc_sound logged h₀ h [] blank idle init
  obtain ⟨⟨live, foreign, pages, whole⟩, -, m, good, -⟩ :=
    whole_boots logged rate reaperMain h s sound (half_logged half) boots
  obtain ⟨place, none⟩ := boots_in_place rate reaperMain h s S boots m good loaded
  refine ⟨live, foreign, [], pages, id, fun _ => [], ?_, place, by simp [none], closed, by simp [none], by simp [none]⟩
  rw [none]
  exact whole

end Boot

section Sample

theorem boots_frame {A : PageAllocator σ} {Live : σ × List PageEvent → List (Nat × Nat) → Prop}
    (lawful : A.logged.Lawful Live) {sym : Symbols} {pages : List Heap.HeapPage} (rate reaperMain : Nat)
    (h : Heap.State (σ × List PageEvent)) (s : Sched.State) (S : System σ)
    (sound : Heap.Sound Live ⟨h, [], []⟩ pages []) (boots : Boots A sym rate reaperMain h s S) :
    ∃ live foreign pages', Heap.Sound Live ⟨S.kernel.heap, live, foreign⟩ pages' [] ∧
      (∀ x, Heap.InPages pages x → Heap.InPages pages' x) ∧
      ∀ x, ¬ Heap.InPages pages' x → ¬ InBlocks foreign x → S.kernel.heap.mem x = h.mem x := by
  obtain ⟨main, h1, reaper, k, mainDone, reaperDone, rfl⟩ := boots
  obtain ⟨pages1, sound1, grown1, frame1⟩ := kmalloc_thread_spec lawful sound main h1 mainDone
  rw [threadCreate] at reaperDone
  split at reaperDone
  · cases reaperDone
  rename_i new h2 built
  simp only [Except.ok.injEq, Prod.mk.injEq] at reaperDone
  obtain ⟨rfl, rfl⟩ := reaperDone
  obtain ⟨pages2, sound2, grown2, frame2⟩ := build_thread_frame lawful sound1 reaperMain 0 built
  refine ⟨_, _, pages2, sound2, fun x inside => grown2 x (grown1 x inside), fun x notHeap notHeld => ?_⟩
  refine (frame2 x notHeap (fun inStack => notHeld ⟨(new.stack, 0), List.mem_cons_self, inStack.1, inStack.2⟩)).trans ?_
  exact frame1 x (fun inside => notHeap (grown2 x inside))

theorem in_pages_blocks (pages : List Heap.HeapPage) (rest : List (Nat × Nat)) (x : Nat)
    (inside : Heap.InPages pages x) :
    InBlocks (pages.map Heap.pageBlock ++ rest) x := by
  obtain ⟨p, member, low, high⟩ := inside
  have fits := p.fits
  have base : p2v (Heap.pageBlock p).1 = p.base := p2v_v2p p.base (by simp only [Heap.pageSize] at fits; omega)
  refine ⟨Heap.pageBlock p, List.mem_append_left _ (List.mem_map_of_mem member), ?_, ?_⟩
  · rw [base]
    exact low
  · rw [base]
    exact high

theorem desk_usable (s : Buddy.State × List PageEvent) (blocks : List (Nat × Nat)) (live : LoggedLive DeskLive s blocks)
    (x : Nat) (inside : InBlocks blocks x) : 0xC0005000 ≤ x := by
  obtain ⟨block, member, low, -⟩ := inside
  exact le_trans (desk_block_high s.1 blocks live.owner block member) low

theorem sample_paged :
    ∃ S₀, Booted pmm DeskLive deskSymbols (· < 0xC0004000) S₀ ∧ Closed S₀.kernel.heap.mem deskDirectory ∧
    S₀.kernel.sched.cr3 = v2p deskDirectory ∧ Serves pmm.logged 8 S₀.kernel.heap.pages ∧
    Zeroed pmm.logged S₀.kernel.heap.mem 7 S₀.kernel.heap.pages ∧
      ∀ x < 0xC0004000, S₀.kernel.heap.mem x = sampleMem plainSample x := by
  have logged := logged_lawful pmm DeskLive desk_lawful
  obtain ⟨h, pages, f, S₀, sound, boots, booted, half, serves, first, same, shown⟩ :=
    sample_boots { blankSched with cr3 := v2p deskDirectory }
  obtain ⟨-, kept, -⟩ := whole_boots logged 1 0xC0100020 h _ sound half boots
  obtain ⟨live, foreign, pages', sound', grown, frame⟩ := boots_frame logged 1 0xC0100020 h _ S₀ sound boots
  have shown₀ (x : Nat) (low : x < 0xC0004000) : S₀.kernel.heap.mem x = sampleMem plainSample x :=
    (kept x low).trans (shown x low)
  refine ⟨S₀, booted, (sample_space (p := plainSample) (by decide) shown₀).closed, ?_, serves, ?_, shown₀⟩
  · obtain ⟨main, h1, reaper, k, -, reaperDone, rfl⟩ := boots
    rw [threadCreate] at reaperDone
    split at reaperDone
    · cases reaperDone
    · cases reaperDone
      rfl
  · refine zeroed_outside logged (0xC0005000 ≤ ·) desk_usable _ 7 _ _ sound'.owned.owner (fun x usable outside => ?_)
    have notHeap : ¬ Heap.InPages pages' x := fun inside => outside (in_pages_blocks pages' _ x inside)
    have notHeld : ¬ InBlocks foreign x := by
      rintro ⟨block, member, inBlock⟩
      exact outside ⟨block, by simp [member], inBlock⟩
    have notFirst : ¬ InPage (p2v f) x := by
      -- The heap's first page is what the log says is out.
      intro inFirst
      have out : (f, 0) ∈ pages.map Heap.pageBlock ++ ([] ++ []) :=
        (sound.owned.owner.held.symm.trans first.held).mem_iff.mpr (List.mem_singleton_self _)
      rw [List.append_nil, List.append_nil] at out
      obtain ⟨p, member, place⟩ := List.mem_map.mp out
      have fits := p.fits
      have base : p2v (Heap.pageBlock p).1 = p.base := p2v_v2p p.base (by simp only [Heap.pageSize] at fits; omega)
      rw [place] at base
      exact notHeap (grown x ⟨p, member, base ▸ inFirst.1, base ▸ inFirst.2⟩)
    have far : deskWord 0x8048000 ((x - deskDirectory) / 4) = 0 := by
      have index : 3072 ≤ (x - deskDirectory) / 4 := by
        rw [deskDirectory]
        omega
      generalize (x - deskDirectory) / 4 = i at index ⊢
      rw [deskWord, if_neg (by omega), if_neg (by omega), if_neg (by omega)]
    rw [frame x notHeap notHeld, same x notFirst, sample_frame plainSample x (by omega), deskMem, far, Nat.zero_div]
    rfl

theorem sample_process :
    ∃ S₀ S₁ t f, Booted pmm DeskLive deskSymbols (· < 0xC0004000) S₀ ∧ Closed S₀.kernel.heap.mem deskDirectory ∧
    S₀.kernel.sched.cr3 = v2p deskDirectory ∧ Move pmm deskSymbols (· < 0xC0004000) S₀ none S₁ ∧ S₁.processes = [t] ∧
    UserFrame S₁.kernel.heap.mem (S₁.kernel.sched.thread t).pd 0x8048 f := by
  have logged := logged_lawful pmm DeskLive desk_lawful
  have sample : plainSample ∈ samples := by decide
  obtain ⟨S₀, booted, closed, loaded, serves, zeroed, shown⟩ := sample_paged
  obtain ⟨live, foreign, big, pages, dir, frames, sep⟩ := booted_separated desk_lawful S₀ booted closed loaded
  have image : LowImage (· < 0xC0004000) S₀.kernel.heap.mem deskElf :=
    ⟨fun x header => (sample_header_byte sample shown x header).2, sample_touches sample shown⟩
  have count := sample_requests sample shown
  obtain ⟨new, h', built⟩ :=
    image_builds logged sep.whole deskElf image (serves_mono _ _ 8 _ (by rw [count]; decide) serves)
  have done :
      createProcess pmm.logged deskSymbols deskElf S₀.kernel = .ok (new.thread, startThread new h' S₀.kernel) := by
    rw [createProcess, built]
  have step : Step pmm deskSymbols S₀ (.createProcess S₀.kernel.heap.mem deskElf)
      ⟨startThread new h' S₀.kernel, S₀.ghost.add new.thread, S₀.threads, new.thread :: S₀.processes⟩ :=
    .createProcess S₀.kernel _ S₀.ghost S₀.threads S₀.processes deskElf new.thread done
  obtain ⟨dir₀, kernelStack, taken, segments, mapped, pages', result⟩ :=
    build_process_built logged (whole_space sep.whole deskElf image) sep.whole.heap rfl built
  have touches : Touches S₀.kernel.heap.mem deskElf 0x8048 := by
    obtain ⟨magic, -, number, -⟩ := sample_header sample shown
    exact .inl
      ⟨0, by rw [segmentCount, if_pos magic, number]; decide, (sample_covers sample shown 0 _ (by decide)).mpr rfl⟩
  have absent := low_image_absent sep.whole.half image _ touches
  obtain ⟨m, found⟩ := built_mapped result 0x8048 touches (fun large => absurd (large.1.symm.trans absent) (by decide))
  obtain ⟨user, -⟩ := loading_allows logged result.loading 0x8048 m found absent
  obtain ⟨-, walk, -⟩ := result.loading.mapped 0x8048 m found
  have none : S₀.processes = [] := by
    obtain ⟨_, _, _, _, _, -, -, -, -, -, _, _, _, _, -, -, rfl⟩ := booted
    rfl
  have pd : ((startThread new h' S₀.kernel).sched.thread new.thread).pd = p2v dir₀ := by
    rw [start_thread_pd, if_pos rfl, result.pd]
  have blank : BlankFrames pmm S₀ (.createProcess S₀.kernel.heap.mem deskElf) := by
    rw [BlankFrames, count]
    exact zeroed
  refine ⟨S₀, _, new.thread, m.frame, booted, closed, loaded, .kernel S₀ _ _ step image blank, by rw [none], ?_⟩
  change UserFrame h'.mem ((startThread new h' S₀.kernel).sched.thread new.thread).pd 0x8048 m.frame
  rw [pd]
  exact ⟨⟨by rw [walk]; rfl, user⟩, by rw [walk]; rfl⟩

end Sample

-- However clean calls of the kernel, the switches and the programs' own stores interleave, what a program reaches is
-- memory of its process alone: no byte of the kernel, no directory or table of any process, no frame that
-- another process reaches. The program that runs is the one whose directory is loaded.
theorem processes_separate {A : PageAllocator σ} {Live : σ → List (Nat × Nat) → Prop} (lawful : A.Lawful Live)
    (sym : Symbols) (Reserved : Nat → Prop) (S S' : System σ) (start : Booted A Live sym Reserved S)
    (closed : Closed S.kernel.heap.mem sym.kernelPageDirectory)
    (loaded : S.kernel.sched.cr3 = v2p sym.kernelPageDirectory)
    (run : ReflTransGen (fun S S' => ∃ who, Move A sym Reserved S who S') S S') :
    S'.kernel.sched.cr3 = v2p (S'.kernel.sched.thread S'.kernel.sched.curThread).pd ∧
    ∃ live foreign big pages, Heap.Sound (LoggedLive Live) ⟨S'.kernel.heap, live, foreign⟩ pages big ∧
      ∀ t ∈ S'.processes, ∀ page f, page < 2 ^ 20 → UserFrame S'.kernel.heap.mem (S'.kernel.sched.thread t).pd page f →
        (∀ x, InPage (p2v f) x → ¬ KernelByte Reserved S' big pages x) ∧
        ∀ u ∈ S'.processes, ¬ PagingFrame S'.kernel.heap.mem (v2p (S'.kernel.sched.thread u).pd) f ∧
          ∀ page', page' < 2 ^ 20 → UserFrame S'.kernel.heap.mem (S'.kernel.sched.thread u).pd page' f → u = t := by
  have logged := logged_lawful A Live lawful
  obtain ⟨_, _, _, _, _, _, first⟩ := booted_separated lawful S start closed loaded
  obtain ⟨live, foreign, big, pages, dir, frames, sep⟩ := separated_run logged first run
  refine ⟨sep.place.space, live, foreign, big, pages, sep.whole.heap, fun t process page f inside shown => ?_⟩
  obtain ⟨member, notPaging⟩ := separated_user logged sep t page f process inside shown
  refine ⟨(separated_frame logged sep t f process member).2.2, fun u process' => ⟨?_, fun page' inside' shown' => ?_⟩⟩
  · obtain ⟨-, bound, -⟩ := separated_frame logged sep u _ process' (sep.walls u process').dirTaken
    rw [sep.space u process', v2p_p2v _ bound]
    exact notPaging u process'
  · by_contra other
    exact separated_apart logged sep u t f f process' process other
      (separated_user logged sep u page' f process' inside' shown').1 member rfl

theorem processes_separate_sample : ∃ S S' t f, Booted pmm DeskLive deskSymbols (· < 0xC0004000) S ∧
    Move pmm deskSymbols (· < 0xC0004000) S none S' ∧ S'.processes = [t] ∧
    UserFrame S'.kernel.heap.mem (S'.kernel.sched.thread t).pd 0x8048 f ∧
    ¬ PagingFrame S'.kernel.heap.mem (v2p (S'.kernel.sched.thread t).pd) f ∧ ∀ x, InPage (p2v f) x →
      0xC0004000 ≤ x := by
  obtain ⟨S, S', t, f, booted, closed, loaded, move, made, shown⟩ := sample_process
  have process : t ∈ S'.processes := made ▸ List.mem_singleton_self t
  obtain ⟨-, _, _, _, _, -, separate⟩ :=
    processes_separate desk_lawful deskSymbols (· < 0xC0004000) S S' booted closed loaded
    (.single ⟨none, move⟩)
  obtain ⟨outside, others⟩ := separate t process 0x8048 f (by decide) shown
  exact ⟨S, S', t, f, booted, move, made, shown, (others t process).1,
    fun x inPage => not_lt.mp (fun low => outside x inPage (.inl low))⟩

-- While programs stay below, frames come zeroed and no process is reaped, what a process reads changes by its own
-- stores only.
theorem process_memory_private {A : PageAllocator σ} {Live : σ → List (Nat × Nat) → Prop} (lawful : A.Lawful Live)
    (sym : Symbols) (Reserved : Nat → Prop) (S S' S'' : System σ) (start : Booted A Live sym Reserved S)
    (closed : Closed S.kernel.heap.mem sym.kernelPageDirectory)
    (loaded : S.kernel.sched.cr3 = v2p sym.kernelPageDirectory)
    (before : ReflTransGen (fun S S' => ∃ who, Move A sym Reserved S who S') S S') (u : Nat)
    (process : u ∈ S'.processes)
    (after : ReflTransGen (fun S S' => ∃ who, who ≠ some u ∧ Move A sym Reserved S who S') S' S'') :
    u ∈ S''.processes ∧ ∀ page off, page < 2 ^ 20 → off < 0x1000 →
      userByte S'' u page off = userByte S' u page off := by
  have logged := logged_lawful A Live lawful
  obtain ⟨_, _, _, _, _, _, first⟩ := booted_separated lawful S start closed loaded
  obtain ⟨_, _, _, _, _, _, sep⟩ := separated_run logged first before
  exact (private_run logged sep u process after).2

-- A tick may have switched to the process, or not yet.
theorem process_memory_private_sample : ∃ S S' S'' t byte, Booted pmm DeskLive deskSymbols (· < 0xC0004000) S ∧
    Move pmm deskSymbols (· < 0xC0004000) S none S' ∧ Move pmm deskSymbols (· < 0xC0004000) S' none S'' ∧
    S'.processes = [t] ∧ Sched.timer S'.kernel.sched = .ok S''.kernel.sched ∧ userByte S' t 0x8048 0 = some byte ∧
      userByte S'' t 0x8048 0 = some byte := by
  obtain ⟨S, S', t, f, booted, closed, loaded, move, made, ⟨reaches, walk⟩⟩ := sample_process
  have process : t ∈ S'.processes := made ▸ List.mem_singleton_self t
  have run : ReflTransGen (fun S S' => ∃ who, Move pmm deskSymbols (· < 0xC0004000) S who S') S S' :=
    .single ⟨none, move⟩
  obtain ⟨_, _, _, _, _, _, first⟩ := booted_separated desk_lawful S booted closed loaded
  obtain ⟨_, _, _, _, _, _, sep⟩ := separated_run (logged_lawful pmm DeskLive desk_lawful) first run
  obtain ⟨m, good⟩ := sep.whole.sched
  obtain ⟨s', ticked, -⟩ := Sched.good_timer good
  have tick : Move pmm deskSymbols (· < 0xC0004000) S' none
      ⟨{ S'.kernel with sched := s' }, S'.ghost, S'.threads, S'.processes⟩ :=
    .kernel S' _ .switch
      (.switch S'.kernel s' S'.ghost S'.ghost S'.threads S'.processes (.timer _ _ _ ticked) rfl rfl) trivial trivial
  have byte : userByte S' t 0x8048 0 = some (S'.kernel.heap.mem (p2v f + 0)) := by
    obtain ⟨⟨frame, flags⟩, found⟩ := Option.isSome_iff_exists.mp reaches.1
    rw [found, Option.map_some, Option.some.injEq] at walk
    rw [userByte, if_pos reaches.2, found, Option.map_some, walk]
  obtain ⟨-, same⟩ :=
    process_memory_private desk_lawful deskSymbols (· < 0xC0004000) S S' _ booted closed loaded run t process
    (.single ⟨none, by simp, tick⟩)
  exact ⟨S, S', _, t, _, booted, move, tick, made, ticked, byte, (same 0x8048 0 (by decide) (by decide)).trans byte⟩

end X86OS.Process
