import X86OS.Process.Coverage
import X86OS.Process.Discipline

set_option autoImplicit false

namespace X86OS.Process

open Function Mem Paging Relation

variable {σ : Type}

-- The page allocator as a caller sees it who knows nothing of the blocks `held`.
def Hidden (Live : σ → List (Nat × Nat) → Prop) (held : List (Nat × Nat)) (s : σ) (blocks : List (Nat × Nat)) : Prop :=
  Live s (held ++ blocks)

def InBlocks (blocks : List (Nat × Nat)) (x : Nat) : Prop :=
  ∃ block ∈ blocks, p2v block.1 ≤ x ∧ x < p2v block.1 + 0x1000 * 2 ^ block.2

section Hidden

variable {A : PageAllocator σ} {Live : σ → List (Nat × Nat) → Prop} (lawful : A.Lawful Live) {Reserved : Nat → Prop}
  {held : List (Nat × Nat)}

include lawful

theorem hidden_lawful : A.Lawful (Hidden Live held) where
  apart s _ live := (List.pairwise_append.mp (lawful.apart s _ live)).2.1
  inRam s _ live block member := lawful.inRam s _ live block (List.mem_append_right _ member)
  reorder s _ _ perm live := lawful.reorder s _ _ (perm.append_left held) live
  allocated _ _ _ _ _ live done := lawful.reorder _ _ _ List.perm_middle.symm (lawful.allocated _ _ _ _ _ live done)
  freed _ _ order addr live := lawful.freed _ _ order addr (lawful.reorder _ _ _ List.perm_middle live)
  orderKept s _ order addr live member := lawful.orderKept s _ order addr live (List.mem_append_right _ member)

theorem blocks_disjoint (s : σ) (blocks : List (Nat × Nat)) (live : Live s blocks) (a b : Nat × Nat)
    (memberA : a ∈ blocks) (memberB : b ∈ blocks) (apart : Apart a b) (x : Nat)
    (inA : p2v a.1 ≤ x ∧ x < p2v a.1 + 0x1000 * 2 ^ a.2) :
    ¬ (p2v b.1 ≤ x ∧ x < p2v b.1 + 0x1000 * 2 ^ b.2) := by
  have placeA := (Heap.live_high lawful s blocks a.1 a.2 live memberA).1
  have placeB := (Heap.live_high lawful s blocks b.1 b.2 live memberB).1
  simp only [Apart] at apart
  omega

theorem hidden_kept (kept : KeptOut Live Reserved) :
    KeptOut (Hidden Live held) (fun x => Reserved x ∨ InBlocks held x) := by
  intro s blocks live block member x low high inside
  rcases inside with reserved | ⟨other, inHeld, lowO, highO⟩
  · exact kept s _ live block (List.mem_append_right _ member) x low high reserved
  · have apart := (List.pairwise_append.mp (lawful.apart s _ live)).2.2 other inHeld block member
    exact blocks_disjoint lawful s _ live other block (List.mem_append_left _ inHeld)
      (List.mem_append_right _ member) apart x ⟨lowO, highO⟩ ⟨low, high⟩

theorem zeroed_outside (Usable : Nat → Prop) (usable : ∀ s blocks, Live s blocks → ∀ x, InBlocks blocks x → Usable x)
    (mem : Mem) (n : Nat) (s : σ) (blocks : List (Nat × Nat)) (live : Live s blocks)
    (blank : ∀ x, Usable x → ¬ InBlocks blocks x → mem x = 0) :
    Zeroed A mem n s := by
  induction n generalizing s blocks with
  | zero => trivial
  | succ n ih =>
      intro f s' alloc
      have live' := lawful.allocated _ _ _ _ _ live alloc
      refine ⟨fun x inPage => blank x (usable s' _ live' x ⟨(f, 0), List.mem_cons_self, inPage.1, inPage.2⟩) ?_,
        ih s' _ live' ?_⟩
      · rintro ⟨other, member, inOther⟩
        have apart := (List.pairwise_cons.mp (lawful.apart _ _ live')).1 other member
        exact blocks_disjoint lawful s' _ live' (f, 0) other List.mem_cons_self (List.mem_cons_of_mem _ member)
          apart x inPage inOther
      · intro x inUse outside
        exact blank x inUse (fun ⟨other, member, inOther⟩ => outside ⟨other, List.mem_cons_of_mem _ member, inOther⟩)

theorem hidden_half {mem : Mem} {kpd : Nat} (half : KernelHalf Live mem kpd Reserved) :
    KernelHalf (Hidden Live held) mem kpd (fun x => Reserved x ∨ InBlocks held x) where
  aligned := half.aligned
  kept := hidden_kept lawful half.kept
  directory x inDir := .inl (half.directory x inDir)
  tables k small table x inTable := .inl (half.tables k small table x inTable)
  own := half.own
  empty := half.empty

theorem hidden_sound {h : Heap.State σ} {live foreign rest big : List (Nat × Nat)} {pages : List Heap.HeapPage}
    (sound : Heap.Sound Live ⟨h, live, foreign⟩ pages big) (split : foreign.Perm (rest ++ held)) :
    Heap.Sound (Hidden Live held) ⟨h, live, rest⟩ pages big := by
  refine ⟨⟨sound.owned.toSettled, ?_, sound.owned.grown⟩, sound.backed, sound.distinct⟩
  apply lawful.reorder _ _ _ _ sound.owned.owner
  have moved : (big ++ foreign).Perm (held ++ (big ++ rest)) := by
    have regrouped := split.append_left big
    rw [← List.append_assoc] at regrouped
    exact regrouped.trans List.perm_append_comm
  exact (moved.append_left _).trans (List.perm_append_comm_assoc _ _ _)

end Hidden

section Steps

variable {A : PageAllocator σ} {Live : σ × List PageEvent → List (Nat × Nat) → Prop} (lawful : A.logged.Lawful Live)
  {sym : Symbols} {Reserved : Nat → Prop} {S S' : System σ} {live foreign leaked big : List (Nat × Nat)}
  {pages : List Heap.HeapPage}

theorem clean_mono {Wider : Nat → Prop} (wider : ∀ x, Reserved x → Wider x) (e : Event) (clean : Clean Reserved e) :
    Clean Wider e := by
  cases e with
  | switch => trivial
  | threadCreate => trivial
  | createProcess mem elf => exact ⟨fun x header => wider x (clean.headers x header), clean.low⟩
  | reap process => exact clean

include lawful

theorem hidden_whole (whole : Whole Live sym Reserved S live foreign leaked big pages) :
    Whole (Hidden Live leaked) sym (fun x => Reserved x ∨ InBlocks leaked x) S live
      (S.threads.map (fun t => ((S.kernel.sched.thread t).stack, 0))) [] big pages where
  heap := hidden_sound lawful whole.heap whole.held
  sched := whole.sched
  half := hidden_half lawful whole.half
  idle := whole.idle
  alive := whole.alive
  objects := whole.objects
  once := whole.once
  apart := whole.apart
  held := by simp
  high := whole.high

theorem step_reserved (whole : Whole Live sym Reserved S live foreign leaked big pages) (e : Event)
    (step : Step A sym S e S') (clean : Clean Reserved e) (x : Nat) (reserved : Reserved x) :
    S'.kernel.heap.mem x = S.kernel.heap.mem x := by
  cases step with
  | switch k s' g g' threads processes step alive destroyed => rfl
  | threadCreate k k' g threads processes entry arg t done =>
      rw [threadCreate] at done
      split at done
      · cases done
      rename_i new h' built
      simp only [Except.ok.injEq, Prod.mk.injEq] at done
      obtain ⟨rfl, rfl⟩ := done
      obtain ⟨pages', sound, same⟩ := build_thread_spec lawful whole.half.kept whole.heap entry arg built
      exact same x reserved
  | createProcess k k' g threads processes elf t done =>
      obtain ⟨new, result, rfl, started, pd, -⟩ := create_process_spec A.logged sym elf t k k' done
      obtain ⟨dir, kernelStack, taken, segments, shown, pages', built⟩ :=
        build_process_built lawful (whole_space whole elf clean) whole.heap rfl result
      exact low_reserved whole.half clean built x reserved
  | reap k k' g threads processes t isReaper point done =>
      obtain ⟨m, good⟩ := whole.sched
      have alive : t ∈ g.alive := (good.inv.victim t (good.sim.reaper ▸ point)).1
      have member : t ∈ threads := ((whole.alive t).mp alive).resolve_right (of_decide_eq_false clean)
      have moved : foreign.Perm (((k.sched.thread t).stack, 0) ::
          ((threads.erase t).map (fun t => ((k.sched.thread t).stack, 0)) ++ leaked)) :=
        whole.held.trans (((List.perm_cons_erase member).map _).append_right leaked)
      obtain ⟨h', live', pages', big', result, sound, kept, same⟩ :=
        destroy_thread_spec lawful whole.half.kept k whole.heap t (whole.objects t alive) _ moved
      cases result.symm.trans done
      exact same x reserved

theorem step_keeps_leaked (whole : Whole Live sym Reserved S live foreign leaked big pages) (e : Event)
    (step : Step A sym S e S') (clean : Clean Reserved e) (x : Nat) (inside : Reserved x ∨ InBlocks leaked x) :
    S'.kernel.heap.mem x = S.kernel.heap.mem x :=
  step_reserved (hidden_lawful lawful) (hidden_whole lawful whole) e step
    (clean_mono (fun _ reserved => .inl reserved) e clean) x inside

end Steps

-- User mode gets through the page to the frame.
def UserFrame (mem : Mem) (pd page f : Nat) : Prop :=
  UserReaches mem pd page ∧ (translate mem pd page).map Prod.fst = some f

-- The directory or one of the tables behind it.
def PagingFrame (mem : Mem) (dir f : Nat) : Prop :=
  f = dir ∨ ∃ k < 1024, Paging.Small mem (p2v dir) k ∧ frameOf mem (p2v dir) k = f

-- The directory of a process and the frames taken for it: each slot is the kernel's or has a table of the
-- process, and user mode gets through to other frames of the process only.
structure Walls (mem : Mem) (kpd dir : Nat) (taken : List Nat) : Prop where
  dirTaken : dir ∈ taken
  slots : ∀ k, k < 1024 → entry mem (p2v dir) k = entry mem kpd k ∨ frameOf mem (p2v dir) k ∈ taken
  pages : ∀ page f, page < 2 ^ 20 → UserFrame mem (p2v dir) page f → f ∈ taken ∧ ¬ PagingFrame mem dir f

structure SameTables (mem mem' : Mem) (dir : Nat) : Prop where
  directory : ∀ k, k < 1024 → entry mem' (p2v dir) k = entry mem (p2v dir) k
  tables : ∀ k j, k < 1024 → j < 1024 → Paging.Small mem (p2v dir) k →
    entry mem' (p2v (frameOf mem (p2v dir) k)) j = entry mem (p2v (frameOf mem (p2v dir) k)) j

section Walls

variable {mem mem' : Mem} {kpd dir : Nat} {taken : List Nat}

theorem same_tables_frame (same : SameTables mem mem' dir) (page f : Nat) (inside : page < 2 ^ 20) :
    UserFrame mem' (p2v dir) page f ↔ UserFrame mem (p2v dir) page f := by
  have slot : page / 1024 < 1024 := by omega
  have index : page % 1024 < 1024 := Nat.mod_lt _ (by decide)
  have table := same.tables (page / 1024) (page % 1024) slot index
  rw [UserFrame, UserFrame, translate_congr mem mem' _ _ page (same.directory _ slot) table,
    user_reaches_congr mem mem' _ _ page (same.directory _ slot) table]

theorem same_tables_paging (same : SameTables mem mem' dir) (f : Nat) : PagingFrame mem' dir f ↔
    PagingFrame mem dir f := by
  have slot (k : Nat) (small : k < 1024) : (Paging.Small mem' (p2v dir) k ∧ frameOf mem' (p2v dir) k = f) ↔
      (Paging.Small mem (p2v dir) k ∧ frameOf mem (p2v dir) k = f) := by
    rw [small_congr _ _ _ _ (same.directory k small), frame_of_congr _ _ _ _ (same.directory k small)]
  rw [PagingFrame, PagingFrame]
  refine or_congr_right ⟨?_, ?_⟩
  · rintro ⟨k, small, here⟩
    exact ⟨k, small, (slot k small).mp here⟩
  · rintro ⟨k, small, here⟩
    exact ⟨k, small, (slot k small).mpr here⟩

theorem walls_tables {Live : σ → List (Nat × Nat) → Prop} {Reserved : Nat → Prop} (walls : Walls mem kpd dir taken)
    (half : KernelHalf Live mem kpd Reserved) (kernel : ∀ x, Reserved x → mem' x = mem x)
    (own : ∀ f ∈ taken, PagingFrame mem dir f → ∀ x, InPage (p2v f) x → mem' x = mem x) : SameTables mem mem' dir := by
  refine ⟨fun k small => ?_, fun k j small few table => ?_⟩
  · exact entry_congr _ _ _ _ small (own dir walls.dirTaken (.inl rfl))
  · refine entry_congr _ _ _ _ few (fun x inTable => ?_)
    rcases walls.slots k small with word | member
    · have frame : frameOf mem (p2v dir) k = frameOf mem kpd k := congrArg (· &&& pageMask) word
      rw [Paging.Small, word] at table
      rw [frame] at inTable
      exact kernel x (half.tables k small table x inTable)
    · exact own _ member (.inr ⟨k, small, table, rfl⟩) x inTable

theorem walls_congr {Live : σ → List (Nat × Nat) → Prop} {Reserved : Nat → Prop} (walls : Walls mem kpd dir taken)
    (half : KernelHalf Live mem kpd Reserved) (kernel : ∀ x, Reserved x → mem' x = mem x)
    (own : ∀ f ∈ taken, PagingFrame mem dir f → ∀ x, InPage (p2v f) x → mem' x = mem x) : Walls mem' kpd dir taken := by
  have same := walls_tables walls half kernel own
  refine ⟨walls.dirTaken, fun k small => ?_, fun page f inside shown => ?_⟩
  · rw [same.directory k small, frame_of_congr _ _ _ _ (same.directory k small),
      entry_congr mem kpd k mem' small (fun x inDir => kernel x (half.directory x inDir))]
    exact walls.slots k small
  · rw [same_tables_paging same]
    exact walls.pages page f inside ((same_tables_frame same page f inside).mp shown)

end Walls

section Blank

variable {A : PageAllocator σ} {Live : σ → List (Nat × Nat) → Prop} (lawful : A.Lawful Live) {setting : Setting Live}
  {live foreign big : List (Nat × Nat)} {dir : Nat} {taken : List Nat} {image : Nat → Option Mapping}
  {pages : List Heap.HeapPage} {h : Heap.State σ}

include lawful

theorem load_elf_blank (loading : Loading setting live foreign dir taken (fun _ => none) pages big h) (elf page m : Nat)
    (safe : HeadersSafe setting elf)
    (opened : ∀ k page, k < segmentCount setting.mem elf → Covers setting.mem elf k page → setting.Open (page / 1024))
    (absent : ∀ k page, k < segmentCount setting.mem elf → Covers setting.mem elf k page →
      isPresent (entry setting.mem setting.kpd (page / 1024)) = false)
    (result : Nat) (h' : Heap.State σ) (done : loadElf A (p2v dir) elf h = .ok (result, h')) (inside : page < 2 ^ 20)
    (uncovered : ∀ k < segmentCount setting.mem elf, ¬ Covers setting.mem elf k page)
    (unmapped : translate h.mem (p2v dir) page = none)
    (zeroed : Zeroed A h.mem (m + 2 * pagesFrom setting.mem elf (segmentCount setting.mem elf) 0) h.pages) :
    translate h'.mem (p2v dir) page = none ∧ Zeroed A h'.mem m h'.pages := by
  obtain ⟨magic', offset, count⟩ := loading_elf_header loading elf safe
  rw [loadElf, magic', offset, count] at done
  by_cases magic : hasMagic setting.mem elf = true
  · have all : segmentCount setting.mem elf = ePhnum setting.mem elf := if_pos magic
    rw [all] at opened absent uncovered zeroed
    rw [if_pos magic] at done
    exact load_segments_unmapped lawful elf _ 0 page m 0 _ taken h loading safe (Nat.zero_add _) opened absent
      (nothing_loaded setting elf) result h' done inside uncovered unmapped zeroed
  · rw [if_neg magic, Except.ok.injEq, Prod.mk.injEq] at done
    obtain ⟨-, rfl⟩ := done
    exact ⟨unmapped, zeroed_mono A _ m _ _ (Nat.le_add_right _ _) zeroed⟩

theorem loading_translate (loading : Loading setting live foreign dir taken image pages big h) (mem' : Mem) (page : Nat)
    (inside : page < 2 ^ 20) (same : ∀ x, setting.Reserved x ∨ (∃ f ∈ taken, InPage (p2v f) x) → mem' x = h.mem x) :
    translate mem' (p2v dir) page = translate h.mem (p2v dir) page := by
  refine translate_congr _ _ _ _ page ?_ (fun small => ?_)
  · exact entry_congr _ _ _ _ (by omega) (fun x inDir => same x (.inr ⟨dir, loading.dirTaken, inDir⟩))
  · refine entry_congr _ _ _ _ (Nat.mod_lt _ (by decide)) (fun x inTable => same x ?_)
    rcases loading_table lawful loading _ (by omega) small with ⟨frame, kernel⟩ | ⟨-, -, member, -⟩
    · rw [frame] at inTable
      exact .inl (setting.tables _ (by omega) kernel x inTable)
    · exact .inr ⟨_, member, inTable⟩

end Blank

section Built

variable {A : PageAllocator σ} {Live : σ → List (Nat × Nat) → Prop} (lawful : A.Lawful Live) {sym : Symbols} {elf : Nat}
  {Reserved : Nat → Prop} {live foreign big : List (Nat × Nat)} {pages : List Heap.HeapPage} {h h' : Heap.State σ}
  {new : NewThread} (half : KernelHalf Live h.mem sym.kernelPageDirectory Reserved)
  (image : LowImage Reserved h.mem elf)

include half image

theorem low_image_absent (page : Nat) (touches : Touches h.mem elf page) :
    isPresent (entry h.mem sym.kernelPageDirectory (page / 1024)) = false := by
  have low := image.low page touches
  exact half.empty _ (by omega)

include lawful

theorem process_unmapped (sound : Heap.Sound Live ⟨h, live, foreign⟩ pages big)
    (space : KernelSpace Live h.mem sym.kernelPageDirectory elf Reserved)
    (done : buildProcess A sym elf h = .ok (new, h')) (zeroed : Zeroed A h.mem (requests h.mem elf) h.pages)
    (page : Nat) (low : page < 0xC0000) (untouched : ¬ Touches h.mem elf page) :
    translate h'.mem new.pd page = none := by
  have inside : page < 2 ^ 20 := by omega
  rw [buildProcess] at done
  split at done
  · cases done
  rename_i dir s1 allocDir
  simp only at done
  have start : Loading space.setting live foreign dir [dir] (fun _ => none) pages big
      { h with mem := kmemcpy (p2v dir) sym.kernelPageDirectory 0x1000 h.mem, pages := s1 } :=
    loading_start lawful space.setting sound rfl dir s1 allocDir
  have copy :
      (∀ x, ¬ InPage (p2v dir) x → kmemcpy (p2v dir) sym.kernelPageDirectory 0x1000 h.mem x = h.mem x) ∧ ∀ k, k < 1024 →
      entry (kmemcpy (p2v dir) sym.kernelPageDirectory 0x1000 h.mem) (p2v dir) k =
        entry h.mem sym.kernelPageDirectory k :=
    directory_copied lawful space.setting sound dir s1 allocDir
  generalize kmemcpy (p2v dir) sym.kernelPageDirectory 0x1000 h.mem = mem1 at done start copy
  obtain ⟨same, copied⟩ := copy
  have unmapped1 : translate mem1 (p2v dir) page = none := by
    apply translate_absent
    rw [copied _ (by omega)]
    exact half.empty _ (by omega)
  have zeroed1 : Zeroed A mem1 (4 + 2 * pagesFrom h.mem elf (segmentCount h.mem elf) 0) s1 := by
    rw [requests] at zeroed
    have used : ∀ f ∈ [dir], (f, 0) ∈ pages.map Heap.pageBlock ++ (big ++ (pageBlocks [dir] ++ foreign)) := by
      simp [pageBlocks]
    exact zeroed_write lawful h.mem _ _ _ s1 start.sound.owned.owner used
      (fun x outside => same x (outside dir List.mem_cons_self))
        (zeroed_mono A _ _ _ _ (by omega) (zeroed dir s1 allocDir).2)
  split at done
  · cases done
  rename_i base h2 elfDone
  have opened (k page : Nat) (before : k < segmentCount h.mem elf) (covers : Covers h.mem elf k page) :
      Reaches h.mem elf (page / 1024) :=
    ⟨page, .inl ⟨k, before, covers⟩, rfl⟩
  obtain ⟨unmapped2, zeroed2⟩ := load_elf_blank lawful start elf page 4 (space_headers_safe space) opened
    (fun k page before covers => low_image_absent half image page (.inl ⟨k, before, covers⟩)) base h2 elfDone inside
    (fun k before covers => untouched (.inl ⟨k, before, covers⟩)) unmapped1 zeroed1
  obtain ⟨rfl, taken2, segments, loading2, -, loaded⟩ :=
    load_elf_loading lawful start elf (space_headers_safe space) opened base h2 elfDone
  split at done
  · cases done
  rename_i userStack s3 allocStack
  obtain ⟨loading3, idle⟩ := loading_take lawful loading2 s3 userStack allocStack
  split at done
  · cases done
  rename_i h4 mapDone
  have stackTouched : Touches h.mem elf (stackBase h.mem elf / 0x1000) := .inr rfl
  have unmapped4 : translate h4.mem (p2v dir) page = none :=
    (map_one_unmapped lawful loading3 userStack _ _ page 2 List.mem_cons_self (last_end_bound _ _ _)
      ⟨_, stackTouched, rfl⟩ (.inr rfl) (low_image_absent half image _ stackTouched) h4 mapDone inside
      (fun same => untouched (.inr same)) unmapped2
      (zeroed2 userStack s3 allocStack).2).1
  obtain ⟨taken4, shown, loading4, -⟩ := loading_map lawful loading3 userStack _ _ List.mem_cons_self idle
    (last_end_bound _ _ _) ⟨_, stackTouched, rfl⟩ (.inr rfl) h4 mapDone
  split at done
  · cases done
  rename_i info h5 stackDone
  split at done
  · cases done
  · cases done
  rename_i thread h6 threadDone
  obtain ⟨kernelStack, pages', -, -, -, frame6⟩ :=
    stack_and_thread_spec lawful space.setting sym loading4 _ _ info thread h5 h6 stackDone threadDone
  simp only [Except.ok.injEq, Prod.mk.injEq] at done
  obtain ⟨rfl, rfl⟩ := done
  rw [loading_translate lawful loading4 h6.mem page inside frame6, unmapped4]

end Built

-- The kernel's slots let no user mode through.
def Closed (mem : Mem) (kpd : Nat) : Prop :=
  ∀ k, k < 1024 → isPresent (entry mem kpd k) = true → entry mem kpd k &&& pageUser = 0

section Raised

variable {A : PageAllocator σ} {Live : σ × List PageEvent → List (Nat × Nat) → Prop} (lawful : A.logged.Lawful Live)
  {sym : Symbols} {elf : Nat} {Reserved : Nat → Prop} {live foreign big : List (Nat × Nat)}
  {pages pages' : List Heap.HeapPage} {h h' : Heap.State (σ × List PageEvent)} {new : NewThread}
  (half : KernelHalf Live h.mem sym.kernelPageDirectory Reserved) (image : LowImage Reserved h.mem elf)
  {dir kernelStack : Nat} {taken : List Nat} {segments shown : Nat → Option Mapping}
  (built : Built (low_space half image.headers (low_reaches image)).setting elf live foreign pages new h' dir
    kernelStack taken segments shown pages' big)

include lawful built

theorem mapped_not_paging (page : Nat) (m : Mapping) (found : shown page = some m) :
    m.frame ∈ taken ∧ ¬ PagingFrame h'.mem dir m.frame := by
  obtain ⟨-, -, -, member, notDir, -⟩ := built.loading.mapped page m found
  refine ⟨member, ?_⟩
  rintro (same | ⟨k, smallK, small, same⟩)
  · exact notDir same
  · rcases loading_table lawful built.loading k smallK small with ⟨frame, kernel⟩ | ⟨-, -, -, -, unmapped⟩
    · exact taken_not_table lawful built.loading m.frame k member smallK kernel (frame.symm.trans same)
    · exact unmapped page m found same.symm

theorem process_walls (sound : Heap.Sound Live ⟨h, live, foreign⟩ pages big)
    (closed : Closed h.mem sym.kernelPageDirectory) (done : buildProcess A.logged sym elf h = .ok (new, h'))
    (zeroed : Zeroed A.logged h.mem (requests h.mem elf) h.pages) :
    Walls h'.mem sym.kernelPageDirectory dir taken := by
  have kernel (k : Nat) (small : k < 1024) :
      entry h'.mem sym.kernelPageDirectory k = entry h.mem sym.kernelPageDirectory k :=
    entry_congr _ _ _ _ small (fun x inDir => low_reserved half image built x (half.directory x inDir))
  refine ⟨built.loading.dirTaken, fun k small => ?_, ?_⟩
  · rcases built.loading.slots k small with same | ⟨-, -, t, member, -, -, flag, user, word⟩
    · exact .inl (same.trans (kernel k small).symm)
    · obtain ⟨aligned, bound, -⟩ :=
        taken_page lawful (low_space half image.headers (low_reaches image)).setting built.loading.sound t member
      right
      rw [frameOf, word, entry_frame t _ aligned bound (table_flags flag (user_flags flag user).1).1]
      exact member
  · rintro page f inside ⟨⟨mapped, user⟩, walk⟩
    by_cases low : page < 0xC0000
    · have touches : Touches h.mem elf page := by
        by_contra untouched
        rw [← built.pd, process_unmapped lawful half image sound (low_space half image.headers (low_reaches image))
          done zeroed page low untouched] at mapped
        cases mapped
      have absent := low_image_absent half image page touches
      obtain ⟨m, found⟩ := built_mapped built page touches (fun large => absurd (large.1.symm.trans absent) (by decide))
      obtain ⟨-, shows, -⟩ := built.loading.mapped page m found
      rw [shows, Option.map_some, Option.some.injEq] at walk
      rw [← walk]
      exact mapped_not_paging lawful half image built page m found
    · rw [userAccessible, allows] at user
      have present : isPresent (entry h'.mem (p2v dir) (page / 1024)) = true := by
        by_contra absent
        rw [translate_absent _ _ _ (by simpa using absent)] at mapped
        cases mapped
      rcases built.loading.slots (page / 1024) (by omega) with same | ⟨opened, -⟩
      · have shut := closed (page / 1024) (by omega) (same ▸ present)
        rw [← show entry h'.mem (p2v dir) (page / 1024) = entry h.mem sym.kernelPageDirectory (page / 1024)
          from same] at shut
        simp [shut] at user
      · have slot := low_reaches image _ opened
        omega

end Raised

end X86OS.Process
