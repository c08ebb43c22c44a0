import X86OS.Interrupts.Threads

set_option autoImplicit false

namespace X86OS.Interrupts

open Mem Machine Process

section Invariant

variable {ι : Type} (k : Setup ι)

-- The stack of `t` still has the program that was interrupted.
structure Saved (mem : Mem) (t : ι) (program : Core) (vector errorCode : Nat) : Prop where
  state : UserState k.tables program
  ready : Ready k.tables k.stub program.cpu.mem
  top : stackTop k.tables program = k.threads.high t
  words : Holds mem (k.threads.high t - 64) (trapFrame k.tables vector errorCode program)

-- A process that has been switched to for the first time stands before `launch_process`.
structure Launching (core : Core) (t : ι) (entry userEsp : Nat) : Prop where
  eip : core.cpu.eip = k.sym.launchProcess
  esp : core.cpu.reg .esp + 20 = k.threads.high t
  registers : ∀ r, r ≠ .esp → core.cpu.reg r = 0
  words : Holds core.cpu.mem (core.cpu.reg .esp) [entry, 0x1B, 0x200, userEsp, 0x23]
  small : userEsp < 2 ^ 32

structure Inv (s : Processor ι) : Prop where
  parked : AllParked k.threads k.sym (machines s)
  ready : Ready k.tables k.stub s.core.cpu.mem
  userOnly : ∀ t, s.stage t = .user → t = s.cur
  user : s.stage s.cur = .user → UserState k.tables s.core
  kernel :
    s.stage s.cur ≠ .user → s.core.sel .cs = 0x08 ∧ s.core.sel .ss = 0x10 ∧ s.core.eflags.getLsbD nestedTask = false
  inside : ∀ t program vector errorCode, s.stage t = .inside program vector errorCode →
    Saved k s.core.cpu.mem t program vector errorCode
  launching : ∀ entry userEsp, s.stage s.cur = .forged entry userEsp → Launching k s.core s.cur entry userEsp
  forged : ∀ t entry userEsp, t ≠ s.cur → s.stage t = .forged entry userEsp →
    s.waiting t = some (.setupKerenlStack entry userEsp) ∧ userEsp < 2 ^ 32
  process : ∀ t, s.stage t ≠ .kernel → k.top t = k.threads.high t
  esp0 : s.stage s.cur ≠ .kernel → readWord s.core.cpu.mem (k.tables.tss + 4) = k.threads.high s.cur

variable {k} {s : Processor ι}

theorem saved_mem (mem mem' : Mem) (t : ι) (program : Core) (vector errorCode : Nat)
    (saved : Saved k mem t program vector errorCode)
    (same : ∀ x, k.threads.high t - 64 ≤ x → x < k.threads.high t → mem' x = mem x) :
    Saved k mem' t program vector errorCode := by
  have page := k.page t
  refine ⟨saved.state, saved.ready, saved.top, holds_congr _ _ _ _ (fun x low high => same x low ?_) saved.words⟩
  rw [trap_frame_length, user_frame_length saved.state.mode] at high
  omega

theorem esp0_mem (mem mem' : Mem) (same : ∀ x, Reserved k.tables x → mem' x = mem x) :
    readWord mem' (k.tables.tss + 4) = readWord mem (k.tables.tss + 4) :=
  read_word_congr _ _ _ (fun x low high => same x (.inr ⟨low, by omega⟩))

theorem free_unmarked (inv : Inv k s) (x : Nat) (free : ¬ Reserved k.tables x) : ¬ AccessByte k.tables x :=
  fun access => free (.inl (.inr (.inl (access_in_gdt inv.ready x access))))

theorem kept_mem (inv : Inv k s) (mem : Mem) (keeps : Keeps k.tables (Kept k s) s.core.cpu.mem mem) :
    (∀ t origin, t ≠ s.cur → s.waiting t = some origin → Parked k.threads k.sym mem t origin) ∧
      Ready k.tables k.stub mem ∧
      (∀ t program vector errorCode, s.stage t = .inside program vector errorCode →
        Saved k mem t program vector errorCode) ∧
      readWord mem (k.tables.tss + 4) = readWord s.core.cpu.mem (k.tables.tss + 4) := by
  have same (x : Nat) (kept : Kept k s x) (free : ¬ Reserved k.tables x) : mem x = s.core.cpu.mem x :=
    keeps.bytes x kept (free_unmarked inv x free)
  refine ⟨?_, ?_, ?_, ?_⟩
  · intro t origin other waiting
    exact parked_congr k.threads k.sym s.core.cpu.mem mem t origin (inv.parked t origin other waiting)
      (fun x own => same x (.inr (.inr (.inl ⟨t, other, own⟩))) (k.stackFree t x own))
      (fun x low high => same x (.inr (.inl ⟨t, low, high⟩)) (k.slotFree t x low high))
  · exact ready_keeps inv.ready mem (keeps_mono keeps (fun x inside => .inl (.inl inside)))
  · intro t program vector errorCode stage
    have page := k.page t
    refine saved_mem _ _ t program vector errorCode (inv.inside t program vector errorCode stage) (fun x low high => ?_)
    have own : OwnStack k.threads t x := ⟨by omega, high⟩
    refine same x ?_ (k.stackFree t x own)
    by_cases current : t = s.cur
    · subst current
      refine .inr (.inr (.inr ⟨?_, high⟩))
      rw [stage]
      exact low
    · exact .inr (.inr (.inl ⟨t, current, own⟩))
  · refine read_word_congr _ _ _
      (fun x low high => keeps.bytes x (.inl (.inr ⟨low, by omega⟩)) (tss_unmarked inv.ready x (by omega) ?_))
    rw [sizeofTss]
    omega

theorem kept_outside_own (x : Nat) (kept : Kept k s x) (own : OwnStack k.threads s.cur x) :
    k.threads.high s.cur - (s.stage s.cur).held ≤ x := by
  rcases kept with reserved | ⟨t, low, high⟩ | ⟨t, other, inside⟩ | ⟨low, -⟩
  · exact absurd reserved (k.stackFree s.cur x own)
  · have apart := k.threads.slotOutside t s.cur
    simp only [OwnStack] at own
    omega
  · have apart := k.threads.stacksApart t s.cur other
    simp only [OwnStack] at own inside
    omega
  · exact low

theorem kept_above (mode : s.stage s.cur = .user) (x : Nat) (kept : Kept k s x) : k.base ≤ x := by
  rcases kept with reserved | ⟨t, low, -⟩ | ⟨t, -, inside, -⟩ | ⟨low, high⟩
  · exact k.tablesAbove x reserved
  · exact le_trans (k.slotAbove t) low
  · exact le_trans (k.stackAbove t) inside
  · rw [mode] at low
    simp only [Stage.held] at low
    omega

end Invariant

section Steps

variable {ι : Type} {k : Setup ι} {s : Processor ι}

theorem inv_program (inv : Inv k s) (core : Core) (mode : s.stage s.cur = .user)
    (step : UserStep k.tables k.base s.core core) :
    Inv k { s with core := core } := by
  have before := inv.user mode
  obtain ⟨parked, ready, inside, esp0⟩ := kept_mem inv core.cpu.mem (keeps_mono step.kernel (kept_above mode))
  refine ⟨parked, ready, inv.userOnly, ?_, ?_, inside, ?_, inv.forged, inv.process, ?_⟩
  · intro _
    refine ⟨step.eip, ⟨?_, ?_⟩, step.data, ?_, ?_, ?_⟩
    · rw [step.cs, before.mode.cs]
    · rw [step.ss, before.mode.ss]
    · rw [step.protectedMode, before.protectedMode]
    · rw [step.interruptFlag (by rw [before.ioplZero]; decide), before.interruptsOn]
    · rw [step.iopl, before.ioplZero]
  · intro notUser
    exact absurd mode notUser
  · intro entry userEsp stage
    rw [show s.stage s.cur = _ from stage] at mode
    cases mode
  · intro process
    rw [esp0]
    exact inv.esp0 process

theorem inv_work (inv : Inv k s) (core : Core) (mode : InKernelCode s) (step : KernelWork k s core) :
    Inv k { s with core := core } := by
  obtain ⟨parked, ready, inside, esp0⟩ := kept_mem inv core.cpu.mem step.kept
  obtain ⟨cs, ss, -⟩ := inv.kernel mode.1
  refine ⟨parked, ready, inv.userOnly, ?_, ?_, inside, ?_, inv.forged, inv.process, ?_⟩
  · intro user
    exact absurd user mode.1
  · intro _
    rw [step.sel]
    exact ⟨cs, ss, step.notNested⟩
  · intro entry userEsp stage
    exact absurd stage (mode.2 entry userEsp)
  · intro process
    rw [esp0]
    exact inv.esp0 process

theorem user_interruptible {core : Core} (state : UserState k.tables core) : Interruptible k.tables core :=
  ⟨state.eip, .inr ⟨state.mode.cs, state.mode.ss⟩, by rw [user_cpl state.mode]; exact state.data, state.protectedMode⟩

theorem top_clear (program : Core) (t : ι) (user : UserMode program)
    (top : stackTop k.tables program = k.threads.high t) :
    FrameClear k.tables program := by
  have page := k.page t
  intro x low high inTables
  rw [frameBase, top, user_frame_length user] at low high
  exact k.stackFree t x ⟨by omega, by omega⟩ (.inl inTables)

theorem event_room (inv : Inv k s) (mode : s.stage s.cur = .user) : stackTop k.tables s.core = k.threads.high s.cur ∧
    frameLength s.core = 16 ∧ 4 * (frameLength s.core + 2) ≤ stackTop k.tables s.core ∧ FrameClear k.tables s.core := by
  have state := inv.user mode
  have page := k.page s.cur
  have top : stackTop k.tables s.core = k.threads.high s.cur := by
    rw [user_top state.mode]
    exact inv.esp0 (by simp [mode])
  have length := user_frame_length state.mode
  refine ⟨top, length, ?_, top_clear s.core s.cur state.mode top⟩
  rw [top, length]
  omega

theorem leave_resumes (inv : Inv k s) (program : Core) (vector errorCode : Nat)
    (mode : s.stage s.cur = .inside program vector errorCode)
    (returned : s.core.cpu.reg .esp + 4 = k.threads.high s.cur - 64) :
    ∃ final, s.core.run k.tables isrReturn = some final ∧ Resumes program final ∧
      Marks k.tables s.core.cpu.mem final.cpu.mem := by
  have saved := inv.inside s.cur program vector errorCode mode
  have page := k.page s.cur
  have length := user_frame_length saved.state.mode
  obtain ⟨cs, ss, notNested⟩ := inv.kernel (by simp [mode])
  have base : frameBase k.tables program = k.threads.high s.cur - 64 := by rw [frameBase, saved.top, length]
  refine leave_spec s.core vector errorCode saved.ready (user_interruptible saved.state)
    ⟨inv.ready, cs, ?_, notNested, ?_, ?_⟩ ?_ (top_clear program s.cur saved.state.mode saved.top)
  · rw [ss, stackSelector, user_cpl saved.state.mode]
    rfl
  · rw [base]
    exact returned
  · rw [base]
    exact saved.words
  · rw [length, saved.top]
    omega

theorem resumed_state (program final : Core) (state : UserState k.tables program)
    (ready : Ready k.tables k.stub program.cpu.mem) (ready' : Ready k.tables k.stub final.cpu.mem)
    (resumes : Resumes program final) : UserState k.tables final := by
  refine ⟨?_, ⟨?_, ?_⟩, ?_, ?_, ?_, ?_⟩
  · rw [resumes.eip]
    exact state.eip
  · rw [resumes.code, state.mode.cs]
  · rw [resumes.stack, state.mode.ss]
  · rw [resumes.data .ds (by decide), data_loads_same (ready_segments ready ready')]
    exact state.data
  · rw [resumes.eflags, state.protectedMode]
  · rw [resumes.eflags, state.interruptsOn]
  · rw [resumes.eflags, state.ioplZero]

variable [DecidableEq ι]

theorem inv_stage (inv : Inv k s) (core : Core) (stage : Stage)
    (keeps : Keeps k.tables (Kept k s) s.core.cpu.mem core.cpu.mem) (process : s.stage s.cur ≠ .kernel)
    (user : stage = .user → UserState k.tables core)
    (kernel : stage ≠ .user → core.sel .cs = 0x08 ∧ core.sel .ss = 0x10 ∧ core.eflags.getLsbD nestedTask = false)
    (inside : ∀ program vector errorCode, stage = .inside program vector errorCode →
      Saved k core.cpu.mem s.cur program vector errorCode)
    (notForged : ∀ entry userEsp, stage ≠ .forged entry userEsp) : Inv k (setStage s core stage) := by
  obtain ⟨parked, ready, insideOther, esp0⟩ := kept_mem inv core.cpu.mem keeps
  refine ⟨parked, ready, ?_, ?_, ?_, ?_, ?_, ?_, ?_, ?_⟩
  · intro t isUser
    by_cases current : t = s.cur
    · exact current
    · rw [set_stage_other s core stage t current] at isUser
      exact inv.userOnly t isUser
  · rw [set_stage_cur, set_stage_here]
    exact user
  · rw [set_stage_cur, set_stage_here]
    exact kernel
  · intro t program vector errorCode isInside
    by_cases current : t = s.cur
    · subst current
      rw [set_stage_here] at isInside
      exact inside program vector errorCode isInside
    · rw [set_stage_other s core stage t current] at isInside
      exact insideOther t program vector errorCode isInside
  · intro entry userEsp isForged
    rw [set_stage_cur, set_stage_here] at isForged
    exact absurd isForged (notForged entry userEsp)
  · intro t entry userEsp notCur isForged
    rw [set_stage_other s core stage t notCur] at isForged
    exact inv.forged t entry userEsp notCur isForged
  · intro t isProcess
    by_cases current : t = s.cur
    · rw [current]
      exact inv.process s.cur process
    · rw [set_stage_other s core stage t current] at isProcess
      exact inv.process t isProcess
  · intro _
    rw [set_stage_core, set_stage_cur, esp0]
    exact inv.esp0 process

theorem inv_entered (inv : Inv k s) (mode : s.stage s.cur = .user) (entered : Core) (vector errorCode : Nat)
    (done : HandlerCalled k.tables k.handler k.back vector errorCode s.core entered) :
    Inv k (setStage s entered (.inside s.core vector errorCode)) := by
  obtain ⟨top, length, room, -⟩ := event_room inv mode
  have state := inv.user mode
  have page := k.page s.cur
  have low := done.esp
  rw [frameBase, top, length] at low
  rw [top, length] at room
  refine inv_stage inv entered _ ?_ (by simp [mode]) (by simp) ?_ ?_ (by simp)
  · refine keeps_mono done.frame (fun x kept => ?_)
    rw [top]
    by_contra within
    have bound := kept_outside_own x kept ⟨by omega, by omega⟩
    rw [mode] at bound
    simp only [Stage.held] at bound
    omega
  · intro _
    rw [done.sel, done.eflags]
    refine ⟨rfl, ?_, ?_⟩
    · rw [handlerSelectors, stackSelector, user_cpl state.mode]
      rfl
    · rw [handlerFlags, BitVec.getLsbD_and, BitVec.getLsbD_and, BitVec.getLsbD_not]
      simp [clearedByGate, nestedTask]
  · intro program vector' errorCode' isInside
    cases isInside
    refine ⟨state, inv.ready, top, ?_⟩
    have words := entered_frame done
    rw [frameBase, top, length] at words
    exact words

theorem inv_to_user (inv : Inv k s) (final : Core) (marks : Marks k.tables s.core.cpu.mem final.cpu.mem)
    (state : UserState k.tables final) (process : s.stage s.cur ≠ .kernel) : Inv k (setStage s final .user) :=
  inv_stage inv final .user (keeps_mono marks (fun _ _ => trivial)) process (fun _ => state)
    (fun notUser => absurd rfl notUser) (by simp) (by simp)

end Steps

end X86OS.Interrupts
