import X86OS.Interrupts.Preemption

set_option autoImplicit false

namespace X86OS.Interrupts

open Mem Machine Process

section Switch

variable {ι : Type} (threads : Threads ι) (sym : Symbols)

theorem suspend_frame (s : Machines ι) (next : ι) (calls : Calls threads s next) (x : Nat)
    (outside : x < s.cpu.reg .esp - 32 ∨ s.cpu.reg .esp ≤ x)
    (notSlot : ¬ (threads.slot s.cur ≤ x ∧ x < threads.slot s.cur + 4)) :
    (s.cpu.run (contextSwitch.take 4)).mem x = s.cpu.mem x := by
  have room := calls.room
  have pushed := calls.pushed
  have bound := threads.stackBound s.cur
  let loaded := (s.cpu.exec (.load .ecx .esp 4)).exec (.load .edx .esp 8)
  have ecx : loaded.reg .ecx = threads.slot s.cur := by
    rw [← calls.old]
    simp only [loaded, Cpu.exec, Cpu.set, Function.update_apply, reduceCtorEq, if_true, if_false]
    rw [Word.add_exact _ _ (by omega)]
    exact Nat.mod_eq_of_lt (read_word_lt _ _)
  have esp : loaded.reg .esp = s.cpu.reg .esp := by
    simp only [loaded, Cpu.exec]
    rw [Cpu.set_other _ _ _ _ (by decide), Cpu.set_other _ _ _ _ (by decide)]
  obtain ⟨saved, regs⟩ := pusha_pushed loaded (by omega)
  change (loaded.exec .pusha).mem.writeWord ((loaded.exec .pusha).reg .ecx) ((loaded.exec .pusha).reg .esp) x = _
  rw [regs .ecx (by decide), ecx, write_word_frame _ _ _ _ (by omega), saved.frame x (by rw [esp]; exact outside)]
  rfl

theorem resume_forged (cpu : Cpu) (t : ι) (entry userEsp : Nat) (edx : cpu.reg .edx = threads.slot t)
    (parked : Parked threads sym cpu.mem t (.setupKerenlStack entry userEsp)) :
    (cpu.run (contextSwitch.drop 4)).eip = sym.launchProcess ∧
      (cpu.run (contextSwitch.drop 4)).reg .esp + 20 = threads.high t ∧
      (∀ r, r ≠ .esp → (cpu.run (contextSwitch.drop 4)).reg r = 0) ∧ (cpu.run (contextSwitch.drop 4)).mem = cpu.mem ∧
      Holds cpu.mem ((cpu.run (contextSwitch.drop 4)).reg .esp) [entry, 0x1B, 0x200, userEsp, 0x23] := by
  have above := parked.above
  have below := parked.below
  have high := parked.high
  have slot := threads.slotBound t
  have after : savedEsp threads t (.setupKerenlStack entry userEsp) + 36 = threads.high t - 20 := by
    simp only [savedEsp, espAfterRet] at above ⊢
    omega
  simp only [espAfterRet] at above below
  let entered := cpu.exec (.load .esp .edx 0)
  have esp : entered.reg .esp = savedEsp threads t (.setupKerenlStack entry userEsp) := by
    simp only [entered, Cpu.exec, Cpu.set_here]
    rw [edx, Word.add_exact _ _ (by omega), Nat.add_zero, parked.esp]
    exact Nat.mod_eq_of_lt (by omega)
  have words := parked.words
  rw [← esp] at words after
  obtain ⟨registers, frame⟩ := (holds_append entered.mem _ [0, 0, 0, 0, 0, 0, 0, 0, sym.launchProcess]
    [entry, 0x1B, 0x200, userEsp, 0x23]).mp words
  obtain ⟨zeros, top, target, mem⟩ := popa_ret_spec entered _ _ _ _ _ _ _ _ _ (by omega) registers
  change (entered.run [.popa, .ret]).eip = _ ∧ (entered.run [.popa, .ret]).reg .esp + 20 = _ ∧ _
  refine ⟨target, by omega, popped_registers _ (fun _ => 0) zeros, mem, ?_⟩
  change Holds entered.mem ((entered.run [.popa, .ret]).reg .esp) _
  rw [top]
  exact frame

end Switch

section Steps

variable {ι : Type} {k : Setup ι} {s : Processor ι}

theorem stack_top_free (t : ι) (x : Nat) (low : k.threads.high t - 64 ≤ x) (high : x < k.threads.high t) :
    OwnStack k.threads t x := by
  have page := k.page t
  exact ⟨by omega, high⟩

theorem esp0_parked (inv : Inv k s) (value : Nat) : AllParked k.threads k.sym (machines (writeEsp0 k value s)) := by
  have free (x : Nat) (notReserved : ¬ Reserved k.tables x) :
      (writeEsp0 k value s).core.cpu.mem x = s.core.cpu.mem x := by
    refine write_word_frame _ _ _ _ ?_
    by_contra inside
    exact notReserved (.inr (by omega))
  intro t origin notCur waiting
  exact parked_congr k.threads k.sym s.core.cpu.mem _ t origin (inv.parked t origin notCur waiting)
    (fun x own => free x (k.stackFree t x own)) (fun x low high => free x (k.slotFree t x low high))

variable [DecidableEq ι]

theorem inv_forge (inv : Inv k s) (mode : InKernelCode s) (t : ι) (other : t ≠ s.cur) (words : List Nat)
    (origin : Origin) (stage : Stage) (kind : stage = .kernel ∨ ∃ entry userEsp, stage = .forged entry userEsp ∧
      origin = .setupKerenlStack entry userEsp ∧ userEsp < 2 ^ 32 ∧ k.top t = k.threads.high t)
    (parked : AllParked k.threads k.sym (forge k.threads t words origin (machines s)))
    (frame : ∀ x, ¬ OwnStack k.threads t x → ¬ (k.threads.slot t ≤ x ∧ x < k.threads.slot t + 4) →
      (forge k.threads t words origin (machines s)).cpu.mem x = s.core.cpu.mem x) :
    Inv k (forgeFor k s t words origin stage) := by
  have reserved (x : Nat) (special : Reserved k.tables x) :
      (forgeFor k s t words origin stage).core.cpu.mem x = s.core.cpu.mem x :=
    frame x (fun own => k.stackFree t x own special) (fun slot => k.slotFree t x slot.1 slot.2 special)
  have here : (forgeFor k s t words origin stage).stage t = stage := Function.update_self _ _ _
  have elsewhere (u : ι) (notNew : u ≠ t) : (forgeFor k s t words origin stage).stage u = s.stage u :=
    Function.update_of_ne notNew _ _
  have current : (forgeFor k s t words origin stage).stage s.cur = s.stage s.cur := elsewhere s.cur (Ne.symm other)
  have fresh : stage ≠ .user ∧ ∀ program vector errorCode, stage ≠ .inside program vector errorCode := by
    rcases kind with rfl | ⟨entry, userEsp, rfl, -⟩ <;> simp
  refine ⟨parked, ready_congr inv.ready _ (fun x inside => reserved x (.inl inside)), ?_, ?_, ?_, ?_, ?_, ?_, ?_, ?_⟩
  · intro u user
    by_cases isNew : u = t
    · rw [isNew, here] at user
      exact absurd user fresh.1
    · rw [elsewhere u isNew] at user
      exact inv.userOnly u user
  · intro user
    exact absurd (current.symm.trans user) mode.1
  · intro _
    exact inv.kernel mode.1
  · intro u program vector errorCode inside
    by_cases isNew : u = t
    · rw [isNew, here] at inside
      exact absurd inside (fresh.2 program vector errorCode)
    · rw [elsewhere u isNew] at inside
      refine saved_mem _ _ u program vector errorCode (inv.inside u program vector errorCode inside)
        (fun x low high => frame x ?_ ?_)
      · have own := stack_top_free u x low high
        have apart := k.threads.stacksApart u t isNew
        simp only [OwnStack] at own ⊢
        omega
      · have own := stack_top_free u x low high
        have apart := k.threads.slotOutside t u
        simp only [OwnStack] at own
        omega
  · intro entry userEsp isForged
    exact absurd (current.symm.trans isForged) (mode.2 entry userEsp)
  · intro u entry userEsp notCur isForged
    by_cases isNew : u = t
    · rw [isNew] at isForged ⊢
      rw [here] at isForged
      rcases kind with isKernel | ⟨entry', userEsp', stageEq, originEq, small, -⟩
      · rw [isKernel] at isForged
        cases isForged
      · rw [stageEq] at isForged
        cases isForged
        refine ⟨?_, small⟩
        rw [← originEq]
        exact Function.update_self _ _ _
    · rw [elsewhere u isNew] at isForged
      obtain ⟨waiting, small⟩ := inv.forged u entry userEsp notCur isForged
      exact ⟨(Function.update_of_ne isNew _ _).trans waiting, small⟩
  · intro u process
    by_cases isNew : u = t
    · rw [isNew, here] at process
      rcases kind with isKernel | ⟨-, -, -, -, -, own⟩
      · exact absurd isKernel process
      · rw [isNew, own]
    · rw [elsewhere u isNew] at process
      exact inv.process u process
  · intro process
    have process' : s.stage s.cur ≠ .kernel := fun isKernel => process (current.trans isKernel)
    rw [esp0_mem s.core.cpu.mem _ reserved]
    exact inv.esp0 process'

section Switched

variable (inv : Inv k s) (next : ι) (calls : Calls k.threads (machines (writeEsp0 k (k.top next) s)) next)
  (known : (waits (machines (writeEsp0 k (k.top next) s)) next).isSome)
include inv calls known

theorem switch_mem : (switchProcessor k s next).core.cpu.mem =
    ((machines (writeEsp0 k (k.top next) s)).cpu.run (contextSwitch.take 4)).mem := by
  obtain ⟨origin, waiting⟩ := Option.isSome_iff_exists.mp known
  obtain ⟨edx, -, -⟩ := suspend_spec k.threads k.sym _ next calls
  exact (resume_spec k.threads k.sym _ next origin edx
    (suspend_parked k.threads k.sym _ next next origin (esp0_parked inv (k.top next)) calls waiting)).2

theorem switch_elsewhere (x : Nat) (notOwn : x < s.core.cpu.reg .esp - 32 ∨ s.core.cpu.reg .esp ≤ x)
    (notSlot : ¬ (k.threads.slot s.cur ≤ x ∧ x < k.threads.slot s.cur + 4)) (notReserved : ¬ Reserved k.tables x) :
    (switchProcessor k s next).core.cpu.mem x = s.core.cpu.mem x := by
  rw [switch_mem inv next calls known, suspend_frame k.threads _ next calls x notOwn notSlot]
  refine write_word_frame _ _ _ _ ?_
  by_contra inside
  exact notReserved (.inr (by omega))

theorem switch_reserved (x : Nat) (reserved : Reserved k.tables x) :
    (switchProcessor k s next).core.cpu.mem x = (writeEsp0 k (k.top next) s).core.cpu.mem x := by
  have room : k.threads.low s.cur + 32 ≤ s.core.cpu.reg .esp := calls.room
  have pushed : s.core.cpu.reg .esp + 12 ≤ k.threads.high s.cur := calls.pushed
  rw [switch_mem inv next calls known]
  refine suspend_frame k.threads _ next calls x ?_ (fun slot => k.slotFree s.cur x slot.1 slot.2 reserved)
  change x < s.core.cpu.reg .esp - 32 ∨ s.core.cpu.reg .esp ≤ x
  by_contra within
  exact k.stackFree s.cur x ⟨by omega, by omega⟩ reserved

theorem switch_ready : Ready k.tables k.stub (switchProcessor k s next).core.cpu.mem := by
  refine ready_congr inv.ready _ (fun x inside => ?_)
  rw [switch_reserved inv next calls known x (.inl inside)]
  refine write_word_frame _ _ _ _ ?_
  by_contra written
  exact k.esp0Free x (by omega) (by omega) inside

theorem switch_esp0 : readWord (switchProcessor k s next).core.cpu.mem (k.tables.tss + 4) = k.top next := by
  rw [esp0_mem (writeEsp0 k (k.top next) s).core.cpu.mem _ (switch_reserved inv next calls known)]
  exact write_word_here _ _ _ (k.topSmall next)

-- The frames of interrupted programs are above what the switch writes.
theorem switch_saved (below : s.core.cpu.reg .esp + 12 ≤ k.threads.high s.cur - (s.stage s.cur).held) (t : ι)
    (program : Core) (vector errorCode : Nat) (inside : s.stage t = .inside program vector errorCode) :
    Saved k (switchProcessor k s next).core.cpu.mem t program vector errorCode := by
  have room : k.threads.low s.cur + 32 ≤ s.core.cpu.reg .esp := calls.room
  refine saved_mem _ _ t program vector errorCode (inv.inside t program vector errorCode inside)
    (fun x low high => ?_)
  have own := stack_top_free t x low high
  refine switch_elsewhere inv next calls known x ?_ ?_ (k.stackFree t x own)
  · by_cases current : t = s.cur
    · subst current
      rw [inside] at below
      simp only [Stage.held] at below
      omega
    · have apart := k.threads.stacksApart t s.cur current
      simp only [OwnStack] at own
      omega
  · have apart := k.threads.slotOutside s.cur t
    simp only [OwnStack] at own
    omega

theorem switch_launching (mode : InKernelCode s) (entry userEsp : Nat)
    (isForged : s.stage next = .forged entry userEsp) :
    Launching k (switchProcessor k s next).core next entry userEsp := by
  have notCur : next ≠ s.cur := by
    rintro rfl
    exact mode.2 entry userEsp isForged
  obtain ⟨known', small⟩ := inv.forged next entry userEsp notCur isForged
  have waiting : waits (machines (writeEsp0 k (k.top next) s)) next = some (.setupKerenlStack entry userEsp) :=
    (Function.update_of_ne notCur _ _).trans known'
  obtain ⟨edx, -, -⟩ := suspend_spec k.threads k.sym _ next calls
  obtain ⟨eip, esp, registers, -, words⟩ := resume_forged k.threads k.sym _ next entry userEsp edx
    (suspend_parked k.threads k.sym _ next next _ (esp0_parked inv (k.top next)) calls waiting)
  refine ⟨eip, esp, registers, ?_, small⟩
  rw [switch_mem inv next calls known]
  exact words

theorem inv_switch (mode : InKernelCode s)
    (below : s.core.cpu.reg .esp + 12 ≤ k.threads.high s.cur - (s.stage s.cur).held) :
    Inv k (switchProcessor k s next) := by
  obtain ⟨origin, waiting⟩ := Option.isSome_iff_exists.mp known
  have noUser (t : ι) : s.stage t ≠ .user := fun user => mode.1 (inv.userOnly t user ▸ user)
  refine ⟨(switch_spec k.threads k.sym _ next origin (esp0_parked inv (k.top next)) calls waiting).2,
    switch_ready inv next calls known, ?_, ?_, ?_, switch_saved inv next calls known below,
    switch_launching inv next calls known mode, ?_, inv.process, ?_⟩
  · intro t user
    exact absurd user (noUser t)
  · intro user
    exact absurd user (noUser next)
  · intro _
    exact inv.kernel mode.1
  · intro t entry userEsp notNext isForged
    have notCur : t ≠ s.cur := by
      rintro rfl
      exact mode.2 entry userEsp isForged
    obtain ⟨known', small⟩ := inv.forged t entry userEsp notCur isForged
    refine ⟨?_, small⟩
    rw [← known']
    exact (Function.update_of_ne notNext _ _).trans (Function.update_of_ne notCur _ _)
  · intro process
    rw [switch_esp0 inv next calls known]
    exact inv.process next process

end Switched

-- The program of a process, at its first instruction.
structure Launched (entry userEsp : Nat) (final : Core) : Prop where
  eip : final.cpu.eip = entry
  esp : final.cpu.reg .esp = userEsp
  eax : final.cpu.reg .eax = 0x23
  registers : ∀ r, r ≠ .esp → r ≠ .eax → final.cpu.reg r = 0
  eflags : final.eflags = 0x200
  code : final.sel .cs = 0x1B
  data : ∀ s, s ≠ .cs → final.sel s = 0x23

omit [DecidableEq ι] in
theorem launch_spec (inv : Inv k s) (entry userEsp : Nat) (mode : s.stage s.cur = .forged entry userEsp) :
    ∃ final, s.core.run k.tables launchProcess = some final ∧ Launched entry userEsp final ∧
      Marks k.tables s.core.cpu.mem final.cpu.mem := by
  have launching := inv.launching entry userEsp mode
  obtain ⟨cs, ss, notNested⟩ := inv.kernel (by simp [mode])
  have loads := ready_loads inv.ready
  obtain ⟨eax, registers, setMem⟩ := set_ax_spec s.core.cpu 0x23 (by decide)
  rw [launching.registers .eax (by decide)] at eax
  let loaded : Core := ⟨s.core.cpu.setAx 0x23, s.core.eflags, s.core.sel⟩
  have half : BitVec.ofNat 16 (loaded.cpu.reg .eax) = 0x23 := by
    rw [show loaded.cpu.reg .eax = _ from eax]
    rfl
  have level : loaded.cpl = 0 := by
    rw [Core.cpl, cs]
    rfl
  obtain ⟨mem, marks, segments⟩ := load_segments k.tables loaded dataSegments (fun s member => member) (by
    rw [half, level]
    exact data_loads_inner 3 0x23 loads.userData)
  rw [half] at segments
  rw [show loaded.cpu.mem = s.core.cpu.mem from setMem] at marks
  have marked := ready_loads (ready_keeps inv.ready mem (keeps_mono marks (fun _ _ => trivial)))
  let ready : Core :=
    ⟨{ loaded.cpu with mem := mem }, loaded.eflags, fun s => if s ∈ dataSegments then 0x23 else loaded.sel s⟩
  have esp : ready.cpu.reg .esp = s.core.cpu.reg .esp := registers .esp (by decide)
  have words : Holds ready.cpu.mem (ready.cpu.reg .esp) [entry, 0x1B, 0x200, userEsp, 0x23] := by
    have page := k.page s.cur
    have top := launching.esp
    rw [esp]
    refine holds_congr _ _ _ _
      (fun x low high => marks.bytes x trivial (free_unmarked inv x (k.stackFree s.cur x ⟨by omega, ?_⟩)))
      launching.words
    simp only [List.length_cons, List.length_nil] at high
    omega
  obtain ⟨final, returns, lands⟩ :=
    iret_outer_level k.tables ready entry 0x1B 0x200 level notNested (by decide) marked.userCode userEsp
    0x23 (by decide) marked.userStack words launching.small
  refine ⟨final, ?_, ⟨lands.eip, lands.esp, ?_, ?_, lands.eflags, ?_, ?_⟩, keeps_trans marks lands.mem⟩
  · rw [launchProcess, run_append, run_append]
    change (((loaded.run k.tables (dataSegments.map Op.segAx)).bind _)) = _
    rw [segments, Option.bind_some]
    change (ready.iret k.tables).bind _ = _
    rw [returns]
    rfl
  · rw [lands.registers .eax (by decide)]
    exact eax
  · intro r notEsp notEax
    rw [lands.registers r notEsp, show ready.cpu.reg r = _ from registers r notEax, launching.registers r notEsp]
  · rw [lands.sel]
    rfl
  · intro seg notCode
    rw [lands.sel]
    have kept : k.tables.cleaned ready.cpu.mem 3 0x23 = 0x23 := data_kept 3 0x23 marked.userData
    cases seg with
    | cs => exact absurd rfl notCode
    | ss => rfl
    | ds => exact kept
    | es => exact kept
    | fs => exact kept
    | gs => exact kept

end Steps

end X86OS.Interrupts
