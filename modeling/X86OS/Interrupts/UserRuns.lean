import X86OS.Interrupts.Switching

set_option autoImplicit false

namespace X86OS.Interrupts

open Mem Machine Process Relation

section Runs

variable {ι : Type} {k : Setup ι} {s : Processor ι}

theorem event_spec (inv : Inv k s) (mode : s.stage s.cur = .user) (vector : Nat) (small : vector < 256)
    (errorCode : Option Nat) (agrees : errorCode.isSome = pushesErrorCode vector) (word : errorCode.getD 0 < 2 ^ 32) :
    ∃ entered, enter k.tables k.handler k.back vector errorCode s.core = some entered ∧
      HandlerCalled k.tables k.handler k.back vector (errorCode.getD 0) s.core entered := by
  obtain ⟨-, -, room, clear⟩ := event_room inv mode
  exact enter_spec inv.ready (user_interruptible (inv.user mode)) k.handler k.back vector small errorCode agrees word
    k.backSmall room clear

theorem trap_event (inv : Inv k s) (mode : s.stage s.cur = .user) (vector : Nat) (small : vector < 256) (entered : Core)
    (done : raise k.tables k.handler k.back vector s.core = some entered) :
    vector = 0x80 ∧ enter k.tables k.handler k.back vector none s.core = some entered := by
  have level := user_cpl (inv.user mode).mode
  by_cases syscall : vector = 0x80
  · refine ⟨syscall, ?_⟩
    rw [← done, raise, Core.software, inv.ready.gates vector small, level, if_pos syscall]
    rfl
  · rw [raise, Core.software, inv.ready.gates vector small, level, if_neg syscall] at done
    cases done

variable [DecidableEq ι]

theorem inv_thread_create (inv : Inv k s) (t : ι) (entry arg thread : Nat) (mode : InKernelCode s) (other : t ≠ s.cur)
    (page : k.threads.low t + 0x1000 = k.threads.high t) (small : ∀ w ∈ [entry, arg, thread], w < 2 ^ 32) :
    Inv k (forgeFor k s t (threadWords k.sym entry arg thread) (.threadCreate entry arg thread) .kernel) := by
  have words : ∀ w ∈ threadWords k.sym entry arg thread, w < 2 ^ 32 := by
    refine List.forall_mem_append.mpr ⟨?_, by decide⟩
    simp only [List.forall_mem_cons] at small ⊢
    exact ⟨small.2.2.1, small.2.1, small.1, by decide, k.addresses.1, by simp⟩
  have esp : k.threads.high t - 16 = k.threads.high t - 4 * 13 + 36 := by omega
  have room : k.threads.low t + 4 * 13 ≤ k.threads.high t := by omega
  exact inv_forge inv mode t other _ _ .kernel (.inl rfl)
    (forge_all_parked k.threads k.sym (machines s) t _ _ inv.parked rfl esp (show 10 ≤ 13 by decide) room words)
    (forge_parked k.threads k.sym (machines s) t (threadWords k.sym entry arg thread)
      (.threadCreate entry arg thread) rfl esp (show 10 ≤ 13 by decide) room words).2

theorem inv_setup_kerenl_stack (inv : Inv k s) (t : ι) (entry userEsp : Nat) (mode : InKernelCode s) (other : t ≠ s.cur)
    (page : k.threads.low t + 0x1000 = k.threads.high t) (own : k.top t = k.threads.high t)
    (small : ∀ w ∈ [entry, userEsp], w < 2 ^ 32) :
    Inv k (forgeFor k s t (processWords k.sym entry userEsp) (.setupKerenlStack entry userEsp)
      (.forged entry userEsp)) := by
  have userSmall : userEsp < 2 ^ 32 := small userEsp (by simp)
  have words : ∀ w ∈ processWords k.sym entry userEsp, w < 2 ^ 32 := by
    refine List.forall_mem_append.mpr ⟨?_, by decide⟩
    simp only [List.forall_mem_cons] at small ⊢
    exact ⟨by decide, userSmall, by decide, by decide, small.1, k.addresses.2, by simp⟩
  have esp : k.threads.high t - 20 = k.threads.high t - 4 * 14 + 36 := by omega
  have room : k.threads.low t + 4 * 14 ≤ k.threads.high t := by omega
  exact inv_forge inv mode t other _ _ (.forged entry userEsp) (.inr ⟨entry, userEsp, rfl, rfl, userSmall, own⟩)
    (forge_all_parked k.threads k.sym (machines s) t _ _ inv.parked rfl esp (show 10 ≤ 14 by decide) room words)
    (forge_parked k.threads k.sym (machines s) t (processWords k.sym entry userEsp)
      (.setupKerenlStack entry userEsp) rfl esp (show 10 ≤ 14 by decide) room words).2

omit [DecidableEq ι] in
theorem launched_state (inv : Inv k s) (entry userEsp : Nat) (mode : s.stage s.cur = .forged entry userEsp)
    (final : Core) (launched : Launched entry userEsp final) (marks : Marks k.tables s.core.cpu.mem final.cpu.mem) :
    UserState k.tables final := by
  have entryWord := (inv.launching entry userEsp mode).words.1
  refine ⟨?_, ⟨launched.code, launched.data .ss (by decide)⟩, ?_, ?_, ?_, ?_⟩
  · rw [launched.eip, ← entryWord]
    exact read_word_lt _ _
  · rw [launched.data .ds (by decide), data_loads_same marks.segments]
    exact (ready_loads inv.ready).userData
  · rw [launched.eflags]
    decide
  · rw [launched.eflags]
    decide
  · rw [launched.eflags]
    decide

theorem inv_step (inv : Inv k s) (s' : Processor ι) (step : Runs k s s') : Inv k s' := by
  cases step with
  | program core mode step => exact inv_program inv core mode step
  | event entered vector errorCode mode small agrees word done =>
      obtain ⟨entered', enters, facts⟩ := event_spec inv mode vector small errorCode agrees word
      rw [done, Option.some.injEq] at enters
      rw [enters]
      exact inv_entered inv mode entered' vector _ facts
  | trap entered vector mode small done =>
      obtain ⟨syscall, raised⟩ := trap_event inv mode vector small entered done
      subst syscall
      obtain ⟨entered', enters, facts⟩ := event_spec inv mode 0x80 small none rfl (by decide)
      rw [raised, Option.some.injEq] at enters
      rw [enters]
      exact inv_entered inv mode entered' 0x80 0 facts
  | work core mode step => exact inv_work inv core mode step
  | threadCreate t entry arg thread mode other page small =>
      exact inv_thread_create inv t entry arg thread mode other page small
  | setupKerenlStack t entry userEsp mode other page own small =>
      exact inv_setup_kerenl_stack inv t entry userEsp mode other page own small
  | switch next mode calls below known => exact inv_switch inv next calls known mode below
  | launch final entry userEsp mode done =>
      obtain ⟨final', runs, launched, marks⟩ := launch_spec inv entry userEsp mode
      rw [done, Option.some.injEq] at runs
      rw [runs]
      exact inv_to_user inv final' marks (launched_state inv entry userEsp mode final' launched marks) (by simp [mode])
  | leave final program vector errorCode mode returned done =>
      obtain ⟨final', runs, resumes, marks⟩ := leave_resumes inv program vector errorCode mode returned
      have saved := inv.inside s.cur program vector errorCode mode
      have ready := ready_keeps inv.ready _ (keeps_mono marks (fun _ _ => trivial))
      rw [done, Option.some.injEq] at runs
      rw [runs]
      exact inv_to_user inv final' marks
        (resumed_state program final' saved.state saved.ready ready resumes) (by simp [mode])

omit [DecidableEq ι] in
theorem boots_inv (boots : BootThread k s) : Inv k s where
  parked t origin _ waiting := by
    rw [show (machines s).waiting t = none from (boots.alone t).2] at waiting
    cases waiting
  ready := boots.ready
  userOnly t user := by
    rw [(boots.alone t).1] at user
    cases user
  user user := by
    rw [(boots.alone _).1] at user
    cases user
  kernel _ := ⟨boots.cs, boots.ss, boots.notNested⟩
  inside t program vector errorCode inside := by
    rw [(boots.alone t).1] at inside
    cases inside
  launching entry userEsp isForged := by
    rw [(boots.alone _).1] at isForged
    cases isForged
  forged t entry userEsp _ isForged := by
    rw [(boots.alone t).1] at isForged
    cases isForged
  process t process := absurd (boots.alone t).1 process
  esp0 process := absurd (boots.alone _).1 process

theorem run_inv (first : Processor ι) (boots : BootThread k first) (run : ReflTransGen (Runs k) first s) : Inv k s := by
  induction run with
  | refl => exact boots_inv boots
  | tail _ step ih => exact inv_step ih _ step

-- Where kernel code has its `esp` when it calls `context_switch` with nothing on its stack but what it has to keep.
def callEsp (k : Setup ι) (s : Processor ι) : Nat := k.threads.high s.cur - (s.stage s.cur).held - 12

-- The arguments are on the stack.
def callCore (k : Setup ι) (s : Processor ι) (next : ι) : Core :=
  let mem := (s.core.cpu.mem.writeWord (callEsp k s + 4) (k.threads.slot s.cur)).writeWord (callEsp k s + 8)
    (k.threads.slot next)
  { s.core with cpu := { s.core.cpu.set .esp (callEsp k s) with mem := mem } }

omit [DecidableEq ι] in
theorem call_esp_room :
    k.threads.low s.cur + 32 ≤ callEsp k s ∧ callEsp k s + 12 = k.threads.high s.cur - (s.stage s.cur).held ∧
    callEsp k s < 2 ^ 32 := by
  have page := k.page s.cur
  have bound := k.threads.stackBound s.cur
  have held : (s.stage s.cur).held ≤ 64 := by cases s.stage s.cur <;> simp [Stage.held]
  rw [callEsp]
  omega

omit [DecidableEq ι] in
theorem call_core_esp (next : ι) : (callCore k s next).cpu.reg .esp = callEsp k s :=
  (Cpu.set_here s.core.cpu .esp _).trans (Nat.mod_eq_of_lt call_esp_room.2.2)

omit [DecidableEq ι] in
theorem call_core_works (inv : Inv k s) (mode : InKernelCode s) (next : ι) : KernelWork k s (callCore k s next) := by
  obtain ⟨low, top, -⟩ := @call_esp_room ι k s
  refine ⟨rfl, (inv.kernel mode.1).2.2, keeps_bytes (fun x special => ?_)⟩
  have outside : x < callEsp k s + 4 ∨ callEsp k s + 12 ≤ x := by
    by_contra within
    have own : OwnStack k.threads s.cur x := ⟨by omega, by omega⟩
    rcases special with kept | ⟨above, below⟩
    · have above := kept_outside_own x kept own
      omega
    · have limit := inv.ready.limit
      exact k.stackFree s.cur x own (.inl (.inr (.inl (by omega))))
  change writeWord (writeWord _ (callEsp k s + 4) _) (callEsp k s + 8) _ x = _
  rw [write_word_frame _ _ _ _ (by omega), write_word_frame _ _ _ _ (by omega)]

omit [DecidableEq ι] in
theorem call_core_calls (next : ι) :
    Calls k.threads (machines (writeEsp0 k (k.top next) { s with core := callCore k s next })) next := by
  obtain ⟨low, top, -⟩ := @call_esp_room ι k s
  have esp : (callCore k s next).cpu.reg .esp = callEsp k s := call_core_esp next
  have slots := k.threads.slotBound
  have word (a : Nat) (above : callEsp k s + 4 ≤ a) (below : a + 4 ≤ callEsp k s + 12) :
      readWord ((callCore k s next).cpu.mem.writeWord (k.tables.tss + 4) (k.top next)) a =
        readWord (callCore k s next).cpu.mem a := by
    refine read_word_congr _ _ _ (fun x first last => write_word_frame _ _ _ _ ?_)
    by_contra inside
    exact k.stackFree s.cur x ⟨by omega, by omega⟩ (.inr (by omega))
  refine ⟨?_, ?_, ?_, ?_⟩
  · change k.threads.low s.cur + 32 ≤ (callCore k s next).cpu.reg .esp
    omega
  · change (callCore k s next).cpu.reg .esp + 12 ≤ k.threads.high s.cur
    omega
  · change readWord ((callCore k s next).cpu.mem.writeWord (k.tables.tss + 4) (k.top next))
      ((callCore k s next).cpu.reg .esp + 4) = _
    rw [esp, word _ (by omega) (by omega)]
    change readWord (writeWord (writeWord _ (callEsp k s + 4) _) (callEsp k s + 8) _) (callEsp k s + 4) = _
    rw [write_word_elsewhere _ _ _ _ (by omega)]
    exact write_word_here _ _ _ (by have := slots s.cur; omega)
  · change readWord ((callCore k s next).cpu.mem.writeWord (k.tables.tss + 4) (k.top next))
      ((callCore k s next).cpu.reg .esp + 8) = _
    rw [esp, word _ (by omega) (by omega)]
    exact write_word_here _ _ _ (by have := slots next; omega)

theorem switch_runs (inv : Inv k s) (mode : InKernelCode s) (next : ι) (other : next ≠ s.cur)
    (known : (s.waiting next).isSome) :
    ∃ s', ReflTransGen (Runs k) s s' ∧ s'.cur = next ∧ s'.stage = s.stage ∧ (s'.waiting s.cur).isSome := by
  let called : Processor ι := { s with core := callCore k s next }
  have works : Runs k s called := .work s _ mode (call_core_works inv mode next)
  have below : called.core.cpu.reg .esp + 12 ≤ k.threads.high s.cur - (s.stage s.cur).held := by
    rw [call_core_esp, call_esp_room.2.1]
  have waiting : (waits (machines (writeEsp0 k (k.top next) called)) next).isSome := by
    change (Function.update s.waiting s.cur _ next).isSome
    rw [Function.update_of_ne other]
    exact known
  refine ⟨_,
    (ReflTransGen.single works).tail (.switch called next mode (call_core_calls next) below waiting), rfl, rfl, ?_⟩
  change (Function.update (Function.update s.waiting s.cur _) next none s.cur).isSome
  rw [Function.update_of_ne (Ne.symm other), Function.update_self]
  rfl

end Runs

section Results

variable {ι : Type} [DecidableEq ι] (k : Setup ι) (first s : Processor ι) (boots : BootThread k first)
  (run : ReflTransGen (Runs k) first s)
include boots run

-- A program in ring 3 can always be interrupted, and the interrupt starts on the empty kernel stack of its own process.
theorem user_always_preemptible (mode : s.stage s.cur = .user) :
    UserState k.tables s.core ∧ readWord s.core.cpu.mem (k.tables.tss + 4) = k.threads.high s.cur ∧
      ∀ vector errorCode, vector < 256 → errorCode.isSome = pushesErrorCode vector → errorCode.getD 0 < 2 ^ 32 →
        ∃ entered, enter k.tables k.handler k.back vector errorCode s.core = some entered ∧
          entered.cpu.eip = k.handler ∧
          entered.cpu.reg .esp + 72 = k.threads.high s.cur ∧ entered.eflags.getLsbD interruptFlag = false ∧
          registerT entered.cpu.mem (readWord entered.cpu.mem (entered.cpu.reg .esp + 4)) =
            registersOf k.tables vector (errorCode.getD 0) s.core := by
  have inv := run_inv first boots run
  obtain ⟨top, length, room, clear⟩ := event_room inv mode
  refine ⟨inv.user mode, inv.esp0 (by simp [mode]), fun vector errorCode small agrees word => ?_⟩
  obtain ⟨entered, enters, done⟩ := event_spec inv mode vector small errorCode agrees word
  have low := done.esp
  rw [frameBase, top, length] at low
  rw [top, length] at room
  refine ⟨entered, enters, done.eip, by omega, ?_, entered_registers inv.ready clear done (by rw [top, length]; omega)⟩
  rw [done.eflags, handlerFlags, BitVec.getLsbD_and, BitVec.getLsbD_and, BitVec.getLsbD_not]
  simp [clearedByGate, interruptFlag]

-- However many other threads and programs ran since it was interrupted, a program goes on with the registers it had.
theorem program_resumes (program : Core) (vector errorCode : Nat)
    (mode : s.stage s.cur = .inside program vector errorCode)
    (returned : s.core.cpu.reg .esp + 4 = k.threads.high s.cur - 64) :
    ∃ final, s.core.run k.tables isrReturn = some final ∧ Resumes program final ∧
      Marks k.tables s.core.cpu.mem final.cpu.mem :=
  leave_resumes (run_inv first boots run) program vector errorCode mode returned

-- A new process enters its program with what `create_process` chose, and with its kernel stack free again.
theorem process_launches (entry userEsp : Nat) (mode : s.stage s.cur = .forged entry userEsp) :
    s.core.cpu.eip = k.sym.launchProcess ∧ ∃ final, s.core.run k.tables launchProcess = some final ∧
      Launched entry userEsp final ∧
      UserState k.tables final ∧ readWord final.cpu.mem (k.tables.tss + 4) = k.threads.high s.cur := by
  have inv := run_inv first boots run
  obtain ⟨final, runs, launched, marks⟩ := launch_spec inv entry userEsp mode
  refine ⟨(inv.launching entry userEsp mode).eip, final, runs, launched,
    launched_state inv entry userEsp mode final launched marks, ?_⟩
  exact (inv_step inv _ (.launch s final entry userEsp mode runs)).esp0 (by simp)

end Results

theorem desk_back_small : 0x9100 < 2 ^ 32 := by decide

theorem desk_top_small : ∀ t, twoThreads.high t < 2 ^ 32 := by decide

theorem desk_page : ∀ t, twoThreads.low t + 0x1000 ≤ twoThreads.high t := by decide

theorem desk_stack_above : ∀ t, 0x1000 ≤ twoThreads.low t := by decide

theorem desk_slot_above : ∀ t, 0x1000 ≤ twoThreads.slot t := by decide

def farTables : Tables := ⟨0x10000, 0x11000, 47, 0x12000⟩

theorem desk_tables_above (x : Nat) (special : Reserved farTables x) : 0x1000 ≤ x := by
  simp only [Reserved, InTables, farTables] at special
  omega

theorem desk_esp0_free (x : Nat) (low : farTables.tss + 4 ≤ x) (high : x < farTables.tss + 8) :
    ¬ InTables farTables x := by
  simp only [InTables, farTables] at low high ⊢
  omega

theorem desk_stack_free (t : Bool) (x : Nat) (own : OwnStack twoThreads t x) : ¬ Reserved farTables x := by
  have bounds : 0x2000 ≤ twoThreads.low t ∧ twoThreads.high t ≤ 0x5000 := by cases t <;> decide
  simp only [OwnStack] at own
  simp only [Reserved, InTables, farTables]
  omega

theorem desk_slot_free (t : Bool) (x : Nat) (low : twoThreads.slot t ≤ x) (high : x < twoThreads.slot t + 4) :
    ¬ Reserved farTables x := by
  have bounds : twoThreads.slot t ≤ 0x1010 := by cases t <;> decide
  simp only [Reserved, InTables, farTables]
  omega

-- Two threads, the tables above their stacks and user memory below 0x1000.
def deskSetup : Setup Bool where
  threads := twoThreads
  sym := ⟨0, 0x9200, 0x9300⟩
  tables := farTables
  stub vector := readWord (fun _ => 0) (0x13000 + 4 * vector)
  handler := 0x9000
  back := 0x9100
  top := twoThreads.high
  base := 0x1000
  addresses := by decide
  backSmall := desk_back_small
  topSmall := desk_top_small
  page := desk_page
  stackAbove := desk_stack_above
  slotAbove := desk_slot_above
  tablesAbove := desk_tables_above
  esp0Free := desk_esp0_free
  stackFree := desk_stack_free
  slotFree := desk_slot_free

theorem desk_setup_placed : Placed deskSetup.tables 0x13000 where
  gdtIdt := by decide
  tssIdt := by decide
  tssGdt := by decide
  limit := by decide
  tableIdt := by decide
  tableGdt := by decide

def deskProcessor : Processor Bool where
  core := {
    cpu := { callingCpu with mem := bootTables deskSetup.tables 0x13000 (fun _ => 0) }
    eflags := 2
    sel := fun s => if s = .cs then 0x08 else 0x10 }
  cur := false
  waiting _ := none
  stage _ := .kernel

theorem desk_processor_boots : BootThread deskSetup deskProcessor where
  alone _ := ⟨rfl, rfl⟩
  ready := boot_ready deskSetup.tables 0x13000 (fun _ => 0) desk_setup_placed
  cs := rfl
  ss := rfl
  notNested := by decide

-- A process is made for the other thread.
def deskForged : Processor Bool :=
  forgeFor deskSetup deskProcessor true (processWords deskSetup.sym 0x100 0x800) (.setupKerenlStack 0x100 0x800)
    (.forged 0x100 0x800)

theorem desk_forged_run : ReflTransGen (Runs deskSetup) deskProcessor deskForged :=
  .single (.setupKerenlStack deskProcessor true 0x100 0x800 ⟨by simp [deskProcessor], by simp [deskProcessor]⟩
    (by decide) (by decide) rfl (by decide))

theorem desk_switched_run :
    ∃ s, ReflTransGen (Runs deskSetup) deskProcessor s ∧ s.cur = true ∧ s.stage = deskForged.stage ∧
    (s.waiting false).isSome := by
  have stage : deskForged.stage deskForged.cur = .kernel := rfl
  obtain ⟨s, run, cur, stages, waiting⟩ :=
    switch_runs (run_inv _ desk_processor_boots desk_forged_run) ⟨by simp [stage], by simp [stage]⟩
    true (by decide) rfl
  exact ⟨s, desk_forged_run.trans run, cur, stages, waiting⟩

theorem process_launches_desk : ∃ s final, ReflTransGen (Runs deskSetup) deskProcessor s ∧
    s.core.run deskSetup.tables launchProcess = some final ∧ Launched 0x100 0x800 final := by
  obtain ⟨s, run, cur, stages, -⟩ := desk_switched_run
  obtain ⟨-, final, runs, launched, -⟩ :=
    process_launches deskSetup deskProcessor s desk_processor_boots run 0x100 0x800
    (by rw [cur, stages]; rfl)
  exact ⟨s, final, run, runs, launched⟩

theorem desk_user_run :
    ∃ s, ReflTransGen (Runs deskSetup) deskProcessor s ∧ s.cur = true ∧ s.stage true = .user ∧ s.stage false = .kernel ∧
    (s.waiting false).isSome ∧ Launched 0x100 0x800 s.core := by
  obtain ⟨s, run, cur, stages, waiting⟩ := desk_switched_run
  have stage : s.stage s.cur = .forged 0x100 0x800 := by rw [cur, stages]; rfl
  obtain ⟨final, runs, launched, -⟩ := launch_spec (run_inv _ desk_processor_boots run) 0x100 0x800 stage
  refine ⟨_, run.tail (.launch s final 0x100 0x800 stage runs), cur, ?_, ?_, waiting, launched⟩
  · rw [← cur]
    exact set_stage_here _ _ _
  · rw [set_stage_other _ _ _ _ (by rw [cur]; decide), stages]
    rfl

theorem user_always_preemptible_desk :
    ∃ s entered, ReflTransGen (Runs deskSetup) deskProcessor s ∧ Launched 0x100 0x800 s.core ∧
    enter deskSetup.tables 0x9000 0x9100 0x20 none s.core = some entered ∧ entered.cpu.eip = 0x9000 := by
  obtain ⟨s, run, cur, mode, -, -, launched⟩ := desk_user_run
  obtain ⟨-, -, enters⟩ :=
    user_always_preemptible deskSetup deskProcessor s desk_processor_boots run (by rw [cur, mode])
  obtain ⟨entered, done, eip, -⟩ := enters 0x20 none (by decide) (by decide) (by decide)
  exact ⟨s, entered, run, launched, done, eip⟩

theorem desk_preempted_run :
    ∃ s program, ReflTransGen (Runs deskSetup) deskProcessor s ∧ s.cur = false ∧ s.stage false = .kernel ∧
    s.stage true = .inside program 0x20 0 ∧ (s.waiting true).isSome ∧ Launched 0x100 0x800 program := by
  obtain ⟨s, run, cur, mode, kernel, waiting, launched⟩ := desk_user_run
  have inv := run_inv _ desk_processor_boots run
  have user : s.stage s.cur = .user := by rw [cur, mode]
  obtain ⟨entered, enters, done⟩ := event_spec inv user 0x20 (by decide) none (by decide) (by decide)
  let inside := setStage s entered (.inside s.core 0x20 0)
  have hit : Runs deskSetup s inside := .event s entered 0x20 none user (by decide) (by decide) (by decide) enters
  have stage : inside.stage inside.cur = .inside s.core 0x20 0 := set_stage_here _ _ _
  obtain ⟨s', switches, cur', stages, waiting'⟩ := switch_runs (inv_entered inv user entered 0x20 0 done)
    ⟨by simp, by simp⟩ false (by rw [set_stage_cur, cur]; decide) waiting
  rw [set_stage_cur, cur] at waiting'
  refine ⟨s', s.core, (run.tail hit).trans switches, cur', ?_, ?_, waiting', launched⟩
  · rw [stages, set_stage_other _ _ _ _ (by rw [cur]; decide), kernel]
  · rw [stages, ← cur]
    exact stage

-- The boot thread runs in between, and then the handler of the program returns.
theorem program_resumes_desk :
    ∃ between s program final, ReflTransGen (Runs deskSetup) deskProcessor between ∧ between.cur = false ∧
    between.stage true = .inside program 0x20 0 ∧ ReflTransGen (Runs deskSetup) between s ∧ s.cur = true ∧
    Launched 0x100 0x800 program ∧ s.core.run deskSetup.tables isrReturn = some final ∧ Resumes program final := by
  obtain ⟨s, program, run, cur, kernel, inside, waiting, launched⟩ := desk_preempted_run
  have current : s.stage s.cur = .kernel := by rw [cur, kernel]
  obtain ⟨s', switches, cur', stages, -⟩ :=
    switch_runs (run_inv _ desk_processor_boots run) ⟨by simp [current], by simp [current]⟩ true
    (by rw [cur]; decide) waiting
  have inv := run_inv _ desk_processor_boots (run.trans switches)
  have stage : s'.stage s'.cur = .inside program 0x20 0 := by rw [cur', stages, inside]
  let core : Core := { s'.core with cpu := s'.core.cpu.set .esp (deskSetup.threads.high true - 68) }
  have returns : Runs deskSetup s' { s' with core := core } :=
    .work s' core ⟨by simp [stage], by simp [stage]⟩ ⟨rfl, (inv.kernel (by simp [stage])).2.2, keeps_refl⟩
  have whole := (run.trans switches).tail returns
  obtain ⟨final, runs, resumes, -⟩ :=
    program_resumes deskSetup deskProcessor { s' with core := core } desk_processor_boots whole program
    0x20 0 stage (by
      change (s'.core.cpu.set .esp (deskSetup.threads.high true - 68)).reg .esp + 4 = deskSetup.threads.high s'.cur - 64
      rw [Cpu.set_here, cur']
      decide)
  exact ⟨s, _, program, final, run, cur, inside, switches.tail returns, cur', launched, runs, resumes⟩

end X86OS.Interrupts
