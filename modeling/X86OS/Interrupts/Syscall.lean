import X86OS.Interrupts.Transparent

set_option autoImplicit false

namespace X86OS.Interrupts

open Mem Machine

inductive Handler where
  | pitIrqHandler
  | syscallHandler
deriving DecidableEq, Repr

-- `interrupt_handlers`
abbrev Handlers := Nat → Option Handler

def registerInterruptHandler (n : Nat) (handler : Handler) (handlers : Handlers) : Handlers :=
  Function.update handlers (n % 2 ^ 8) (some handler)

-- `init_pit` and `init_syscall` register theirs.
def bootHandlers : Handlers :=
  registerInterruptHandler 0x80 .syscallHandler (registerInterruptHandler (0x20 + 0) .pitIrqHandler (fun _ => none))

-- The handler that `interrupt_handler` calls; without one it reports the registers and panics.
def interruptHandler (handlers : Handlers) (regs : RegisterT) : Option Handler := handlers (regs.interrupt % 2 ^ 8)

inductive Syscall where
  | exit
  | sleep (time : Nat)
  | unknown
deriving DecidableEq, Repr

-- `syscall_handler`
def syscallOf (regs : RegisterT) : Syscall :=
  if regs.eax = 0 then .exit else if regs.eax = 1 then .sleep regs.ebx else .unknown

-- `int n` up to the first instruction of `interrupt_handler`.
def raise (t : Tables) (handler back vector : Nat) (core : Core) : Option Core :=
  (core.software t vector).bind (fun entered => entered.run t (isrStub vector ++ isrWrapper handler back))

-- The user's `sleep` before and behind its `int 0x80`.
def sleepCall : List Op := [.push .ebx, .instr (.load .ebx .esp 8), .movImm .eax 1]
def sleepReturn : List Op := [.pop .ebx, .instr .ret]

def withEip (core : Core) (eip : Nat) : Core := { core with cpu := { core.cpu with eip := eip } }

-- A user program below `base`, with what the kernel keeps for it above.
structure UserProgram (t : Tables) (stub : Nat → Nat) (base : Nat) (core : Core) : Prop where
  ready : Ready t stub core.cpu.mem
  user : UserMode core
  data : t.dataLoads core.cpu.mem core.cpl (core.sel .ds)
  protectedMode : core.eflags.getLsbD virtual8086 = false
  tables : ∀ x, x < base → ¬ InTables t x ∧ ¬ (t.tss + 4 ≤ x ∧ x < t.tss + 8)
  room : base + 72 ≤ readWord core.cpu.mem (t.tss + 4)
  clear : ∀ x, readWord core.cpu.mem (t.tss + 4) - 72 ≤ x → x < readWord core.cpu.mem (t.tss + 4) → ¬ InTables t x

section Raising

variable {t : Tables} {stub : Nat → Nat} {base : Nat} {core : Core}

theorem user_cpl (user : UserMode core) : core.cpl = 3 := by
  rw [Core.cpl, user.cs]
  rfl

theorem user_top (user : UserMode core) : stackTop t core = readWord core.cpu.mem (t.tss + 4) := by
  rw [stackTop, user_cpl user]
  rfl

theorem user_frame_length (user : UserMode core) : frameLength core = 16 := by
  rw [frameLength, outer, user_cpl user]
  rfl

theorem program_clear (program : UserProgram t stub base core) : FrameClear t core := by
  have room := program.room
  intro x low high
  rw [frameBase, user_frame_length program.user, user_top program.user] at low high
  exact program.clear x (by omega) (by omega)

theorem user_program_congr (program : UserProgram t stub base core) (next : Core) (sel : next.sel = core.sel)
    (protectedMode : next.eflags.getLsbD virtual8086 = false) (mem : ∀ x, base ≤ x → next.cpu.mem x = core.cpu.mem x) :
    UserProgram t stub base next := by
  have outside (x : Nat) (special : InTables t x ∨ t.tss + 4 ≤ x ∧ x < t.tss + 8) :
      next.cpu.mem x = core.cpu.mem x := by
    refine mem x ?_
    by_contra low
    obtain ⟨notTables, notEsp0⟩ := program.tables x (by omega)
    rcases special with inside | inside
    · exact notTables inside
    · exact notEsp0 inside
  have esp0 : readWord next.cpu.mem (t.tss + 4) = readWord core.cpu.mem (t.tss + 4) :=
    read_word_congr _ _ _ (fun x low high => outside x (.inr ⟨low, by omega⟩))
  have ready := ready_congr program.ready next.cpu.mem (fun x inside => outside x (.inl inside))
  refine ⟨ready, ⟨by rw [sel, program.user.cs], by rw [sel, program.user.ss]⟩, ?_, protectedMode,
    program.tables, ?_, ?_⟩
  · rw [Core.cpl, sel, data_loads_same (ready_segments program.ready ready)]
    exact program.data
  · rw [esp0]
    exact program.room
  · rw [esp0]
    exact program.clear

-- A system call reaches `syscall_handler` with the registers of its caller, and comes back to it.
theorem raise_spec (program : UserProgram t stub base core) (near : core.cpu.eip < 2 ^ 32) (handler back : Nat)
    (address : back < 2 ^ 32) :
    ∃ entered, raise t handler back 0x80 core = some entered ∧ HandlerCalled t handler back 0x80 0 core entered := by
  have level := user_cpl program.user
  have top := @user_top t core program.user
  have length := user_frame_length program.user
  have room := program.room
  have ok : Interruptible t core := ⟨near, .inr ⟨program.user.cs, program.user.ss⟩, program.data, program.protectedMode⟩
  have gate : core.software t 0x80 = core.deliver t 0x80 none := by
    rw [Core.software, program.ready.gates 0x80 (by decide), level]
    rfl
  rw [raise, gate]
  refine enter_spec program.ready ok handler back 0x80 (by decide) none rfl (by decide) address ?_
    (program_clear program)
  rw [length, top]
  omega

theorem syscall_registers (program : UserProgram t stub base core) (handler back : Nat) (entered : Core)
    (done : HandlerCalled t handler back 0x80 0 core entered) :
    registerT entered.cpu.mem (readWord entered.cpu.mem (entered.cpu.reg .esp + 4)) = registersOf t 0x80 0 core := by
  have room := program.room
  refine entered_registers program.ready (program_clear program) done ?_
  rw [user_frame_length program.user, user_top program.user]
  omega

theorem syscall_returns (program : UserProgram t stub base core) (near : core.cpu.eip < 2 ^ 32) (handler back : Nat)
    (entered : Core) (done : HandlerCalled t handler back 0x80 0 core entered) (returned : Core)
    (cdecl : CdeclReturn t (readWord core.cpu.mem (t.tss + 4)) entered returned) :
    ∃ final, returned.run t isrReturn = some final ∧ Resumes core final ∧ Marks t returned.cpu.mem final.cpu.mem := by
  have room := program.room
  have top := @user_top t core program.user
  have frame : 4 * frameLength core ≤ stackTop t core := by
    rw [user_frame_length program.user, top]
    omega
  have ok : Interruptible t core := ⟨near, .inr ⟨program.user.cs, program.user.ss⟩, program.data, program.protectedMode⟩
  have clear := program_clear program
  exact leave_spec returned 0x80 0 program.ready ok
    (cdecl_returned program.ready done frame clear returned (top.symm ▸ cdecl)) frame clear

end Raising

-- The caller of `sleep(time)`: its return address and the argument are on its stack.
structure CallsSleep (base : Nat) (core : Core) : Prop where
  low : 4 ≤ core.cpu.reg .esp
  high : core.cpu.reg .esp + 8 ≤ base

section Sleep

variable {t : Tables} {stub : Nat → Nat} {base : Nat} {core : Core}

theorem sleep_call_spec (call : CallsSleep base core) (small : base ≤ 2 ^ 32) :
    ∃ raised, core.run t sleepCall = some raised ∧
    raised.cpu.reg .eax = 1 ∧ raised.cpu.reg .ebx = readWord core.cpu.mem (core.cpu.reg .esp + 4) ∧
    raised.cpu.reg .esp = core.cpu.reg .esp - 4 ∧
    (∀ r, r ≠ .eax → r ≠ .ebx → r ≠ .esp → raised.cpu.reg r = core.cpu.reg r) ∧ raised.eflags = core.eflags ∧
    raised.sel = core.sel ∧ readWord raised.cpu.mem (core.cpu.reg .esp - 4) = core.cpu.reg .ebx ∧
    ∀ x, x < core.cpu.reg .esp - 4 ∨ core.cpu.reg .esp ≤ x → raised.cpu.mem x = core.cpu.mem x := by
  have low := call.low
  have high := call.high
  have pushed := push_spec core.cpu (core.cpu.reg .ebx) low (core.cpu.small .ebx)
  let saved := core.cpu.push (core.cpu.reg .ebx)
  have esp : saved.reg .esp = core.cpu.reg .esp - 4 := pushed.esp
  have other (r : Reg) (notEsp : r ≠ .esp) : saved.reg r = core.cpu.reg r :=
    Cpu.pushes_other core.cpu [core.cpu.reg .ebx] r notEsp
  have argument : readWord saved.mem (Word.add (saved.reg .esp) 8) = readWord core.cpu.mem (core.cpu.reg .esp + 4) := by
    rw [esp, Word.add_exact _ _ (by omega), show core.cpu.reg .esp - 4 + 8 = core.cpu.reg .esp + 4 by omega]
    exact read_word_congr _ _ _ (fun x above _ => pushed.frame x (.inr (by omega)))
  refine ⟨{ core with cpu := (saved.set .ebx (readWord saved.mem (Word.add (saved.reg .esp) 8))).set .eax 1 }, rfl, ?_,
    ?_, ?_, ?_, rfl, rfl, ?_, ?_⟩
  · exact Cpu.set_here _ _ _
  · rw [Cpu.set_other _ _ _ _ (by decide), Cpu.set_here, argument]
    exact Nat.mod_eq_of_lt (read_word_lt _ _)
  · rw [Cpu.set_other _ _ _ _ (by decide), Cpu.set_other _ _ _ _ (by decide), esp]
  · intro r notEax notEbx notEsp
    rw [Cpu.set_other _ _ _ _ notEax, Cpu.set_other _ _ _ _ notEbx, other r notEsp]
  · exact pushed.words.1
  · exact pushed.frame

theorem sleep_return_spec (resumed : Core) (ebx target esp : Nat) (at4 : resumed.cpu.reg .esp = esp)
    (room : esp + 8 < 2 ^ 32) (first : readWord resumed.cpu.mem esp = ebx)
    (second : readWord resumed.cpu.mem (esp + 4) = target) :
    ∃ final, resumed.run t sleepReturn = some final ∧ final.cpu.eip = target ∧ final.cpu.reg .esp = esp + 8 ∧
      final.cpu.reg .ebx = ebx ∧
      (∀ r, r ≠ .ebx → r ≠ .esp → final.cpu.reg r = resumed.cpu.reg r) ∧ final.eflags = resumed.eflags ∧
      final.sel = resumed.sel ∧ final.cpu.mem = resumed.cpu.mem := by
  obtain ⟨ebxEq, espEq, other, memEq⟩ := pop_spec resumed.cpu .ebx (by decide) (by omega)
  rw [at4] at ebxEq espEq
  obtain ⟨eip, retEsp, retOther, retMem⟩ := ret_spec (resumed.cpu.pop (some .ebx)) (by omega)
  refine ⟨{ resumed with cpu := (resumed.cpu.pop (some .ebx)).exec .ret }, rfl, ?_, ?_, ?_, ?_, rfl, rfl,
    retMem.trans memEq⟩
  · rw [eip, espEq, memEq, second]
  · rw [retEsp, espEq]
  · rw [retOther .ebx (by decide), ebxEq, first]
  · intro r notEbx notEsp
    rw [retOther r notEsp, other r notEbx notEsp]

end Sleep

-- `sleep` has returned to its caller.
structure SleepDone (core final : Core) : Prop where
  eip : final.cpu.eip = readWord core.cpu.mem (core.cpu.reg .esp)
  esp : final.cpu.reg .esp = core.cpu.reg .esp + 4
  registers : ∀ r, r ≠ .eax → r ≠ .esp → final.cpu.reg r = core.cpu.reg r
  eflags : final.eflags = core.eflags
  code : final.sel .cs = core.sel .cs
  stack : final.sel .ss = core.sel .ss
  data : ∀ s ∈ dataSegments, final.sel s = core.sel .ds

-- From the user's `sleep(time)` to the kernel's `do_sleep(time)` and back. `after` is the address behind the `int`.
theorem sleep_reaches_kernel (t : Tables) (stub : Nat → Nat) (base : Nat) (core : Core)
    (program : UserProgram t stub base core) (call : CallsSleep base core) (small : base < 2 ^ 32)
    (after handler back : Nat) (addresses : after < 2 ^ 32 ∧ back < 2 ^ 32) :
    ∃ raised entered, core.run t sleepCall = some raised ∧
      raise t handler back 0x80 (withEip raised after) = some entered ∧
      (interruptHandler bootHandlers (registerT entered.cpu.mem (readWord entered.cpu.mem (entered.cpu.reg .esp + 4))) =
        some .syscallHandler ∧
        syscallOf (registerT entered.cpu.mem (readWord entered.cpu.mem (entered.cpu.reg .esp + 4))) =
          .sleep (readWord core.cpu.mem (core.cpu.reg .esp + 4))) ∧
      ∀ returned, CdeclReturn t (readWord core.cpu.mem (t.tss + 4)) entered returned →
        (∀ x, x < base → returned.cpu.mem x = entered.cpu.mem x) →
        ∃ resumed final, returned.run t isrReturn = some resumed ∧ resumed.cpu.eip = after ∧
          resumed.run t sleepReturn = some final ∧ SleepDone core final := by
  have low := call.low
  have high := call.high
  have room := program.room
  obtain ⟨raised, runs, eax, ebx, esp, registers, eflags, sel, saved, frame⟩ :=
    @sleep_call_spec t base core call small.le
  have next := user_program_congr program (withEip raised after) sel
    (by rw [← program.protectedMode, ← eflags]; rfl) (fun x above => frame x (.inr (by omega)))
  have esp0 : readWord raised.cpu.mem (t.tss + 4) = readWord core.cpu.mem (t.tss + 4) := by
    refine read_word_congr _ _ _ (fun x above below => frame x (.inr ?_))
    by_contra inside
    exact (program.tables x (by omega)).2 ⟨above, by omega⟩
  obtain ⟨entered, raises, done⟩ := raise_spec next addresses.1 handler back addresses.2
  have regs := syscall_registers next handler back entered done
  have stackLow := done.esp
  rw [frameBase, user_frame_length next.user, user_top next.user,
    show readWord (withEip raised after).cpu.mem (t.tss + 4) = _ from esp0] at stackLow
  refine ⟨raised, entered, runs, raises, ?_, ?_⟩
  · rw [regs]
    have number : (registersOf t 0x80 0 (withEip raised after)).eax = 1 := eax
    have time : (registersOf t 0x80 0 (withEip raised after)).ebx = readWord core.cpu.mem (core.cpu.reg .esp + 4) := ebx
    refine ⟨rfl, ?_⟩
    rw [syscallOf, number, time]
    rfl
  · intro returned cdecl own
    rw [← show readWord (withEip raised after).cpu.mem (t.tss + 4) = _ from esp0] at cdecl
    obtain ⟨resumed, leaves, resumes, marks⟩ :=
      syscall_returns next addresses.1 handler back entered done returned cdecl
    have user (x : Nat) (below : x < base) : resumed.cpu.mem x = raised.cpu.mem x := by
      have unmarked : ¬ AccessByte t x :=
        fun access => (program.tables x below).1 (.inr (.inl (access_in_gdt program.ready x access)))
      rw [marks.bytes x trivial unmarked, own x below]
      exact done.frame.bytes x (.inl (by omega)) unmarked
    have first : readWord resumed.cpu.mem (core.cpu.reg .esp - 4) = core.cpu.reg .ebx := by
      rw [← saved]
      exact read_word_congr _ _ _ (fun x _ below => user x (by omega))
    have second : readWord resumed.cpu.mem (core.cpu.reg .esp - 4 + 4) = readWord core.cpu.mem (core.cpu.reg .esp) := by
      rw [Nat.sub_add_cancel low]
      exact read_word_congr _ _ _ (fun x above below => (user x (by omega)).trans (frame x (.inr above)))
    have resumedEsp : resumed.cpu.reg .esp = core.cpu.reg .esp - 4 := by
      rw [resumes.registers]
      exact esp
    obtain ⟨final, returns, eip, finalEsp, finalEbx, finalOther, finalFlags, finalSel, -⟩ :=
      @sleep_return_spec t resumed _ _ _ resumedEsp (by omega) first second
    refine ⟨resumed, final, leaves, resumes.eip, returns, eip, by omega, ?_, ?_, ?_, ?_, ?_⟩
    · intro r notEax notEsp
      by_cases isEbx : r = .ebx
      · rw [isEbx, finalEbx]
      · rw [finalOther r isEbx notEsp, resumes.registers]
        exact registers r notEax isEbx notEsp
    · rw [finalFlags, resumes.eflags]
      exact eflags
    · rw [finalSel, resumes.code, ← sel]
      rfl
    · rw [finalSel, resumes.stack, ← sel]
      rfl
    · intro s member
      rw [finalSel, resumes.data s member, ← sel]
      rfl

-- A program that calls `sleep(7)` from 0x123.
def deskSleeper : Core where
  cpu := { reg := fun r => if r = .esp then 0x800 else 5
           eip := 0x100
           mem := writeWord (writeWord deskMemory 0x800 0x123) 0x804 7
           small := by
            intro r
            cases r <;> decide }
  eflags := 0x202
  sel s := if s = .cs then 0x1B else 0x23

theorem desk_sleeper_mem (x : Nat) (above : 0x1000 ≤ x) : deskSleeper.cpu.mem x = deskMemory x := by
  change writeWord (writeWord deskMemory 0x800 0x123) 0x804 7 x = _
  rw [write_word_frame _ _ _ _ (by omega), write_word_frame _ _ _ _ (by omega)]

theorem desk_sleeper_program : UserProgram deskTables
    (fun vector => readWord (writeWord (fun _ => 0) 0x3004 0x8000) (0x4000 + 4 * vector)) 0x1000 deskSleeper := by
  have ready := ready_congr desk_ready deskSleeper.cpu.mem (fun x inside => desk_sleeper_mem x (by
    simp only [InTables, deskTables] at inside
    omega))
  have esp0 : readWord deskSleeper.cpu.mem (deskTables.tss + 4) = 0x8000 := by
    rw [← desk_esp0]
    exact read_word_congr _ _ _ (fun x low _ => desk_sleeper_mem x (by simp only [deskTables] at low; omega))
  refine ⟨ready, ⟨rfl, rfl⟩, ?_, by decide, ?_, ?_, ?_⟩
  · exact (ready_loads ready).userData
  · intro x low
    simp only [InTables, deskTables]
    omega
  · rw [esp0]
    decide
  · intro x low high
    rw [esp0] at low high
    simp only [InTables, deskTables]
    omega

theorem sleep_reaches_kernel_desk : ∃ raised entered, deskSleeper.run deskTables sleepCall = some raised ∧
    raise deskTables 0x9000 0x9100 0x80 (withEip raised 0x110) = some entered ∧
    syscallOf (registerT entered.cpu.mem (readWord entered.cpu.mem (entered.cpu.reg .esp + 4))) = .sleep 7 := by
  obtain ⟨raised, entered, runs, raises, ⟨-, call⟩, -⟩ :=
    sleep_reaches_kernel deskTables _ 0x1000 deskSleeper desk_sleeper_program
    ⟨by decide, by decide⟩ (by decide) 0x110 0x9000 0x9100 (by decide)
  have argument : readWord deskSleeper.cpu.mem (deskSleeper.cpu.reg .esp + 4) = 7 :=
    write_word_here _ 0x804 7 (by decide)
  rw [argument] at call
  exact ⟨raised, entered, runs, raises, call⟩

end X86OS.Interrupts
