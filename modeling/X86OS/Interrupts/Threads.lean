import X86OS.Interrupts.Syscall
import X86OS.Process.ContextSwitch

set_option autoImplicit false

namespace X86OS.Interrupts

open Mem Machine Process

def launchProcess : List Op := [Op.axImm 0x23] ++ dataSegments.map Op.segAx ++ [Op.iret]

def iopl (eflags : BitVec 32) : Nat := eflags.toNat / 2 ^ 12 % 4

-- Ring 3 as the kernel lets a program run. With IOPL 0 it cannot turn interrupts off.
structure UserState (t : Tables) (core : Core) : Prop where
  eip : core.cpu.eip < 2 ^ 32
  mode : UserMode core
  data : t.dataLoads core.cpu.mem 3 (core.sel .ds)
  protectedMode : core.eflags.getLsbD virtual8086 = false
  interruptsOn : core.eflags.getLsbD interruptFlag = true
  ioplZero : iopl core.eflags = 0

-- What the processor lets a program in ring 3 do; it reaches no byte from `base` on.
structure UserStep (t : Tables) (base : Nat) (core core' : Core) : Prop where
  eip : core'.cpu.eip < 2 ^ 32
  cs : core'.sel .cs = core.sel .cs
  ss : core'.sel .ss = core.sel .ss
  data : t.dataLoads core'.cpu.mem 3 (core'.sel .ds)
  protectedMode : core'.eflags.getLsbD virtual8086 = core.eflags.getLsbD virtual8086
  iopl : iopl core'.eflags = iopl core.eflags
  interruptFlag :
    Interrupts.iopl core.eflags < 3 → core'.eflags.getLsbD interruptFlag = core.eflags.getLsbD interruptFlag
  kernel : Keeps t (fun x => base ≤ x) core.cpu.mem core'.cpu.mem

def Reserved (t : Tables) (x : Nat) : Prop := InTables t x ∨ t.tss + 4 ≤ x ∧ x < t.tss + 8

-- The kernel's objects, which share no byte, and the user's memory below them.
-- `top` is what the scheduler writes to `tss.esp0` for a thread.
structure Setup (ι : Type) where
  threads : Threads ι
  sym : Symbols
  tables : Tables
  stub : Nat → Nat
  handler : Nat
  back : Nat
  top : ι → Nat
  base : Nat
  addresses : sym.kthreadStub < 2 ^ 32 ∧ sym.launchProcess < 2 ^ 32
  backSmall : back < 2 ^ 32
  topSmall : ∀ t, top t < 2 ^ 32
  page : ∀ t, threads.low t + 0x1000 ≤ threads.high t
  stackAbove : ∀ t, base ≤ threads.low t
  slotAbove : ∀ t, base ≤ threads.slot t
  tablesAbove : ∀ x, Reserved tables x → base ≤ x
  esp0Free : ∀ x, tables.tss + 4 ≤ x → x < tables.tss + 8 → ¬ InTables tables x
  stackFree : ∀ t x, OwnStack threads t x → ¬ Reserved tables x
  slotFree : ∀ t x, threads.slot t ≤ x → x < threads.slot t + 4 → ¬ Reserved tables x

inductive Stage where
  | kernel
  | forged (entry userEsp : Nat)
  | user
  -- In the kernel since the event that hit the program in this state.
  | inside (program : Core) (vector errorCode : Nat)

def Stage.held : Stage → Nat
  | .inside _ _ _ => 64
  | _ => 0

structure Processor (ι : Type) where
  core : Core
  cur : ι
  waiting : ι → Option Origin
  stage : ι → Stage

section Steps

variable {ι : Type} (k : Setup ι)

def machines (s : Processor ι) : Machines ι := ⟨s.core.cpu, s.cur, s.waiting⟩

def withMachines (s : Processor ι) (m : Machines ι) : Processor ι :=
  { s with core := { s.core with cpu := m.cpu }, cur := m.cur, waiting := m.waiting }

def writeEsp0 (value : Nat) (s : Processor ι) : Processor ι :=
  { s with core := { s.core with cpu := { s.core.cpu with mem := s.core.cpu.mem.writeWord (k.tables.tss + 4) value } } }

def InKernelCode (s : Processor ι) : Prop :=
  s.stage s.cur ≠ .user ∧ ∀ entry userEsp, s.stage s.cur ≠ .forged entry userEsp

-- What the running kernel code leaves alone, the frame of the program it interrupted included.
def Kept (s : Processor ι) (x : Nat) : Prop :=
  Reserved k.tables x ∨ (∃ t, k.threads.slot t ≤ x ∧ x < k.threads.slot t + 4) ∨
    (∃ t, t ≠ s.cur ∧ OwnStack k.threads t x) ∨
    (k.threads.high s.cur - (s.stage s.cur).held ≤ x ∧ x < k.threads.high s.cur)

structure KernelWork (s : Processor ι) (core : Core) : Prop where
  sel : core.sel = s.core.sel
  notNested : core.eflags.getLsbD nestedTask = false
  kept : Keeps k.tables (Kept k s) s.core.cpu.mem core.cpu.mem

variable [DecidableEq ι]

def setStage (s : Processor ι) (core : Core) (stage : Stage) : Processor ι :=
  { s with core := core, stage := Function.update s.stage s.cur stage }

@[simp] theorem set_stage_cur (s : Processor ι) (core : Core) (stage : Stage) :
    (setStage s core stage).cur = s.cur := rfl

@[simp] theorem set_stage_core (s : Processor ι) (core : Core) (stage : Stage) :
    (setStage s core stage).core = core := rfl

@[simp] theorem set_stage_here (s : Processor ι) (core : Core) (stage : Stage) :
    (setStage s core stage).stage s.cur = stage :=
  Function.update_self _ _ _

theorem set_stage_other (s : Processor ι) (core : Core) (stage : Stage) (t : ι) (other : t ≠ s.cur) :
    (setStage s core stage).stage t = s.stage t :=
  Function.update_of_ne other _ _

def forgeFor (s : Processor ι) (t : ι) (words : List Nat) (origin : Origin) (stage : Stage) : Processor ι :=
  let forged := withMachines s (forge k.threads t words origin (machines s))
  { forged with stage := Function.update s.stage t stage }

def switchProcessor (s : Processor ι) (next : ι) : Processor ι :=
  let s := writeEsp0 k (k.top next) s
  withMachines s (switchTo (machines s) next)

inductive Runs : Processor ι → Processor ι → Prop
  | program (s : Processor ι) (core : Core) (mode : s.stage s.cur = .user)
      (step : UserStep k.tables k.base s.core core) :
      Runs s { s with core := core }
  | event (s : Processor ι) (entered : Core) (vector : Nat) (errorCode : Option Nat) (mode : s.stage s.cur = .user)
      (small : vector < 256) (agrees : errorCode.isSome = pushesErrorCode vector) (word : errorCode.getD 0 < 2 ^ 32)
      (done : enter k.tables k.handler k.back vector errorCode s.core = some entered) :
      Runs s (setStage s entered (.inside s.core vector (errorCode.getD 0)))
  | trap (s : Processor ι) (entered : Core) (vector : Nat) (mode : s.stage s.cur = .user) (small : vector < 256)
      (done : raise k.tables k.handler k.back vector s.core = some entered) :
        Runs s (setStage s entered (.inside s.core vector 0))
  | work (s : Processor ι) (core : Core) (mode : InKernelCode s) (step : KernelWork k s core) :
      Runs s { s with core := core }
  | threadCreate (s : Processor ι) (t : ι) (entry arg thread : Nat) (mode : InKernelCode s) (other : t ≠ s.cur)
      (page : k.threads.low t + 0x1000 = k.threads.high t) (small : ∀ w ∈ [entry, arg, thread], w < 2 ^ 32) :
      Runs s (forgeFor k s t (threadWords k.sym entry arg thread) (.threadCreate entry arg thread) .kernel)
  | setupKerenlStack (s : Processor ι) (t : ι) (entry userEsp : Nat) (mode : InKernelCode s) (other : t ≠ s.cur)
      (page : k.threads.low t + 0x1000 = k.threads.high t) (own : k.top t = k.threads.high t)
      (small : ∀ w ∈ [entry, userEsp], w < 2 ^ 32) :
      Runs s
        (forgeFor k s t (processWords k.sym entry userEsp) (.setupKerenlStack entry userEsp) (.forged entry userEsp))
  | switch (s : Processor ι) (next : ι) (mode : InKernelCode s)
      (calls : Calls k.threads (machines (writeEsp0 k (k.top next) s)) next)
      (below : s.core.cpu.reg .esp + 12 ≤ k.threads.high s.cur - (s.stage s.cur).held)
      (known : (waits (machines (writeEsp0 k (k.top next) s)) next).isSome) : Runs s (switchProcessor k s next)
  | launch (s : Processor ι) (final : Core) (entry userEsp : Nat) (mode : s.stage s.cur = .forged entry userEsp)
      (done : s.core.run k.tables launchProcess = some final) : Runs s (setStage s final .user)
  -- `interrupt_handler` has returned, and the wrapper goes back to the program.
  | leave (s : Processor ι) (final program : Core) (vector errorCode : Nat)
      (mode : s.stage s.cur = .inside program vector errorCode)
      (returned : s.core.cpu.reg .esp + 4 = k.threads.high s.cur - 64)
        (done : s.core.run k.tables isrReturn = some final) :
      Runs s (setStage s final .user)

end Steps

structure BootThread {ι : Type} (k : Setup ι) (s : Processor ι) : Prop where
  alone : ∀ t, s.stage t = .kernel ∧ s.waiting t = none
  ready : Ready k.tables k.stub s.core.cpu.mem
  cs : s.core.sel .cs = 0x08
  ss : s.core.sel .ss = 0x10
  notNested : s.core.eflags.getLsbD nestedTask = false

end X86OS.Interrupts
