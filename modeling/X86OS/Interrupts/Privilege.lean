import X86OS.Interrupts.Return

set_option autoImplicit false

namespace X86OS.Interrupts

open Mem Machine

-- `init_gdt`, `init_idt` and `init_tss` in the order of the boot, with `isr_stub_table` at `table`.
def bootTables (t : Tables) (table : Nat) (mem : Mem) : Mem :=
  initTss t.gdt t.tss (initIdt t.idt table (initGdt t.gdt t.tss mem))

-- The objects are apart, and `lgdt` got the size of the table.
structure Placed (t : Tables) (table : Nat) : Prop extends Apart t where
  limit : t.gdtLimit = 8 * 6 - 1
  tableIdt : table + 4 * 256 ≤ t.idt ∨ t.idt + 8 * 256 ≤ table
  tableGdt : table + 4 * 256 ≤ t.gdt ∨ t.gdt + 8 * 6 ≤ table

theorem boot_ready (t : Tables) (table : Nat) (mem : Mem) (placed : Placed t table) :
    Ready t (fun vector => readWord mem (table + 4 * vector)) (bootTables t table mem) where
  apart := placed.toApart
  gates vector small := by
    have tssIdt := placed.tssIdt
    have gdtIdt := placed.gdtIdt
    have tableGdt := placed.tableGdt
    rw [sizeofTss] at tssIdt
    have stub : readWord (initGdt t.gdt t.tss mem) (table + 4 * vector) = readWord mem (table + 4 * vector) :=
      read_word_congr _ _ _ (fun x low high => init_gdt_frame t.gdt t.tss mem x (by omega))
    rw [bootTables, gate_congr (initIdt t.idt table (initGdt t.gdt t.tss mem)) _ _
      (fun x low high => init_tss_frame _ _ _ _ (by omega) (by omega)), init_idt_gate t.idt table placed.tableIdt _
        vector small, stub]
  segments := by
    have gdtIdt := placed.gdtIdt
    have filled : GdtReady t.gdt t.tss (initIdt t.idt table (initGdt t.gdt t.tss mem)) :=
      gdt_ready_same _ _ _ _ (init_gdt_ready t.gdt t.tss mem)
        (same_segments_bytes (fun x low high => init_idt_frame t.idt table placed.tableIdt _ x (by omega)))
    exact gdt_ready_same _ _ _ _ filled (init_tss_segments t.gdt t.tss _ filled placed.tssGdt)
  limit := placed.limit
  ss0 := by
    have tssGdt := placed.tssGdt
    rw [sizeofTss] at tssGdt
    rw [bootTables, initTss, setBusy, write_byte_elsewhere _ _ _ _ (by omega)]
    exact write_word_here _ _ _ (by decide)

theorem boot_tables_frame (t : Tables) (table : Nat) (mem : Mem) (placed : Placed t table) (x : Nat)
    (outside : ¬ InTables t x) :
    bootTables t table mem x = mem x := by
  simp only [InTables] at outside
  rw [bootTables, init_tss_frame _ _ _ _ (by omega) (by omega),
    init_idt_frame t.idt table placed.tableIdt _ x (by omega), init_gdt_frame t.gdt t.tss mem x (by omega)]

-- Ring 3 with the selectors that `launch_process` and `iret` leave.
structure UserMode (core : Core) : Prop where
  cs : core.sel .cs = 0x1B
  ss : core.sel .ss = 0x23

-- The kernel is entered in ring 0 at the stub of the vector, on the stack of the task state
-- segment, with interrupts off.
structure InKernel (t : Tables) (target words : Nat) (core entered : Core) : Prop where
  level : entered.cpl = 0
  eip : entered.cpu.eip = target
  ss : entered.sel .ss = 0x10
  esp : entered.cpu.reg .esp + 4 * words = readWord core.cpu.mem (t.tss + 4)
  interruptsOff : entered.eflags.getLsbD interruptFlag = false

section User

variable {t : Tables} {stub : Nat → Nat} {core : Core}

theorem user_deliver (ready : Ready t stub core.cpu.mem) (user : UserMode core) (vector : Nat) (small : vector < 256)
    (errorCode : Option Nat) (room : 24 ≤ readWord core.cpu.mem (t.tss + 4)) :
    ∃ entered, core.deliver t vector errorCode = some entered ∧
      InKernel t (stub vector) (5 + errorCode.toList.length) core entered := by
  have level : core.cpl ≠ 0 := by
    rw [Core.cpl, user.cs]
    decide
  have top : stackTop t core = readWord core.cpu.mem (t.tss + 4) := if_neg level
  have outerEq : outer core = outerWords core := if_neg level
  have mode : KernelOrUser core := .inr ⟨user.cs, user.ss⟩
  have count : (outer core ++ returnWords core errorCode).length = 5 + errorCode.toList.length := by
    simp only [outerEq, outerWords, returnWords, List.length_append, List.length_cons, List.length_nil]
    omega
  have few : errorCode.toList.length ≤ 1 := by
    cases errorCode with
    | none => exact Nat.zero_le 1
    | some code => exact le_refl 1
  obtain ⟨mem, -, delivers⟩ := deliver_spec ready mode vector small errorCode
  rw [delivers]
  refine ⟨_, rfl, ?_, rfl, ?_, ?_, ?_⟩
  · change rpl (Function.update (Function.update core.sel .ss (stackSelector core)) .cs 0x08 .cs) = 0
    rw [Function.update_self]
    rfl
  · change Function.update (Function.update core.sel .ss (stackSelector core)) .cs 0x08 .ss = 0x10
    rw [Function.update_of_ne (by decide), Function.update_self]
    exact if_neg level
  · let loaded : Cpu := { stacked t core with mem := mem }
    have loadedEsp : loaded.reg .esp = readWord core.cpu.mem (t.tss + 4) := stacked_esp.trans top
    have esp := pushes_esp loaded (outer core ++ returnWords core errorCode) (by rw [count, loadedEsp]; omega)
    rw [loadedEsp, count] at esp
    change (List.foldl Cpu.push loaded (outer core ++ returnWords core errorCode)).reg .esp + _ = _
    omega
  · change (core.eflags &&& ~~~clearedByGate).getLsbD interruptFlag = false
    rw [BitVec.getLsbD_and, BitVec.getLsbD_not]
    simp [clearedByGate, interruptFlag]

end User

-- A user program can raise one vector itself; whatever is delivered to it lands at the stub of its vector.
theorem user_enters_kernel (t : Tables) (table : Nat) (mem : Mem) (placed : Placed t table) (core : Core)
    (user : UserMode core) (kept : Keeps t (InTables t) (bootTables t table mem) core.cpu.mem)
    (room : 24 ≤ readWord core.cpu.mem (t.tss + 4)) (vector : Nat) (small : vector < 256) :
    ((core.software t vector).isSome ↔ vector = 0x80) ∧
      (∀ entered, core.software t vector = some entered →
        InKernel t (readWord mem (table + 4 * vector)) 5 core entered) ∧
      ∀ errorCode, ∃ entered, core.deliver t vector errorCode = some entered ∧
        InKernel t (readWord mem (table + 4 * vector)) (5 + errorCode.toList.length) core entered := by
  have ready := ready_keeps (boot_ready t table mem placed) core.cpu.mem kept
  have level : core.cpl = 3 := by
    rw [Core.cpl, user.cs]
    rfl
  have delivers (errorCode : Option Nat) := user_deliver ready user vector small errorCode room
  obtain ⟨entered, delivered, inKernel⟩ := delivers none
  have raised : core.software t vector = if vector = 0x80 then some entered else none := by
    rw [Core.software, level, ready.gates vector small, delivered]
    by_cases syscall : vector = 0x80
    · simp [syscall]
    · simp [syscall]
  refine ⟨?_, ?_, delivers⟩
  · rw [raised]
    by_cases syscall : vector = 0x80
    · simp [syscall]
    · simp [syscall]
  · intro entered' same
    rw [raised] at same
    by_cases syscall : vector = 0x80
    · rw [if_pos syscall, Option.some.injEq] at same
      rw [← same]
      exact inKernel
    · rw [if_neg syscall] at same
      cases same

-- A machine with the tables at small addresses and `esp0` at 0x8000.
def deskTables : Tables := ⟨0x1000, 0x2000, 47, 0x3000⟩

theorem desk_placed : Placed deskTables 0x4000 where
  gdtIdt := by decide
  tssIdt := by decide
  tssGdt := by decide
  limit := by decide
  tableIdt := by decide
  tableGdt := by decide

def deskMemory : Mem := bootTables deskTables 0x4000 (writeWord (fun _ => 0) 0x3004 0x8000)

theorem desk_ready :
    Ready deskTables (fun vector => readWord (writeWord (fun _ => 0) 0x3004 0x8000) (0x4000 + 4 * vector)) deskMemory :=
  boot_ready deskTables 0x4000 _ desk_placed

theorem desk_esp0 : readWord deskMemory (deskTables.tss + 4) = 0x8000 := by
  rw [deskMemory, read_word_congr (writeWord (fun _ => 0) 0x3004 0x8000) _ _ (fun x low high =>
    boot_tables_frame deskTables 0x4000 _ desk_placed x (by simp only [InTables, deskTables] at low high ⊢; omega))]
  exact write_word_here _ _ _ (by decide)

-- A program in ring 3 at 0x100 with its stack at 0x7000.
def deskCore : Core where
  cpu := { reg := fun r => if r = .esp then 0x7000 else if r = .eax then 0xBEEF0001 else 5
           eip := 0x100
           mem := deskMemory
           small := by
            intro r
            cases r <;> decide }
  eflags := 0x202
  sel s := if s = .cs then 0x1B else 0x23

theorem user_enters_kernel_desk :
    (deskCore.software deskTables 0x80).isSome ∧ ¬ (deskCore.software deskTables 0x81).isSome := by
  have rule (vector : Nat) := user_enters_kernel deskTables 0x4000 _ desk_placed deskCore ⟨rfl, rfl⟩ keeps_refl
    (by rw [show readWord deskCore.cpu.mem (deskTables.tss + 4) = 0x8000 from desk_esp0]; decide) vector
  exact ⟨(rule 0x80 (by decide)).1.mpr rfl, fun raised => absurd ((rule 0x81 (by decide)).1.mp raised) (by decide)⟩

end X86OS.Interrupts
