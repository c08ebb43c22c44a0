import X86OS.Interrupts.Privilege

set_option autoImplicit false

namespace X86OS.Interrupts

open Mem Machine

structure RegisterT where
  ds : Nat
  edi : Nat
  esi : Nat
  ebp : Nat
  esp : Nat
  ebx : Nat
  edx : Nat
  ecx : Nat
  eax : Nat
  interrupt : Nat
  errorCode : Nat
  eip : Nat
  cs : Nat
  eflags : Nat
  useresp : Nat
  ss : Nat
deriving DecidableEq, Repr

-- The structure at a pointer.
def registerT (mem : Mem) (p : Nat) : RegisterT where
  ds := readWord mem p
  edi := readWord mem (p + 4)
  esi := readWord mem (p + 8)
  ebp := readWord mem (p + 12)
  esp := readWord mem (p + 16)
  ebx := readWord mem (p + 20)
  edx := readWord mem (p + 24)
  ecx := readWord mem (p + 28)
  eax := readWord mem (p + 32)
  interrupt := readWord mem (p + 36)
  errorCode := readWord mem (p + 40)
  eip := readWord mem (p + 44)
  cs := readWord mem (p + 48)
  eflags := readWord mem (p + 52)
  useresp := readWord mem (p + 56)
  ss := readWord mem (p + 60)

-- What is to be seen of an interrupted program. Without a change of stack the last two fields
-- are the words the kernel had on top of its stack.
def registersOf (t : Tables) (vector errorCode : Nat) (core : Core) : RegisterT where
  ds := dsWord core
  edi := core.cpu.reg .edi
  esi := core.cpu.reg .esi
  ebp := core.cpu.reg .ebp
  esp := stackTop t core - 4 * (outer core).length - 20
  ebx := core.cpu.reg .ebx
  edx := core.cpu.reg .edx
  ecx := core.cpu.reg .ecx
  eax := core.cpu.reg .eax
  interrupt := vector
  errorCode := errorCode
  eip := core.cpu.eip
  cs := (core.sel .cs).toNat
  eflags := core.eflags.toNat
  useresp := if core.cpl = 0 then readWord core.cpu.mem (core.cpu.reg .esp) else core.cpu.reg .esp
  ss := if core.cpl = 0 then readWord core.cpu.mem (core.cpu.reg .esp + 4) else (core.sel .ss).toNat

-- A C function that was called and has returned: its own frame and its argument are its to change, what its caller
-- has above them on the stack up to `top` is not.
structure CdeclReturn (t : Tables) (top : Nat) (called returned : Core) : Prop where
  esp : returned.cpu.reg .esp = called.cpu.reg .esp + 4
  sel : returned.sel = called.sel
  notNested : returned.eflags.getLsbD nestedTask = false
  tables : Keeps t (InTables t) called.cpu.mem returned.cpu.mem
  caller : ∀ x, called.cpu.reg .esp + 8 ≤ x → x < top → returned.cpu.mem x = called.cpu.mem x

section Transparent

variable {t : Tables} {stub : Nat → Nat} {core entered : Core} {handler back vector errorCode : Nat}

theorem entered_frame (done : HandlerCalled t handler back vector errorCode core entered) :
    Holds entered.cpu.mem (frameBase t core) (trapFrame t vector errorCode core) := by
  rw [← done.esp]
  exact ((holds_append _ _ _ _).mp done.words).2

theorem entered_registers {stub : Nat → Nat} (ready : Ready t stub core.cpu.mem) (clear : FrameClear t core)
    (done : HandlerCalled t handler back vector errorCode core entered)
    (room : 4 * frameLength core ≤ stackTop t core) :
    registerT entered.cpu.mem (readWord entered.cpu.mem (entered.cpu.reg .esp + 4)) =
      registersOf t vector errorCode core := by
  obtain ⟨-, pointer, -⟩ := done.words
  have frame := entered_frame done
  obtain ⟨inner, last⟩ := (holds_append _ _ [_, _, _, _, _, _, _, _, _, _, _, _, _, _] _).mp frame
  obtain ⟨ds, edi, esi, ebp, esp, ebx, edx, ecx, eax, interrupt, code, eip, cs, eflags, -⟩ := inner
  simp only [Nat.add_assoc, Nat.reduceAdd] at edi esi ebp esp ebx edx ecx eax interrupt code eip cs eflags
  have outerTwo : readWord entered.cpu.mem (frameBase t core + 56) = (registersOf t vector errorCode core).useresp ∧
      readWord entered.cpu.mem (frameBase t core + 60) = (registersOf t vector errorCode core).ss := by
    simp only [registersOf]
    by_cases kernel : core.cpl = 0
    · have top : stackTop t core = core.cpu.reg .esp := if_pos kernel
      have whole : frameBase t core + 56 = core.cpu.reg .esp := by
        rw [frameBase, frameLength, outer, if_pos kernel, top]
        rw [frameLength, outer, if_pos kernel, top] at room
        simp only [List.length_nil] at room ⊢
        omega
      have above (x : Nat) (low : core.cpu.reg .esp ≤ x) (high : x < core.cpu.reg .esp + 8) :
          entered.cpu.mem x = core.cpu.mem x :=
        done.frame.bytes x (.inr (top.trans_le low))
          (fun access => frame_clear_table ready clear x (by omega) (by omega) (access_table_byte access))
      rw [if_pos kernel, if_pos kernel, show frameBase t core + 60 = frameBase t core + 56 + 4 from rfl, whole]
      exact ⟨read_word_congr _ _ _ (fun x low high => above x low (by omega)),
        read_word_congr _ _ _ (fun x low high => above x (by omega) (by omega))⟩
    · rw [outer, if_neg kernel] at last
      obtain ⟨useresp, ss, -⟩ := last
      rw [if_neg kernel, if_neg kernel]
      exact ⟨useresp, ss⟩
  rw [pointer, registerT, ds, edi, esi, ebp, esp, ebx, edx, ecx, eax, interrupt, code, eip, cs, eflags,
    outerTwo.1, outerTwo.2]
  rfl

theorem cdecl_returned (ready : Ready t stub core.cpu.mem)
    (done : HandlerCalled t handler back vector errorCode core entered) (room : 4 * frameLength core ≤ stackTop t core)
    (clear : FrameClear t core) (returned : Core) (cdecl : CdeclReturn t (stackTop t core) entered returned) :
    Returned t stub vector errorCode core returned where
  ready := by
    refine ready_keeps ready _ (keeps_trans (keeps_mono done.frame (fun x inside => ?_)) cdecl.tables)
    have low := done.esp
    obtain ⟨-, top64⟩ := frame_top room
    by_contra within
    exact clear x (by omega) (by omega) inside
  code := by
    rw [cdecl.sel, done.sel]
    rfl
  stack := by
    rw [cdecl.sel, done.sel]
    rfl
  notNested := cdecl.notNested
  esp := by rw [cdecl.esp, Nat.add_assoc, done.esp]
  words := by
    refine holds_congr _ _ _ _ (fun x low high => cdecl.caller x ?_ ?_) (entered_frame done)
    · rw [done.esp]
      exact low
    · rw [trap_frame_length, frameBase] at high
      omega

end Transparent

-- An interrupt, whatever handler serves it, is invisible to the program it hits, and the handler sees that program.
theorem interrupt_transparent (t : Tables) (stub : Nat → Nat) (core : Core) (ready : Ready t stub core.cpu.mem)
    (ok : Interruptible t core) (handler back vector : Nat) (errorCode : Option Nat) (small : vector < 256)
    (agrees : errorCode.isSome = pushesErrorCode vector) (words : errorCode.getD 0 < 2 ^ 32 ∧ back < 2 ^ 32)
    (room : 4 * (frameLength core + 2) ≤ stackTop t core) (clear : FrameClear t core) :
    ∃ entered, enter t handler back vector errorCode core = some entered ∧ entered.cpu.eip = handler ∧
      registerT entered.cpu.mem (readWord entered.cpu.mem (entered.cpu.reg .esp + 4)) =
        registersOf t vector (errorCode.getD 0) core ∧
      ∀ returned, CdeclReturn t (stackTop t core) entered returned →
        ∃ final, returned.run t isrReturn = some final ∧ Resumes core final ∧
          Marks t returned.cpu.mem final.cpu.mem := by
  obtain ⟨entered, enters, done⟩ :=
    enter_spec ready ok handler back vector small errorCode agrees words.1 words.2 room clear
  refine ⟨entered, enters, done.eip, entered_registers ready clear done (by omega), fun returned cdecl => ?_⟩
  exact leave_spec returned vector _ ready ok
    (cdecl_returned ready done (by omega) clear returned cdecl) (by omega) clear

theorem desk_interruptible : Interruptible deskTables deskCore where
  eip := by decide
  mode := .inr ⟨rfl, rfl⟩
  data := (ready_loads desk_ready).userData
  protectedMode := by decide

theorem desk_top : stackTop deskTables deskCore = 0x8000 := by
  rw [stackTop, if_neg (by decide)]
  exact desk_esp0

theorem interrupt_transparent_desk : ∃ entered, enter deskTables 0x9000 0x9100 0x20 none deskCore = some entered ∧
    entered.cpu.eip = 0x9000 ∧
    registerT entered.cpu.mem (readWord entered.cpu.mem (entered.cpu.reg .esp + 4)) =
      registersOf deskTables 0x20 0 deskCore ∧
    ∀ returned, CdeclReturn deskTables (stackTop deskTables deskCore) entered returned →
      ∃ final, returned.run deskTables isrReturn = some final ∧ Resumes deskCore final ∧
        Marks deskTables returned.cpu.mem final.cpu.mem := by
  refine interrupt_transparent deskTables _ deskCore desk_ready desk_interruptible 0x9000 0x9100 0x20 none
    (by decide) (by decide) (by decide) ?_ ?_
  · rw [desk_top]
    decide
  · intro x above below inside
    have base : frameBase deskTables deskCore = 0x7FC0 := by
      rw [frameBase, desk_top]
      rfl
    rw [base] at above below
    simp only [InTables, deskTables] at inside
    omega

end X86OS.Interrupts
