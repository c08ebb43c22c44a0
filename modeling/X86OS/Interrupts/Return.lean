import X86OS.Interrupts.Stub

set_option autoImplicit false

namespace X86OS.Interrupts

open Mem Machine

-- An interrupted program goes on where it was. The stub keeps one data selector for all four registers.
structure Resumes (core final : Core) : Prop where
  registers : final.cpu.reg = core.cpu.reg
  eip : final.cpu.eip = core.cpu.eip
  eflags : final.eflags = core.eflags
  code : final.sel .cs = core.sel .cs
  stack : final.sel .ss = core.sel .ss
  data : ∀ s ∈ dataSegments, final.sel s = core.sel .ds

-- `interrupt_handler` has returned to the wrapper, with its argument still on the stack.
structure Returned (t : Tables) (stub : Nat → Nat) (vector errorCode : Nat) (core returned : Core) : Prop where
  ready : Ready t stub returned.cpu.mem
  code : returned.sel .cs = 0x08
  stack : returned.sel .ss = stackSelector core
  notNested : returned.eflags.getLsbD nestedTask = false
  esp : returned.cpu.reg .esp + 4 = frameBase t core
  words : Holds returned.cpu.mem (frameBase t core) (trapFrame t vector errorCode core)

-- The wrapper is at its `iret`.
structure Unwound (t : Tables) (core returned unwound : Core) : Prop where
  run : returned.run t isrReturn = unwound.iret t
  marks : Marks t returned.cpu.mem unwound.cpu.mem
  esp : unwound.cpu.reg .esp = frameBase t core + 44
  registers : ∀ r, r ≠ .esp → unwound.cpu.reg r = core.cpu.reg r
  eflags : unwound.eflags = returned.eflags
  sel : unwound.sel = fun s => if s ∈ dataSegments then core.sel .ds else returned.sel s

section Return

variable {t : Tables} {stub : Nat → Nat} {core : Core} {mem mem' : Mem}

theorem data_loads_inner (level : Nat) (selector : BitVec 16) (loads : t.dataLoads mem level selector) :
    t.dataLoads mem 0 selector := by
  simp only [Tables.dataLoads, Descriptor.holdsData, Bool.or_eq_true, Option.any_eq_true, Bool.and_eq_true,
    decide_eq_true_eq] at loads ⊢
  rcases loads with isNull | ⟨d, found, usable, conforming | enough⟩
  · exact .inl isNull
  · exact .inr ⟨d, found, usable, .inl conforming⟩
  · exact .inr ⟨d, found, usable, .inr (by omega)⟩

theorem data_kept (level : Nat) (selector : BitVec 16) (loads : t.dataLoads mem level selector) :
    t.cleaned mem level selector = selector := by
  rw [Tables.cleaned, if_neg]
  simp only [Tables.dataLoads, Descriptor.holdsData, Bool.or_eq_true, Option.any_eq_true, Bool.and_eq_true,
    decide_eq_true_eq] at loads ⊢
  rintro ⟨d, found, low, notConforming⟩
  rcases loads with isNull | ⟨d', found', -, conforming | enough⟩
  · simp [Tables.entry, isNull] at found
  · rw [found] at found'
    cases found'
    rw [conforming] at notConforming
    cases notConforming
  · rw [found] at found'
    cases found'
    omega

theorem frame_marks (vector errorCode : Nat) (room : 4 * frameLength core ≤ stackTop t core)
    (clear : FrameClear t core) (ready : Ready t stub mem) (marks : Marks t mem mem')
    (words : Holds mem (frameBase t core) (trapFrame t vector errorCode core)) :
    Holds mem' (frameBase t core) (trapFrame t vector errorCode core) := by
  refine holds_congr _ _ _ _ (fun x low high => marks.bytes x trivial (fun access => ?_)) words
  obtain ⟨whole, top64⟩ := frame_top room
  rw [trap_frame_length] at high
  exact frame_clear_table ready clear x (by omega) (by omega) (access_table_byte access)

theorem unwind_spec (returned : Core) (vector errorCode : Nat) (ready : Ready t stub core.cpu.mem)
    (ok : Interruptible t core) (back : Returned t stub vector errorCode core returned)
    (room : 4 * frameLength core ≤ stackTop t core) (clear : FrameClear t core) :
    ∃ unwound, Unwound t core returned unwound := by
  have top := @stack_top_lt t core
  have esp := back.esp
  obtain ⟨dsWord, -⟩ := back.words
  have low : frameBase t core + 4 * 14 ≤ stackTop t core := by
    rw [frameBase]
    rw [frameLength] at room ⊢
    omega
  let bare := returned.cpu.set .esp (Word.add (returned.cpu.reg .esp) 4)
  have bareEsp : bare.reg .esp = frameBase t core := by
    rw [Cpu.set_here, Word.add_exact _ _ (by omega), esp]
    exact Nat.mod_eq_of_lt (by omega)
  let popped := bare.pop (some .eax)
  have poppedSpec := pop_spec bare .eax (by decide) (by omega)
  rw [bareEsp] at poppedSpec
  have eax : popped.reg .eax = readWord returned.cpu.mem (frameBase t core) := poppedSpec.1
  have poppedEsp : popped.reg .esp = frameBase t core + 4 := poppedSpec.2.1
  have poppedMem : popped.mem = returned.cpu.mem := rfl
  have selector : BitVec.ofNat 16 (popped.reg .eax) = core.sel .ds := by
    apply BitVec.eq_of_toNat_eq
    rw [eax, dsWord, BitVec.toNat_ofNat, Interrupts.dsWord, Nat.mul_add_mod_self_right]
    exact Nat.mod_eq_of_lt (core.sel .ds).isLt
  let before : Core := ⟨popped, returned.eflags, returned.sel⟩
  have start : returned.run t isrReturn = (before.run t (dataSegments.map Op.segAx)).bind
      (fun next => next.run t [.instr .popa, .addEsp 8, .iret]) := by
    rw [isrReturn, run_append, run_append]
    rfl
  clear_value popped
  have level : before.cpl = 0 := by
    rw [Core.cpl, back.code]
    rfl
  have loads : t.dataLoads before.cpu.mem before.cpl (BitVec.ofNat 16 (before.cpu.reg .eax)) := by
    rw [selector, level, poppedMem, data_loads_same (ready_segments ready back.ready)]
    exact data_loads_inner core.cpl (core.sel .ds) ok.data
  obtain ⟨mem, marks, segments⟩ := load_segments t before dataSegments (fun s member => member) loads
  rw [selector] at segments
  rw [show before.cpu.mem = returned.cpu.mem from poppedMem] at marks
  let selected : Cpu := { popped with mem := mem }
  have selectedEsp : selected.reg .esp = frameBase t core + 4 := poppedEsp
  obtain ⟨-, registers⟩ := frame_marks vector errorCode room clear back.ready marks back.words
  obtain ⟨restoredRegs, restoredEsp, restoredMem⟩ := popa_spec selected _ _ _ _ _ _ _ _ (by omega)
    (by rw [selectedEsp]; exact ((holds_append _ _ [_, _, _, _, _, _, _, _] _).mp registers).1)
  refine ⟨⟨(selected.exec .popa).set .esp (Word.add ((selected.exec .popa).reg .esp) 8), returned.eflags,
    fun s => if s ∈ dataSegments then core.sel .ds else returned.sel s⟩, ?_, ?_, ?_, ?_, rfl, rfl⟩
  · rw [start, segments, Option.bind_some]
    simp only [run_cons, Core.exec, Option.bind_some, run_nil, Option.bind_fun_some, before, selected]
  · simp only [Cpu.set_mem, restoredMem]
    exact marks
  · change ((selected.exec .popa).set .esp _).reg .esp = _
    rw [Cpu.set_here, restoredEsp, selectedEsp, Word.add_exact _ _ (by omega)]
    exact Nat.mod_eq_of_lt (by omega)
  · intro r other
    exact (Cpu.set_other _ _ _ _ other).trans (popped_registers _ core.cpu.reg restoredRegs r other)

theorem data_segment_apart (s : Seg) (member : s ∈ dataSegments) : s ≠ .cs ∧ s ≠ .ss := by
  constructor <;> rintro rfl <;> revert member <;> decide

section Leave

variable {returned unwound : Core} {vector errorCode : Nat} (ready : Ready t stub core.cpu.mem)
  (ok : Interruptible t core) (back : Returned t stub vector errorCode core returned)
  (room : 4 * frameLength core ≤ stackTop t core) (clear : FrameClear t core)
  (unwinds : Unwound t core returned unwound)
include back unwinds

theorem unwound_level : unwound.cpl = 0 := by
  rw [Core.cpl, unwinds.sel]
  change rpl (returned.sel .cs) = 0
  rw [back.code]
  rfl

theorem unwound_not_nested : unwound.eflags.getLsbD nestedTask = false := by rw [unwinds.eflags, back.notNested]

theorem unwound_ready : Ready t stub unwound.cpu.mem :=
  ready_keeps back.ready _ (keeps_mono unwinds.marks (fun _ _ => trivial))

include room clear in
theorem unwound_words : Holds unwound.cpu.mem (unwound.cpu.reg .esp)
    ([core.cpu.eip, (core.sel .cs).toNat, core.eflags.toNat] ++ (outer core).reverse) := by
  have words := ((holds_append _ _ [_, _, _, _, _, _, _, _, _, _, _] _).mp
    (frame_marks vector errorCode room clear back.ready unwinds.marks back.words)).2
  simp only [List.length_cons, List.length_nil] at words
  rw [unwinds.esp]
  exact words

omit back in
theorem unwound_data (s : Seg) (member : s ∈ dataSegments) : unwound.sel s = core.sel .ds := by
  rw [unwinds.sel]
  exact if_pos member

omit back in
theorem unwound_registers (final : Core) (other : ∀ r, r ≠ .esp → final.cpu.reg r = unwound.cpu.reg r)
    (same : final.cpu.reg .esp = core.cpu.reg .esp) : final.cpu.reg = core.cpu.reg := by
  funext r
  by_cases isEsp : r = .esp
  · rw [isEsp, same]
  · rw [other r isEsp, unwinds.registers r isEsp]

include ok room clear

theorem leave_kernel (kernel : core.cpl = 0) (code : core.sel .cs = 0x08) :
    ∃ final, unwound.iret t = some final ∧ Resumes core final ∧ Marks t returned.cpu.mem final.cpu.mem := by
  have noOuter : outer core = [] := if_pos kernel
  have topEq : stackTop t core = core.cpu.reg .esp := if_pos kernel
  have top := @stack_top_lt t core
  have esp := unwinds.esp
  have whole : frameBase t core + 56 = core.cpu.reg .esp := by
    rw [frameBase, frameLength, noOuter, topEq]
    rw [frameLength, noOuter, topEq] at room
    simp only [List.length_nil] at room ⊢
    omega
  have words := unwound_words back room clear unwinds
  rw [noOuter] at words
  obtain ⟨final, returns, lands⟩ :=
    iret_same_level t unwound core.cpu.eip (core.sel .cs) core.eflags (unwound_level back unwinds)
      (unwound_not_nested back unwinds) ok.protectedMode
      (by rw [code]; exact (ready_loads (unwound_ready back unwinds)).kernelCode) kernel words (by omega)
  refine ⟨final, returns, ⟨unwound_registers unwinds final lands.registers ?_, lands.eip, lands.eflags, ?_, ?_, ?_⟩,
    keeps_trans unwinds.marks lands.mem⟩
  · rw [lands.esp, esp, Nat.add_assoc, whole]
  · rw [lands.sel, Function.update_self]
  · rw [lands.sel, unwinds.sel]
    change returned.sel .ss = _
    rw [back.stack, stackSelector, if_pos kernel]
  · intro s member
    rw [lands.sel, Function.update_of_ne (data_segment_apart s member).1, unwound_data unwinds s member]

include ready in
theorem leave_user (user : core.cpl = 3) (code : core.sel .cs = 0x1B) (stack : core.sel .ss = 0x23) :
    ∃ final, unwound.iret t = some final ∧ Resumes core final ∧ Marks t returned.cpu.mem final.cpu.mem := by
  have outerEq : outer core = outerWords core := if_neg (by omega)
  have found := unwound_ready back unwinds
  have loads := ready_loads found
  have words := unwound_words back room clear unwinds
  rw [outerEq] at words
  obtain ⟨final, returns, lands⟩ :=
    iret_outer_level t unwound core.cpu.eip (core.sel .cs) core.eflags (unwound_level back unwinds)
      (unwound_not_nested back unwinds) ok.protectedMode (by rw [code]; exact loads.userCode) (core.cpu.reg .esp)
      (core.sel .ss) (by rw [code]; decide) (by rw [code, stack]; exact loads.userStack) words (core.cpu.small .esp)
  have held : t.dataLoads unwound.cpu.mem core.cpl (core.sel .ds) := by
    rw [data_loads_same (ready_segments ready found)]
    exact ok.data
  refine ⟨final, returns, ⟨unwound_registers unwinds final lands.registers lands.esp, lands.eip, lands.eflags, ?_, ?_,
    ?_⟩, keeps_trans unwinds.marks lands.mem⟩
  · rw [lands.sel]
    rfl
  · rw [lands.sel]
    rfl
  · intro s member
    obtain ⟨notCode, notStack⟩ := data_segment_apart s member
    rw [lands.sel]
    simp only [notCode, notStack, if_false]
    rw [unwound_data unwinds s member]
    exact data_kept core.cpl (core.sel .ds) held

end Leave

theorem leave_spec (returned : Core) (vector errorCode : Nat) (ready : Ready t stub core.cpu.mem)
    (ok : Interruptible t core) (back : Returned t stub vector errorCode core returned)
    (room : 4 * frameLength core ≤ stackTop t core) (clear : FrameClear t core) :
    ∃ final, returned.run t isrReturn = some final ∧ Resumes core final ∧ Marks t returned.cpu.mem final.cpu.mem := by
  obtain ⟨unwound, unwinds⟩ := unwind_spec returned vector errorCode ready ok back room clear
  rw [unwinds.run]
  rcases levels ok.mode with ⟨kernel, code⟩ | ⟨user, code, stack⟩
  · exact leave_kernel ok back room clear unwinds kernel code
  · exact leave_user ready ok back room clear unwinds user code stack

end Return

end X86OS.Interrupts
