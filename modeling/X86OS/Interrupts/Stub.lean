import X86OS.Interrupts.Tables
import X86OS.Lib.Protected

set_option autoImplicit false

namespace X86OS.Interrupts

open Mem Machine

-- The vectors whose stub is an `isr_err_stub`.
def pushesErrorCode (vector : Nat) : Bool := vector ∈ [8, 10, 11, 12, 13, 14, 17, 21]

def isrStub (vector : Nat) : List Op :=
  if pushesErrorCode vector then [.pushImm vector] else [.pushImm 0, .pushImm vector]

-- `isr_wrapper` up to the call of `interrupt_handler`, which returns to `back`, and from there on.
def isrWrapper (handler back : Nat) : List Op :=
  [Op.cld, Op.instr .pusha, Op.axSeg .ds, Op.push .eax, Op.axImm 0x10] ++ dataSegments.map Op.segAx ++
    [Op.push .esp, Op.call handler back]

def isrReturn : List Op :=
  [Op.addEsp 4, Op.pop .eax] ++ dataSegments.map Op.segAx ++ [Op.instr .popa, Op.addEsp 8, Op.iret]

-- An interrupt up to the first instruction of `interrupt_handler`.
def enter (t : Tables) (handler back vector : Nat) (errorCode : Option Nat) (core : Core) : Option Core :=
  (core.deliver t vector errorCode).bind (fun entered => entered.run t (isrStub vector ++ isrWrapper handler back))

-- The tables share no byte.
structure Apart (t : Tables) : Prop where
  gdtIdt : t.gdt + 8 * 6 ≤ t.idt ∨ t.idt + 8 * 256 ≤ t.gdt
  tssIdt : t.tss + sizeofTss ≤ t.idt ∨ t.idt + 8 * 256 ≤ t.tss
  tssGdt : t.tss + sizeofTss ≤ t.gdt ∨ t.gdt + 8 * 6 ≤ t.tss

-- The tables as the kernel sets them up; `stub` is what `isr_stub_table` holds.
structure Ready (t : Tables) (stub : Nat → Nat) (mem : Mem) : Prop where
  apart : Apart t
  gates : ∀ vector, vector < 256 →
    gateAt mem (t.idt + 8 * vector) = ⟨stub vector, 0x08, interruptGate, if vector = 0x80 then 3 else 0, true⟩
  segments : GdtReady t.gdt t.tss mem
  limit : t.gdtLimit = 8 * 6 - 1
  ss0 : readWord mem (t.tss + 8) = 0x10

def kernelCode : Descriptor := ⟨0, 0xFFFFF, 0b10011010, 0b1100⟩
def kernelData : Descriptor := ⟨0, 0xFFFFF, 0b10010010, 0b1100⟩
def userCode : Descriptor := ⟨0, 0xFFFFF, 0b11111010, 0b1100⟩
def userData : Descriptor := ⟨0, 0xFFFFF, 0b11110010, 0b1100⟩

-- The bytes of the three tables.
def InTables (t : Tables) (x : Nat) : Prop :=
  (t.idt ≤ x ∧ x < t.idt + 8 * 256) ∨ (t.gdt ≤ x ∧ x < t.gdt + 8 * 6) ∨ (t.tss + 8 ≤ x ∧ x < t.tss + 12)

section Ready

variable {t : Tables} {stub : Nat → Nat} {mem : Mem}

theorem access_in_gdt (ready : Ready t stub mem) (x : Nat) (access : AccessByte t x) :
    t.gdt ≤ x ∧ x < t.gdt + 8 * 6 := by
  obtain ⟨low, high⟩ := access_table_byte access
  have limit := ready.limit
  exact ⟨low, by omega⟩

theorem tss_unmarked (ready : Ready t stub mem) (x : Nat) (low : t.tss ≤ x) (high : x < t.tss + sizeofTss) :
    ¬ AccessByte t x := by
  intro access
  have range := access_in_gdt ready x access
  have apart := ready.apart.tssGdt
  omega

theorem ready_keeps (ready : Ready t stub mem) (mem' : Mem) (keeps : Keeps t (InTables t) mem mem') :
    Ready t stub mem' where
  apart := ready.apart
  gates vector small := by
    rw [← ready.gates vector small]
    refine gate_congr _ _ _ (fun x low high => keeps.bytes x (.inl (by omega)) (fun access => ?_))
    have range := access_in_gdt ready x access
    have apart := ready.apart.gdtIdt
    omega
  segments := gdt_ready_same t.gdt t.tss mem mem' ready.segments (ready.limit ▸ keeps.segments)
  limit := ready.limit
  ss0 := by
    rw [← ready.ss0]
    refine read_word_congr _ _ _
      (fun x low high => keeps.bytes x (.inr (.inr (by omega))) (tss_unmarked ready x (by omega) ?_))
    rw [sizeofTss]
    omega

theorem ready_congr (ready : Ready t stub mem) (mem' : Mem) (same : ∀ x, InTables t x → mem' x = mem x) :
    Ready t stub mem' := by
  refine ready_keeps ready mem' (keeps_bytes (fun x special => same x ?_))
  rcases special with inside | ⟨low, high⟩
  · exact inside
  · have limit := ready.limit
    exact .inr (.inl (by omega))

theorem ready_segments {mem' : Mem} (ready : Ready t stub mem) (ready' : Ready t stub mem') :
    SameSegments t.gdt t.gdtLimit mem mem' := by
  intro i inside
  have limit := ready.limit
  obtain ⟨s, member, rfl⟩ : ∃ s ∈ Interrupts.segments t.tss, s.idx = i := by
    have small : i < 6 := by omega
    interval_cases i <;> simp [Interrupts.segments]
  rw [ready'.segments s member, ready.segments s member]

theorem ready_entries (ready : Ready t stub mem) : (t.entry mem 0x08).map Descriptor.unmarked = some kernelCode ∧
    (t.entry mem 0x10).map Descriptor.unmarked = some kernelData ∧
    (t.entry mem 0x1B).map Descriptor.unmarked = some userCode ∧
    (t.entry mem 0x23).map Descriptor.unmarked = some userData := by
  have limit := ready.limit
  have segment := ready.segments
  simp only [GdtReady, Interrupts.segments, List.forall_mem_cons] at segment
  obtain ⟨-, code, data, code', data', -⟩ := segment
  refine ⟨?_, ?_, ?_, ?_⟩
  · simp only [Tables.entry, limit]
    exact congrArg some code
  · simp only [Tables.entry, limit]
    exact congrArg some data
  · simp only [Tables.entry, limit]
    exact congrArg some code'
  · simp only [Tables.entry, limit]
    exact congrArg some data'

-- What the kernel and its processes load.
structure Loads (t : Tables) (mem : Mem) : Prop where
  kernelCode : t.codeLoads mem 0x08
  userCode : t.codeLoads mem 0x1B
  kernelStack : t.stackLoads mem 0 0x10
  userStack : t.stackLoads mem 3 0x23
  kernelData : t.dataLoads mem 0 0x10
  userData : t.dataLoads mem 3 0x23

theorem ready_loads (ready : Ready t stub mem) : Loads t mem := by
  obtain ⟨code, data, code', data'⟩ := ready_entries ready
  constructor
  · rw [Tables.codeLoads, Descriptor.any_unmarked _ (by simp), code]
    rfl
  · rw [Tables.codeLoads, Descriptor.any_unmarked _ (by simp), code']
    rfl
  · rw [Tables.stackLoads, Descriptor.any_unmarked _ (by simp), data]
    rfl
  · rw [Tables.stackLoads, Descriptor.any_unmarked _ (by simp), data']
    rfl
  · rw [Tables.dataLoads, Descriptor.any_unmarked _ (by simp), data]
    rfl
  · rw [Tables.dataLoads, Descriptor.any_unmarked _ (by simp), data']
    rfl

end Ready

-- Where the processor starts to push: the stack it is on in ring 0, else the one of the task state segment.
def stackTop (t : Tables) (core : Core) : Nat :=
  if core.cpl = 0 then core.cpu.reg .esp else readWord core.cpu.mem (t.tss + 4)

def stacked (t : Tables) (core : Core) : Cpu :=
  if core.cpl = 0 then core.cpu else core.cpu.set .esp (readWord core.cpu.mem (t.tss + 4))

def KernelOrUser (core : Core) : Prop := core.sel .cs = 0x08 ∨ core.sel .cs = 0x1B ∧ core.sel .ss = 0x23

-- A state of the kernel or of a user program, as far as an interrupt looks at it.
structure Interruptible (t : Tables) (core : Core) : Prop where
  eip : core.cpu.eip < 2 ^ 32
  mode : KernelOrUser core
  data : t.dataLoads core.cpu.mem core.cpl (core.sel .ds)
  protectedMode : core.eflags.getLsbD virtual8086 = false

def outer (core : Core) : List Nat := if core.cpl = 0 then [] else outerWords core

def stackSelector (core : Core) : BitVec 16 := if core.cpl = 0 then core.sel .ss else 0x10

section Entry

variable {t : Tables} {stub : Nat → Nat} {core : Core}

theorem stacked_esp : (stacked t core).reg .esp = stackTop t core := by
  rw [stacked, stackTop]
  split
  · rfl
  · rw [Cpu.set_here]
    exact Nat.mod_eq_of_lt (read_word_lt _ _)

theorem stacked_mem : (stacked t core).mem = core.cpu.mem := by
  rw [stacked]
  split <;> rfl

theorem stacked_other (r : Reg) (other : r ≠ .esp) : (stacked t core).reg r = core.cpu.reg r := by
  rw [stacked]
  split
  · rfl
  · exact Cpu.set_other _ _ _ _ other

theorem stack_top_lt : stackTop t core < 2 ^ 32 := by
  rw [← stacked_esp]
  exact (stacked t core).small .esp

theorem levels (mode : KernelOrUser core) :
    core.cpl = 0 ∧ core.sel .cs = 0x08 ∨ core.cpl = 3 ∧ core.sel .cs = 0x1B ∧ core.sel .ss = 0x23 := by
  rcases mode with kernel | user
  · left
    exact ⟨by rw [Core.cpl, kernel]; rfl, kernel⟩
  · right
    exact ⟨by rw [Core.cpl, user.1]; rfl, user⟩

theorem deliver_spec (ready : Ready t stub core.cpu.mem) (mode : KernelOrUser core) (vector : Nat)
    (small : vector < 256) (errorCode : Option Nat) :
    ∃ mem, Marks t core.cpu.mem mem ∧ core.deliver t vector errorCode =
      some { cpu := { (outer core ++ returnWords core errorCode).foldl Cpu.push
        { stacked t core with mem := mem } with eip := stub vector }
             eflags := core.eflags &&& ~~~clearedByGate
             sel := Function.update (Function.update core.sel .ss (stackSelector core)) .cs 0x08 } := by
  have loads := ready_loads ready
  obtain ⟨target, found, code⟩ := Option.map_eq_some_iff.mp (ready_entries ready).1
  have gate := ready.gates vector small
  have present : target.present = true := by rw [← Descriptor.unmarked_present, code]; rfl
  have plain : target.plain = true := by rw [← Descriptor.unmarked_plain, code]; rfl
  have isCode : target.code = true := by rw [← Descriptor.unmarked_code, code]; rfl
  have conforming : target.conforming = false := by rw [← Descriptor.unmarked_conforming, code]; rfl
  have dpl : target.dpl = 0 := by rw [← Descriptor.unmarked_dpl, code]; rfl
  simp only [Core.deliver, gate]
  rw [show BitVec.ofNat 16 0x08 = 0x08 from rfl, found, Option.bind_some]
  simp only [present, plain, isCode, conforming, dpl, Nat.zero_le, and_self, if_true, Bool.false_eq_true,
    if_false, Nat.reduceDiv, Nat.reduceMul, Nat.add_zero]
  rcases levels mode with ⟨level, -⟩ | ⟨level, -⟩
  · have same : Function.update core.sel .ss (core.sel .ss) = core.sel := Function.update_eq_self _ _
    refine ⟨t.marked 0x08 core.cpu.mem, code_marks 0x08 loads.kernelCode, ?_⟩
    simp only [level, outer, stacked, stackSelector, if_true, List.nil_append, Core.pushAll, Core.load, same]
    rfl
  · have inner : core.innerStack t 0 = some (Core.load t .ss 0x10 { core with
        cpu := core.cpu.set .esp (readWord core.cpu.mem (t.tss + 4)) }) := by
      simp only [Core.innerStack, Nat.mul_zero, Nat.add_zero, ready.ss0]
      exact if_pos loads.kernelStack
    have stackMarks := stack_marks 0 0x10 loads.kernelStack
    have codeMarks : Marks t (t.marked 0x10 core.cpu.mem) (t.marked 0x08 (t.marked 0x10 core.cpu.mem)) :=
      code_marks 0x08 (ready_loads (ready_keeps ready _ (keeps_mono stackMarks (fun _ _ => trivial)))).kernelCode
    refine ⟨_, keeps_trans stackMarks codeMarks, ?_⟩
    simp only [level, inner, Nat.zero_lt_succ, if_true, Option.map_some]
    simp only [level, outer, stacked, stackSelector, Core.pushAll, Core.load]
    rfl

def stubWords (vector : Nat) : List Nat := if pushesErrorCode vector then [vector] else [0, vector]

theorem stub_run (vector : Nat) : core.run t (isrStub vector) = some (core.pushAll (stubWords vector)) := by
  rw [isrStub, stubWords]
  split <;> rfl

-- The processor's error code, or the stub's 0 in its place, and the vector.
theorem error_code_words (vector : Nat) (errorCode : Option Nat) (agrees : errorCode.isSome = pushesErrorCode vector) :
    errorCode.toList ++ stubWords vector = [errorCode.getD 0, vector] := by
  rw [stubWords, ← agrees]
  cases errorCode with
  | none => rfl
  | some code => rfl

theorem set_ax_spec (cpu : Cpu) (half : Nat) (small : half < 2 ^ 16) :
    (cpu.setAx half).reg .eax = cpu.reg .eax / 2 ^ 16 * 2 ^ 16 + half ∧
    (∀ r, r ≠ .eax → (cpu.setAx half).reg r = cpu.reg r) ∧ (cpu.setAx half).mem = cpu.mem := by
  have bound := cpu.small .eax
  refine ⟨?_, fun r other => Cpu.set_other _ _ _ _ other, rfl⟩
  rw [Cpu.setAx, Cpu.set_here]
  exact Nat.mod_eq_of_lt (by omega)

-- The word `push eax` leaves for `ds`: the upper half is still that of `eax`.
def dsWord (core : Core) : Nat := core.cpu.reg .eax / 2 ^ 16 * 2 ^ 16 + (core.sel .ds).toNat

def savedRegisters (core : Core) : List Nat := [.eax, .ecx, .edx, .ebx, .esp, .ebp, .esi, .edi].map core.cpu.reg

theorem wrapper_spec (handler back : Nat) (level : core.cpl = 0) (room : 44 ≤ core.cpu.reg .esp)
    (address : back < 2 ^ 32) (clear : ∀ x, core.cpu.reg .esp - 44 ≤ x → x < core.cpu.reg .esp → ¬ TableByte t x)
    (loads : t.dataLoads core.cpu.mem 0 0x10) :
    ∃ cpu : Cpu, core.run t (isrWrapper handler back) =
        some ⟨{ cpu with eip := handler }, core.eflags &&& ~~~(1#32 <<< directionFlag), fun s =>
          if s ∈ dataSegments then 0x10 else core.sel s⟩ ∧
      Stored t (savedRegisters core ++ [dsWord core, core.cpu.reg .esp - 36, back]) core.cpu cpu := by
  have selector := (core.sel .ds).isLt
  let saved := core.cpu.exec .pusha
  let marked := saved.setAx (core.sel .ds).toNat
  let stored := marked.push (marked.reg .eax)
  let loaded := stored.setAx 0x10
  obtain ⟨savedWords, savedOther⟩ := pusha_pushed core.cpu (by omega)
  have savedEsp : saved.reg .esp = core.cpu.reg .esp - 32 := savedWords.esp
  obtain ⟨markedEax, markedOther, markedMem⟩ := set_ax_spec saved _ selector
  have markedEsp : marked.reg .esp = core.cpu.reg .esp - 32 := (markedOther .esp (by decide)).trans savedEsp
  have markedWord : marked.reg .eax = dsWord core := by
    rw [markedEax, savedOther .eax (by decide)]
    rfl
  have storedWords := push_spec marked (marked.reg .eax) (by omega) (marked.small .eax)
  have storedEsp : stored.reg .esp = core.cpu.reg .esp - 36 := by
    rw [storedWords.esp, markedEsp, List.length_singleton]
    omega
  obtain ⟨loadedEax, loadedOther, loadedMem⟩ := set_ax_spec stored 0x10 (by decide)
  have loadedEsp : loaded.reg .esp = core.cpu.reg .esp - 36 := (loadedOther .esp (by decide)).trans storedEsp
  have first : Stored t (savedRegisters core ++ [dsWord core]) core.cpu loaded := by
    have words := pushed_append _ _ _ _ _ savedWords
      (pushed_append _ _ _ _ _ (pushed_nil saved marked (markedOther .esp (by decide)) markedMem)
      (pushed_append _ _ _ _ _ storedWords (pushed_nil stored loaded (loadedOther .esp (by decide)) loadedMem)))
    rw [markedWord] at words
    refine stored_pushed t _ _ _ words (fun x low high => clear x (le_trans ?_ low) high)
    exact Nat.sub_le_sub_left (by decide : 36 ≤ 44) _
  have half : BitVec.ofNat 16 (loaded.reg .eax) = 0x10 := by
    rw [loadedEax]
    apply BitVec.eq_of_toNat_eq
    rw [BitVec.toNat_ofNat, Nat.mul_add_mod_self_right]
    rfl
  let before : Core := ⟨loaded, core.eflags &&& ~~~(1#32 <<< directionFlag), core.sel⟩
  obtain ⟨mem, marks, segments⟩ := load_segments t before dataSegments (fun s member => member) (by
    rw [show BitVec.ofNat 16 (before.cpu.reg .eax) = 0x10 from half, show before.cpl = 0 from level]
    rw [data_loads_same first.keeps.segments]
    exact loads)
  let selected : Cpu := { loaded with mem := mem }
  have selectedEsp : selected.reg .esp = core.cpu.reg .esp - 36 := loadedEsp
  let pointed := selected.push (selected.reg .esp)
  have pointedWords := push_spec selected (selected.reg .esp) (by omega) (selected.small .esp)
  have pointedEsp : pointed.reg .esp = core.cpu.reg .esp - 40 := by
    rw [pointedWords.esp, selectedEsp, List.length_singleton]
    omega
  have backWords := push_spec pointed back (by omega) address
  have second : Stored t [core.cpu.reg .esp - 36, back] selected (pointed.push back) := by
    have words := pushed_append _ _ _ _ _ pointedWords backWords
    rw [selectedEsp] at words
    refine stored_pushed t _ _ _ words (fun x low high => clear x ?_ (by omega))
    simp only [selectedEsp, List.length_cons, List.length_nil] at low
    omega
  refine ⟨pointed.push back, ?_, ?_⟩
  · have start : core.run t [.cld, .instr .pusha, .axSeg .ds, .push .eax, .axImm 0x10] = some before := by
      simp only [run_cons, Core.exec, Option.bind_some, run_nil, before, loaded, stored, marked, saved]
    rw [isrWrapper, run_append, run_append, start, Option.bind_some, segments, Option.bind_some,
      show BitVec.ofNat 16 (before.cpu.reg .eax) = 0x10 from half]
    simp only [run_cons, Core.exec, Option.bind_some, run_nil, before, pointed, selected]
  · have all :=
      stored_append t _ _ _ _ _ first (stored_append t _ _ _ _ _ (stored_marks t loaded selected rfl marks) second)
    rw [List.nil_append, List.append_assoc] at all
    exact all

-- A `register_t`, with the two words that are only there after a change of stack.
def frameLength (core : Core) : Nat := 14 + (outer core).length

def frameBase (t : Tables) (core : Core) : Nat := stackTop t core - 4 * frameLength core

-- Neither the `register_t` nor the two words below it, which the call of the handler takes, are part of the tables.
def FrameClear (t : Tables) (core : Core) : Prop :=
  ∀ x, frameBase t core - 8 ≤ x → x < frameBase t core + 64 → ¬ InTables t x

theorem frame_top (room : 4 * frameLength core ≤ stackTop t core) :
    frameBase t core + 4 * frameLength core = stackTop t core ∧ stackTop t core ≤ frameBase t core + 64 := by
  have few : (outer core).length ≤ 2 := by
    rw [outer]
    split
    · exact Nat.zero_le 2
    · exact le_refl 2
  rw [frameBase]
  rw [frameLength] at room ⊢
  omega

theorem frame_clear_table {mem : Mem} (ready : Ready t stub mem) (clear : FrameClear t core) (x : Nat)
    (low : frameBase t core - 8 ≤ x) (high : x < frameBase t core + 64) : ¬ TableByte t x := by
  rintro ⟨above, below⟩
  have limit := ready.limit
  exact clear x low high (.inr (.inl (by omega)))

def trapFrame (t : Tables) (vector errorCode : Nat) (core : Core) : List Nat :=
  [dsWord core, core.cpu.reg .edi, core.cpu.reg .esi, core.cpu.reg .ebp, stackTop t core - 4 * (outer core).length - 20,
    core.cpu.reg .ebx, core.cpu.reg .edx, core.cpu.reg .ecx, core.cpu.reg .eax, vector, errorCode, core.cpu.eip,
    (core.sel .cs).toNat, core.eflags.toNat] ++ (outer core).reverse

theorem trap_frame_length (vector errorCode : Nat) : (trapFrame t vector errorCode core).length = frameLength core := by
  rw [trapFrame, List.length_append, List.length_reverse]
  rfl

def handlerFlags (core : Core) : BitVec 32 := core.eflags &&& ~~~clearedByGate &&& ~~~(1#32 <<< directionFlag)

def handlerSelectors (core : Core) : Seg → BitVec 16
  | .cs => 0x08
  | .ss => stackSelector core
  | .ds | .es | .fs | .gs => 0x10

-- `interrupt_handler` at its first instruction, called with a pointer to the frame.
structure HandlerCalled (t : Tables) (handler back vector errorCode : Nat) (core entered : Core) : Prop where
  esp : entered.cpu.reg .esp + 8 = frameBase t core
  words : Holds entered.cpu.mem (entered.cpu.reg .esp) ([back, frameBase t core] ++ trapFrame t vector errorCode core)
  frame : Keeps t (fun x => x < entered.cpu.reg .esp ∨ stackTop t core ≤ x) core.cpu.mem entered.cpu.mem
  eip : entered.cpu.eip = handler
  eflags : entered.eflags = handlerFlags core
  sel : entered.sel = handlerSelectors core

theorem outer_small (v : Nat) (member : v ∈ outer core) : v < 2 ^ 32 := by
  rw [outer] at member
  split at member
  · cases member
  · simp only [outerWords, List.mem_cons, List.not_mem_nil, or_false] at member
    rcases member with rfl | rfl
    · exact lt_trans (core.sel .ss).isLt (by decide)
    · exact core.cpu.small .esp

-- What the processor and the stub push.
def stubFrame (core : Core) (vector errorCode : Nat) : List Nat :=
  outer core ++ [core.eflags.toNat, (core.sel .cs).toNat, core.cpu.eip, errorCode, vector]

theorem stub_spec (ready : Ready t stub core.cpu.mem) (ok : Interruptible t core) (vector : Nat) (small : vector < 256)
    (errorCode : Option Nat) (agrees : errorCode.isSome = pushesErrorCode vector) (word : errorCode.getD 0 < 2 ^ 32)
    (room : 4 * (5 + (outer core).length) ≤ stackTop t core)
    (clear : ∀ x, stackTop t core - 4 * (5 + (outer core).length) ≤ x → x < stackTop t core → ¬ TableByte t x) :
    ∃ stubbed : Core,
      (core.deliver t vector errorCode).bind (fun entered => entered.run t (isrStub vector)) = some stubbed ∧
      Stored t (stubFrame core vector (errorCode.getD 0)) (stacked t core) stubbed.cpu ∧
      (∀ r, r ≠ .esp → stubbed.cpu.reg r = core.cpu.reg r) ∧ stubbed.eflags = core.eflags &&& ~~~clearedByGate ∧
      stubbed.sel = Function.update (Function.update core.sel .ss (stackSelector core)) .cs 0x08 := by
  have order :
      (outer core ++ returnWords core errorCode) ++ stubWords vector = stubFrame core vector (errorCode.getD 0) := by
    simp only [returnWords, List.append_assoc, error_code_words vector errorCode agrees]
    rfl
  have count :
      (outer core ++ returnWords core errorCode).length + (stubWords vector).length = (outer core).length + 5 := by
    rw [← List.length_append, order, stubFrame, List.length_append]
    rfl
  have bounds : ∀ v ∈ stubFrame core vector (errorCode.getD 0), v < 2 ^ 32 := by
    refine List.forall_mem_append.mpr ⟨fun v member => outer_small v member, ?_⟩
    simp only [List.forall_mem_cons, List.not_mem_nil, false_implies, implies_true, and_true]
    exact ⟨core.eflags.isLt, lt_trans (core.sel .cs).isLt (by decide), ok.eip, word, by omega⟩
  rw [← order] at bounds
  obtain ⟨firstSmall, lastSmall⟩ := List.forall_mem_append.mp bounds
  obtain ⟨mem, marks, delivers⟩ := deliver_spec ready ok.mode vector small errorCode
  rw [delivers, Option.bind_some, stub_run]
  let loaded : Cpu := { stacked t core with mem := mem }
  have loadedEsp : loaded.reg .esp = stackTop t core := stacked_esp
  refine ⟨_, rfl, ?_, ?_, rfl, rfl⟩
  · have first := pushes_spec loaded (outer core ++ returnWords core errorCode) (by omega) firstSmall
    let delivered : Cpu := { (outer core ++ returnWords core errorCode).foldl Cpu.push loaded with eip := stub vector }
    have deliveredEsp :
        delivered.reg .esp = stackTop t core - 4 * (outer core ++ returnWords core errorCode).length := by
      rw [← loadedEsp]
      exact first.esp
    have deliveredWords : Pushed (outer core ++ returnWords core errorCode) loaded delivered :=
      ⟨first.room, first.esp, first.words, first.frame⟩
    have words := pushed_append _ _ _ _ _ deliveredWords (pushes_spec delivered _ (by omega) lastSmall)
    rw [order] at words
    have start := stored_marks t (stacked t core) loaded rfl (stacked_mem.symm ▸ marks)
    have pushed := stored_pushed t _ _ _ words (fun x low high => clear x (by
      rw [← order, List.length_append, count] at low
      omega) (by omega))
    exact stored_append t [] _ _ _ _ start pushed
  · intro r other
    refine (Cpu.pushes_other _ _ r other).trans ?_
    exact (Cpu.pushes_other _ _ r other).trans (stacked_other r other)

theorem enter_spec (ready : Ready t stub core.cpu.mem) (ok : Interruptible t core) (handler back vector : Nat)
    (small : vector < 256) (errorCode : Option Nat) (agrees : errorCode.isSome = pushesErrorCode vector)
    (word : errorCode.getD 0 < 2 ^ 32) (address : back < 2 ^ 32) (room : 4 * (frameLength core + 2) ≤ stackTop t core)
    (clear : FrameClear t core) :
    ∃ entered, enter t handler back vector errorCode core = some entered ∧
      HandlerCalled t handler back vector (errorCode.getD 0) core entered := by
  obtain ⟨whole, top64⟩ := @frame_top t core (by omega)
  have table (x : Nat) (low : stackTop t core - 4 * (14 + (outer core).length + 2) ≤ x) (high : x < stackTop t core) :
      ¬ TableByte t x := by
    rw [frameLength] at whole
    exact frame_clear_table ready clear x (by omega) (by omega)
  rw [frameLength] at room
  obtain ⟨stubbed, run, words, registers, eflags, sel⟩ :=
    stub_spec ready ok vector small errorCode agrees word (by omega)
    (fun x low high => table x (by omega) high)
  have top := @stacked_esp t core
  have count : (stubFrame core vector (errorCode.getD 0)).length = (outer core).length + 5 := List.length_append
  have esp := words.esp
  rw [top, count] at esp
  have level : stubbed.cpl = 0 := by
    rw [Core.cpl, sel, Function.update_self]
    rfl
  have loads : t.dataLoads stubbed.cpu.mem 0 0x10 := by
    rw [data_loads_same words.keeps.segments, stacked_mem]
    exact (ready_loads ready).kernelData
  obtain ⟨cpu, wrapperRun, wrapped⟩ := @wrapper_spec t stubbed handler back level (by omega) address
    (fun x low high => table x (by omega) (by omega)) loads
  have saved : savedRegisters stubbed = [core.cpu.reg .eax, core.cpu.reg .ecx, core.cpu.reg .edx, core.cpu.reg .ebx,
      stackTop t core - 4 * (outer core).length - 20, core.cpu.reg .ebp, core.cpu.reg .esi, core.cpu.reg .edi] := by
    have lower : stackTop t core - 4 * ((outer core).length + 5) = stackTop t core - 4 * (outer core).length - 20 := by
      omega
    simp only [savedRegisters, List.map_cons, List.map_nil, registers _ (show Reg.eax ≠ .esp by decide),
      registers _ (show Reg.ecx ≠ .esp by decide), registers _ (show Reg.edx ≠ .esp by decide),
      registers _ (show Reg.ebx ≠ .esp by decide), registers _ (show Reg.ebp ≠ .esp by decide),
      registers _ (show Reg.esi ≠ .esp by decide), registers _ (show Reg.edi ≠ .esp by decide), esp, lower]
  have ds : dsWord stubbed = dsWord core := by
    rw [dsWord, dsWord, registers .eax (by decide), sel]
    rfl
  have pointer : stubbed.cpu.reg .esp - 36 = frameBase t core := by
    rw [esp, frameBase, frameLength]
    omega
  have all := stored_append t _ _ _ _ _ words wrapped
  rw [saved, ds, pointer] at all
  have low : cpu.reg .esp = stackTop t core - 4 * ((outer core).length + 16) := by
    rw [all.esp, top, List.length_append, count]
    rfl
  refine ⟨⟨{ cpu with eip := handler }, stubbed.eflags &&& ~~~(1#32 <<< directionFlag),
    fun s => if s ∈ dataSegments then 0x10 else stubbed.sel s⟩, ?_, ?_⟩
  · rw [enter]
    simp only [run_append]
    rw [← Option.bind_assoc, run, Option.bind_some]
    exact wrapperRun
  · have reversed :
        (stubFrame core vector (errorCode.getD 0) ++
          ([core.cpu.reg .eax, core.cpu.reg .ecx, core.cpu.reg .edx, core.cpu.reg .ebx,
            stackTop t core - 4 * (outer core).length - 20, core.cpu.reg .ebp, core.cpu.reg .esi, core.cpu.reg .edi] ++
            [dsWord core, frameBase t core, back])).reverse =
        [back, frameBase t core] ++ trapFrame t vector (errorCode.getD 0) core := by
      simp only [stubFrame, trapFrame, List.reverse_append, List.reverse_cons, List.reverse_nil,
        List.nil_append, List.cons_append, List.append_assoc]
    have holds := all.words
    have outside := all.keeps
    rw [← all.esp] at holds outside
    rw [reversed] at holds
    rw [top, stacked_mem] at outside
    refine ⟨?_, holds, outside, rfl, ?_, ?_⟩
    · change cpu.reg .esp + 8 = _
      rw [low, frameBase, frameLength]
      omega
    · change stubbed.eflags &&& _ = _
      rw [eflags]
      rfl
    · funext s
      change (if s ∈ dataSegments then 0x10 else stubbed.sel s) = _
      rw [sel]
      cases s <;> rfl

end Entry

end X86OS.Interrupts
