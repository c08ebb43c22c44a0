import X86OS.Lib.Descriptors
import X86OS.Lib.Machine

set_option autoImplicit false

namespace X86OS.Machine

open Mem

inductive Seg
  | cs | ss | ds | es | fs | gs
deriving DecidableEq

-- A processor in protected mode: the registers and the memory, the flags and the selectors.
structure Core where
  cpu : Cpu
  eflags : BitVec 32
  sel : Seg → BitVec 16

def rpl (selector : BitVec 16) : Nat := selector.toNat % 4

def Core.cpl (core : Core) : Nat := rpl (core.sel .cs)

def interruptFlag : Nat := 9
def directionFlag : Nat := 10
def nestedTask : Nat := 14
def virtual8086 : Nat := 17

-- Trap, interrupt, nested task, resume and virtual-8086 flag.
def clearedByGate : BitVec 32 := 0x34300

-- What `lidt`, `lgdt` and `ltr` left in the processor.
structure Tables where
  idt : Nat
  gdt : Nat
  gdtLimit : Nat
  tss : Nat

def null (selector : BitVec 16) : Bool := selector.toNat / 4 = 0

-- There is no local table; a selector into it finds nothing.
def Tables.entry (t : Tables) (mem : Mem) (selector : BitVec 16) : Option Descriptor :=
  if null selector ∨ selector.getLsbD 2 ∨ t.gdtLimit < selector.toNat / 8 * 8 + 7 then none
  else some (descriptorAt mem (t.gdt + 8 * (selector.toNat / 8)))

def Tables.dataLoads (t : Tables) (mem : Mem) (cpl : Nat) (selector : BitVec 16) : Bool :=
  null selector || (t.entry mem selector).any (fun d => d.holdsData cpl (rpl selector))

def Tables.stackLoads (t : Tables) (mem : Mem) (level : Nat) (selector : BitVec 16) : Bool :=
  (t.entry mem selector).any (fun d => d.holdsStack level (rpl selector))

def Tables.codeLoads (t : Tables) (mem : Mem) (selector : BitVec 16) : Bool :=
  (t.entry mem selector).any (fun d => d.holdsCode (rpl selector))

-- Whether `mov` may bring the selector to the segment register.
def Tables.takes (t : Tables) (mem : Mem) (cpl : Nat) (selector : BitVec 16) : Seg → Bool
  | .cs => false
  | .ss => t.stackLoads mem cpl selector
  | .ds | .es | .fs | .gs => t.dataLoads mem cpl selector

-- The memory once the processor has taken the descriptor of the selector.
def Tables.marked (t : Tables) (selector : BitVec 16) (mem : Mem) : Mem :=
  if null selector then mem else setAccessed (t.gdt + 8 * (selector.toNat / 8)) mem

def Core.load (t : Tables) (s : Seg) (selector : BitVec 16) (core : Core) : Core :=
  { core with
    cpu := { core.cpu with mem := t.marked selector core.cpu.mem }
    sel := Function.update core.sel s selector }

-- The stack that the task state segment has for a level.
def Core.innerStack (t : Tables) (level : Nat) (core : Core) : Option Core :=
  let esp := readWord core.cpu.mem (t.tss + 8 * level + 4)
  let ss := BitVec.ofNat 16 (readWord core.cpu.mem (t.tss + 8 * level + 8))
  if t.stackLoads core.cpu.mem level ss then some (Core.load t .ss ss { core with cpu := core.cpu.set .esp esp })
  else none

def Core.pushAll (core : Core) (values : List Nat) : Core := { core with cpu := values.foldl Cpu.push core.cpu }

def returnWords (core : Core) (errorCode : Option Nat) : List Nat :=
  [core.eflags.toNat, (core.sel .cs).toNat, core.cpu.eip] ++ errorCode.toList

def outerWords (core : Core) : List Nat := [(core.sel .ss).toNat, core.cpu.reg .esp]

-- Through the gate of the vector, with an error code if the event has one. `none` is a fault.
def Core.deliver (t : Tables) (vector : Nat) (errorCode : Option Nat) (core : Core) : Option Core :=
  let gate := gateAt core.cpu.mem (t.idt + 8 * vector)
  (t.entry core.cpu.mem (BitVec.ofNat 16 gate.selector)).bind fun target =>
    if gate.present ∧ gate.kind = interruptGate ∧ target.present ∧ target.plain ∧ target.code ∧
      target.dpl ≤ core.cpl then
      let level := if target.conforming then core.cpl else target.dpl
      let entered (stacked : Core) (words : List Nat) : Core :=
        let loaded := stacked.load t .cs (BitVec.ofNat 16 (gate.selector / 4 * 4 + level))
        let pushed := loaded.pushAll (words ++ returnWords core errorCode)
        { pushed with cpu := { pushed.cpu with eip := gate.offset }, eflags := core.eflags &&& ~~~clearedByGate }
      if level < core.cpl then (core.innerStack t level).map (fun inner => entered inner (outerWords core))
      else some (entered core [])
    else none

-- `int n` also asks for the privilege of the gate.
def Core.software (t : Tables) (vector : Nat) (core : Core) : Option Core :=
  if core.cpl ≤ (gateAt core.cpu.mem (t.idt + 8 * vector)).dpl then core.deliver t vector none else none

-- A data selector that the outer level may not hold is replaced by the null selector.
def Tables.cleaned (t : Tables) (mem : Mem) (level : Nat) (selector : BitVec 16) : BitVec 16 :=
  if (t.entry mem selector).any (fun d => decide (d.dpl < level) && !d.conforming) then 0 else selector

def dataSegments : List Seg := [.ds, .es, .fs, .gs]

-- `iret` in ring 0, without returns to another task or to virtual-8086 mode.
def Core.iret (t : Tables) (core : Core) : Option Core :=
  let mem := core.cpu.mem
  let esp := core.cpu.reg .esp
  let cs := BitVec.ofNat 16 (readWord mem (esp + 4))
  let eflags := BitVec.ofNat 32 (readWord mem (esp + 8))
  if core.cpl = 0 ∧ ¬ core.eflags.getLsbD nestedTask ∧ ¬ eflags.getLsbD virtual8086 ∧ t.codeLoads mem cs then
    if rpl cs = 0 then
      some { cpu := { core.cpu.set .esp (Word.add esp 12) with eip := readWord mem esp, mem := t.marked cs mem }
             eflags := eflags
             sel := Function.update core.sel .cs cs }
    else
      let ss := BitVec.ofNat 16 (readWord mem (esp + 16))
      if t.stackLoads mem (rpl cs) ss then
        some { cpu := { core.cpu.set .esp (readWord mem (esp + 12)) with
                 eip := readWord mem esp
                 mem := t.marked ss (t.marked cs mem) }
               eflags := eflags
               sel := fun s => if s = .cs then cs else if s = .ss then ss else t.cleaned mem (rpl cs) (core.sel s) }
      else none
  else none

inductive Op
  | instr (i : Instr)
  | pushImm (value : Nat)
  | push (source : Reg)
  | pop (dest : Reg)
  | movImm (dest : Reg) (value : Nat)
  | addEsp (n : Nat)
  | call (target back : Nat)
  -- mov ax, imm and mov ax, segment
  | axImm (value : Nat)
  | axSeg (s : Seg)
  -- mov segment, ax
  | segAx (s : Seg)
  | cld
  | iret

def Cpu.setAx (cpu : Cpu) (half : Nat) : Cpu := cpu.set .eax (cpu.reg .eax / 2 ^ 16 * 2 ^ 16 + half)

def Core.exec (t : Tables) (core : Core) : Op → Option Core
  | .instr i => some { core with cpu := core.cpu.exec i }
  | .pushImm value => some { core with cpu := core.cpu.push value }
  | .push source => some { core with cpu := core.cpu.push (core.cpu.reg source) }
  | .pop dest => some { core with cpu := core.cpu.pop (some dest) }
  | .movImm dest value => some { core with cpu := core.cpu.set dest value }
  | .addEsp n => some { core with cpu := core.cpu.set .esp (Word.add (core.cpu.reg .esp) n) }
  | .call target back => some { core with cpu := { core.cpu.push back with eip := target } }
  | .axImm value => some { core with cpu := core.cpu.setAx value }
  | .axSeg s => some { core with cpu := core.cpu.setAx (core.sel s).toNat }
  | .segAx s =>
      let selector := BitVec.ofNat 16 (core.cpu.reg .eax)
      if t.takes core.cpu.mem core.cpl selector s then some (core.load t s selector) else none
  | .cld => some { core with eflags := core.eflags &&& ~~~(1#32 <<< directionFlag) }
  | .iret => core.iret t

def Core.run (t : Tables) (core : Core) (code : List Op) : Option Core :=
  code.foldlM (fun core op => core.exec t op) core

@[simp] theorem run_nil (t : Tables) (core : Core) : core.run t [] = some core := rfl

theorem run_cons (t : Tables) (core : Core) (op : Op) (code : List Op) :
    core.run t (op :: code) = (core.exec t op).bind (fun next => next.run t code) := rfl

theorem run_append (t : Tables) (core : Core) (first second : List Op) :
    core.run t (first ++ second) = (core.run t first).bind (fun next => next.run t second) := by
  simp only [Core.run, List.foldlM_append]
  rfl

def TableByte (t : Tables) (x : Nat) : Prop := t.gdt ≤ x ∧ x ≤ t.gdt + t.gdtLimit

def AccessByte (t : Tables) (x : Nat) : Prop := ∃ i, 8 * i + 7 ≤ t.gdtLimit ∧ x = t.gdt + 8 * i + 5

theorem access_table_byte {t : Tables} {x : Nat} (access : AccessByte t x) : TableByte t x := by
  obtain ⟨i, inside, rfl⟩ := access
  exact ⟨by omega, by omega⟩

-- The bytes of `P` are as they were, but for the bits that the processor sets in the descriptors.
structure Keeps (t : Tables) (P : Nat → Prop) (mem mem' : Mem) : Prop where
  bytes : ∀ x, P x → ¬ AccessByte t x → mem' x = mem x
  segments : SameSegments t.gdt t.gdtLimit mem mem'

-- What loads of segment registers do to the memory.
abbrev Marks (t : Tables) (mem mem' : Mem) : Prop := Keeps t (fun _ => True) mem mem'

section Keeps

variable {t : Tables} {P Q : Nat → Prop} {mem mem' mem'' : Mem}

theorem keeps_refl : Keeps t P mem mem := ⟨fun _ _ _ => rfl, fun _ _ => rfl⟩

theorem keeps_trans (first : Keeps t P mem mem') (second : Keeps t P mem' mem'') : Keeps t P mem mem'' :=
  ⟨fun x inside free => (second.bytes x inside free).trans (first.bytes x inside free),
    same_segments_trans first.segments second.segments⟩

theorem keeps_mono (keeps : Keeps t P mem mem') (fewer : ∀ x, Q x → P x) : Keeps t Q mem mem' :=
  ⟨fun x inside => keeps.bytes x (fewer x inside), keeps.segments⟩

theorem keeps_bytes (same : ∀ x, P x ∨ TableByte t x → mem' x = mem x) : Keeps t P mem mem' :=
  ⟨fun x inside _ => same x (.inl inside), same_segments_bytes (fun x low high => same x (.inr ⟨low, high⟩))⟩

theorem entry_same (same : SameSegments t.gdt t.gdtLimit mem mem') (selector : BitVec 16) :
    (t.entry mem' selector).map Descriptor.unmarked = (t.entry mem selector).map Descriptor.unmarked := by
  simp only [Tables.entry]
  split
  · rfl
  next found => exact congrArg some (same _ (by omega))

theorem any_same (same : SameSegments t.gdt t.gdtLimit mem mem') (selector : BitVec 16) (p : Descriptor → Bool)
    (blind : ∀ d : Descriptor, p d.unmarked = p d) : (t.entry mem' selector).any p = (t.entry mem selector).any p := by
  rw [Descriptor.any_unmarked p blind, entry_same same, ← Descriptor.any_unmarked p blind]

theorem data_loads_same (same : SameSegments t.gdt t.gdtLimit mem mem') (cpl : Nat) (selector : BitVec 16) :
    t.dataLoads mem' cpl selector = t.dataLoads mem cpl selector := by
  rw [Tables.dataLoads, Tables.dataLoads, any_same same selector _ (by simp)]

theorem stack_loads_same (same : SameSegments t.gdt t.gdtLimit mem mem') (level : Nat) (selector : BitVec 16) :
    t.stackLoads mem' level selector = t.stackLoads mem level selector := any_same same selector _ (by simp)

theorem entry_plain (selector : BitVec 16) (p : Descriptor → Bool) (found : (t.entry mem selector).any p)
    (plain : ∀ d, p d = true → d.plain = true) :
    8 * (selector.toNat / 8) + 7 ≤ t.gdtLimit ∧ (descriptorAt mem (t.gdt + 8 * (selector.toNat / 8))).plain = true := by
  rw [Tables.entry] at found
  split at found
  · cases found
  next inside => exact ⟨by omega, plain _ found⟩

theorem marked_keeps (selector : BitVec 16)
    (plain : null selector = false → 8 * (selector.toNat / 8) + 7 ≤ t.gdtLimit ∧
      (descriptorAt mem (t.gdt + 8 * (selector.toNat / 8))).plain = true) : Marks t mem (t.marked selector mem) := by
  rw [Tables.marked]
  split
  · exact keeps_refl
  next found =>
    obtain ⟨inside, here⟩ := plain (by simpa using found)
    refine ⟨fun x _ free => write_byte_frame _ _ _ _ ?_, set_accessed_segments _ here⟩
    rintro rfl
    exact free ⟨_, inside, rfl⟩

theorem data_marks (cpl : Nat) (selector : BitVec 16) (loads : t.dataLoads mem cpl selector) :
    Marks t mem (t.marked selector mem) := by
  refine marked_keeps selector (fun notNull => ?_)
  rw [Tables.dataLoads, notNull, Bool.false_or] at loads
  exact entry_plain selector _ loads
    (fun d holds => by simp only [Descriptor.holdsData, Bool.and_eq_true] at holds; exact holds.1.1.2)

theorem stack_marks (level : Nat) (selector : BitVec 16) (loads : t.stackLoads mem level selector) :
    Marks t mem (t.marked selector mem) := by
  refine marked_keeps selector (fun _ => ?_)
  exact entry_plain selector _ loads
    (fun d holds => by simp only [Descriptor.holdsStack, Bool.and_eq_true] at holds; exact holds.1.1.1.2)

theorem code_marks (selector : BitVec 16) (loads : t.codeLoads mem selector) : Marks t mem (t.marked selector mem) := by
  refine marked_keeps selector (fun _ => ?_)
  exact entry_plain selector _ loads
    (fun d holds => by simp only [Descriptor.holdsCode, Bool.and_eq_true] at holds; exact holds.1.1.2)

end Keeps

theorem load_segments (t : Tables) (core : Core) (segs : List Seg) (data : ∀ s ∈ segs, s ∈ dataSegments)
    (loads : t.dataLoads core.cpu.mem core.cpl (BitVec.ofNat 16 (core.cpu.reg .eax))) :
    ∃ mem, Marks t core.cpu.mem mem ∧ core.run t (segs.map Op.segAx) =
      some { core with
        cpu := { core.cpu with mem := mem }
        sel := fun s => if s ∈ segs then BitVec.ofNat 16 (core.cpu.reg .eax) else core.sel s } := by
  induction segs generalizing core with
  | nil => exact ⟨core.cpu.mem, keeps_refl, by simp⟩
  | cons seg segs ih =>
      have here := data seg List.mem_cons_self
      have takes : t.takes core.cpu.mem core.cpl (BitVec.ofNat 16 (core.cpu.reg .eax)) seg = true := by
        cases seg with
        | cs => exact absurd here (by decide)
        | ss => exact absurd here (by decide)
        | ds => exact loads
        | es => exact loads
        | fs => exact loads
        | gs => exact loads
      have notCode : Seg.cs ≠ seg := by
        rintro rfl
        exact absurd here (by decide)
      let next := core.load t seg (BitVec.ofNat 16 (core.cpu.reg .eax))
      have level : next.cpl = core.cpl := by simp only [Core.cpl, next, Core.load, Function.update_of_ne notCode]
      have marks : Marks t core.cpu.mem next.cpu.mem := data_marks core.cpl _ loads
      have again : t.dataLoads next.cpu.mem next.cpl (BitVec.ofNat 16 (next.cpu.reg .eax)) := by
        rw [level, data_loads_same marks.segments]
        exact loads
      obtain ⟨mem, rest, runs⟩ := ih next (fun s member => data s (List.mem_cons_of_mem _ member)) again
      refine ⟨mem, keeps_trans marks rest, ?_⟩
      rw [List.map_cons, run_cons, Core.exec, if_pos takes, Option.bind_some, runs]
      simp only [Option.some.injEq, Core.mk.injEq, next, Core.load, true_and]
      funext s
      by_cases same : s = seg
      · simp [same]
      · simp [same]

-- The words pushed from `cpu` to `cpu'`, clear of the table, with segment registers loaded in between.
structure Stored (t : Tables) (values : List Nat) (cpu cpu' : Cpu) : Prop where
  room : 4 * values.length ≤ cpu.reg .esp
  esp : cpu'.reg .esp = cpu.reg .esp - 4 * values.length
  words : Holds cpu'.mem (cpu.reg .esp - 4 * values.length) values.reverse
  keeps : Keeps t (fun x => x < cpu.reg .esp - 4 * values.length ∨ cpu.reg .esp ≤ x) cpu.mem cpu'.mem
  clear : ∀ x, cpu.reg .esp - 4 * values.length ≤ x → x < cpu.reg .esp → ¬ TableByte t x

theorem stored_pushed (t : Tables) (values : List Nat) (cpu cpu' : Cpu) (pushed : Pushed values cpu cpu')
    (clear : ∀ x, cpu.reg .esp - 4 * values.length ≤ x → x < cpu.reg .esp → ¬ TableByte t x) :
    Stored t values cpu cpu' := by
  refine ⟨pushed.room, pushed.esp, pushed.words, keeps_bytes (fun x special => pushed.frame x ?_), clear⟩
  rcases special with outside | table
  · exact outside
  · by_contra within
    exact clear x (by omega) (by omega) table

theorem stored_marks (t : Tables) (cpu cpu' : Cpu) (esp : cpu'.reg .esp = cpu.reg .esp)
    (marks : Marks t cpu.mem cpu'.mem) :
    Stored t [] cpu cpu' :=
  ⟨Nat.zero_le _, esp, trivial, keeps_mono marks (fun _ _ => trivial),
    fun _ low high => absurd high (Nat.not_lt.mpr low)⟩

theorem stored_append (t : Tables) (values values' : List Nat) (cpu cpu' cpu'' : Cpu) (first : Stored t values cpu cpu')
    (second : Stored t values' cpu' cpu'') : Stored t (values ++ values') cpu cpu'' := by
  have room := first.room
  have room' := second.room
  have esp := first.esp
  have lower : cpu.reg .esp - 4 * (values ++ values').length = cpu'.reg .esp - 4 * values'.length := by
    rw [List.length_append]
    omega
  have upper : cpu'.reg .esp - 4 * values'.length + 4 * values'.reverse.length = cpu.reg .esp - 4 * values.length := by
    rw [List.length_reverse]
    omega
  refine ⟨?_, ?_, ?_, ?_, ?_⟩
  · rw [List.length_append]
    omega
  · rw [lower, second.esp]
  · rw [lower, List.reverse_append, holds_append, upper]
    refine ⟨second.words,
      holds_congr _ _ _ _ (fun x low high => second.keeps.bytes x (by omega) (fun access => ?_)) first.words⟩
    rw [List.length_reverse] at high
    exact first.clear x low (by omega) (access_table_byte access)
  · rw [lower]
    exact keeps_trans (keeps_mono first.keeps (fun x outside => by omega))
      (keeps_mono second.keeps (fun x outside => by omega))
  · rw [lower]
    intro x low high
    by_cases below : x < cpu'.reg .esp
    · exact second.clear x low below
    · exact first.clear x (by omega) high

-- A return to `eip` and `esp` that changes no other register.
structure Lands (t : Tables) (eip esp : Nat) (eflags : BitVec 32) (sel : Seg → BitVec 16)
    (core final : Core) : Prop where
  eip : final.cpu.eip = eip
  esp : final.cpu.reg .esp = esp
  registers : ∀ r, r ≠ .esp → final.cpu.reg r = core.cpu.reg r
  mem : Marks t core.cpu.mem final.cpu.mem
  eflags : final.eflags = eflags
  sel : final.sel = sel

section Iret

variable (t : Tables) (core : Core) (eip : Nat) (cs : BitVec 16) (eflags : BitVec 32) (level : core.cpl = 0)
  (notNested : core.eflags.getLsbD nestedTask = false) (notVirtual : eflags.getLsbD virtual8086 = false)
  (code : t.codeLoads core.cpu.mem cs)
include level notNested notVirtual code

theorem iret_same_level (inner : rpl cs = 0)
    (words : Holds core.cpu.mem (core.cpu.reg .esp) [eip, cs.toNat, eflags.toNat])
    (room : core.cpu.reg .esp + 12 < 2 ^ 32) :
    ∃ final, core.iret t = some final ∧
      Lands t eip (core.cpu.reg .esp + 12) eflags (Function.update core.sel .cs cs) core final := by
  obtain ⟨eipWord, csWord, flagsWord, -⟩ := words
  have selector : BitVec.ofNat 16 (readWord core.cpu.mem (core.cpu.reg .esp + 4)) = cs := by
    rw [csWord, BitVec.ofNat_toNat, BitVec.setWidth_eq]
  have flags : BitVec.ofNat 32 (readWord core.cpu.mem (core.cpu.reg .esp + 8)) = eflags := by
    rw [show core.cpu.reg .esp + 8 = core.cpu.reg .esp + 4 + 4 from rfl, flagsWord, BitVec.ofNat_toNat,
      BitVec.setWidth_eq]
  simp only [Core.iret, selector, flags, level, notNested, notVirtual, code, inner, Bool.false_eq_true,
    not_false_eq_true, and_self, if_true]
  refine ⟨_, rfl, eipWord, ?_, fun r other => Cpu.set_other _ _ _ _ other, code_marks cs code, rfl, rfl⟩
  change (core.cpu.set .esp _).reg .esp = _
  rw [Cpu.set_here, Word.add_exact _ _ room]
  exact Nat.mod_eq_of_lt room

theorem iret_outer_level (esp : Nat) (ss : BitVec 16) (outer : rpl cs ≠ 0)
    (stack : t.stackLoads core.cpu.mem (rpl cs) ss)
    (words : Holds core.cpu.mem (core.cpu.reg .esp) [eip, cs.toNat, eflags.toNat, esp, ss.toNat])
    (small : esp < 2 ^ 32) :
    ∃ final, core.iret t = some final ∧ Lands t eip esp eflags
      (fun s => if s = .cs then cs else if s = .ss then ss
        else t.cleaned core.cpu.mem (rpl cs) (core.sel s)) core final := by
  obtain ⟨eipWord, csWord, flagsWord, espWord, ssWord, -⟩ := words
  simp only [Nat.add_assoc, Nat.reduceAdd] at flagsWord espWord ssWord
  have selector : BitVec.ofNat 16 (readWord core.cpu.mem (core.cpu.reg .esp + 4)) = cs := by
    rw [csWord, BitVec.ofNat_toNat, BitVec.setWidth_eq]
  have flags : BitVec.ofNat 32 (readWord core.cpu.mem (core.cpu.reg .esp + 8)) = eflags := by
    rw [flagsWord, BitVec.ofNat_toNat, BitVec.setWidth_eq]
  have stackSelector : BitVec.ofNat 16 (readWord core.cpu.mem (core.cpu.reg .esp + 16)) = ss := by
    rw [ssWord, BitVec.ofNat_toNat, BitVec.setWidth_eq]
  have codeMarks := code_marks cs code
  have stackMarks : Marks t (t.marked cs core.cpu.mem) (t.marked ss (t.marked cs core.cpu.mem)) := by
    refine stack_marks (rpl cs) ss ?_
    rw [stack_loads_same codeMarks.segments]
    exact stack
  simp only [Core.iret, selector, flags, stackSelector, level, notNested, notVirtual, code, outer, stack,
    Bool.false_eq_true, not_false_eq_true, and_self, if_true, if_false]
  refine ⟨_, rfl, eipWord, ?_, fun r other => Cpu.set_other _ _ _ _ other, keeps_trans codeMarks stackMarks, rfl, rfl⟩
  change (core.cpu.set .esp _).reg .esp = _
  rw [Cpu.set_here, espWord]
  exact Nat.mod_eq_of_lt small

end Iret

end X86OS.Machine
