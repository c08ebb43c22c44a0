import X86OS.Lib.Machine
import X86OS.Process.Building

set_option autoImplicit false

namespace X86OS.Process

open Mem Machine

def contextSwitch : List Instr :=
  [.load .ecx .esp 4, .load .edx .esp 8, .pusha, .store .ecx .esp, .load .esp .edx 0, .popa, .ret]

-- What `thread_create` and `setup_kerenl_stack` push on a new stack.
def threadWords (sym : Symbols) (entry arg thread : Nat) : List Nat :=
  [thread, arg, entry, 0, sym.kthreadStub] ++ zeroRegisters

def processWords (sym : Symbols) (entry userEsp : Nat) : List Nat :=
  [4 <<< 3 ||| 0 ||| 3, userEsp, 1 <<< 9, 3 <<< 3 ||| 0 ||| 3, entry, sym.launchProcess] ++ zeroRegisters

-- The stacks and the `esp` fields of the threads, which share no byte.
structure Threads (ι : Type) where
  slot : ι → Nat
  low : ι → Nat
  high : ι → Nat
  slotBound : ∀ t, slot t + 4 ≤ 2 ^ 32
  stackBound : ∀ t, high t ≤ 2 ^ 32
  slotsApart : ∀ t u, t ≠ u → slot t + 4 ≤ slot u ∨ slot u + 4 ≤ slot t
  stacksApart : ∀ t u, t ≠ u → high t ≤ low u ∨ high u ≤ low t
  slotOutside : ∀ t u, slot t + 4 ≤ low u ∨ high u ≤ slot t

-- How a thread that does not run came to wait.
inductive Origin
  -- It called `context_switch`; this is the processor at its first instruction.
  | suspended (caller : Cpu)
  | threadCreate (entry arg thread : Nat)
  | setupKerenlStack (entry userEsp : Nat)

structure Machines (ι : Type) where
  cpu : Cpu
  cur : ι
  waiting : ι → Option Origin

section Switching

variable {ι : Type} (threads : Threads ι) (sym : Symbols)

def OwnStack (t : ι) (x : Nat) : Prop := threads.low t ≤ x ∧ x < threads.high t

-- A call `context_switch(&cur->esp, &next->esp)` with its arguments and eight free words on the stack.
structure Calls (s : Machines ι) (next : ι) : Prop where
  room : threads.low s.cur + 32 ≤ s.cpu.reg .esp
  pushed : s.cpu.reg .esp + 12 ≤ threads.high s.cur
  old : readWord s.cpu.mem (s.cpu.reg .esp + 4) = threads.slot s.cur
  new : readWord s.cpu.mem (s.cpu.reg .esp + 8) = threads.slot next

-- Argument `n` of a cdecl function at its first instruction.
def argument (cpu : Cpu) (n : Nat) : Nat := readWord cpu.mem (cpu.reg .esp + 4 * (n + 1))

-- What `iret` to a lower privilege pops: eip, cs, eflags, esp, ss.
def iretFrame (cpu : Cpu) : List Nat := [0, 4, 8, 12, 16].map (fun offset => readWord cpu.mem (cpu.reg .esp + offset))

def Resumed (cpu : Cpu) : Origin → Prop
  | .suspended caller =>
      (∀ r ∈ [Reg.ebx, .esi, .edi, .ebp, .eax], cpu.reg r = caller.reg r) ∧ cpu.reg .esp = caller.reg .esp + 4 ∧
        cpu.eip = readWord caller.mem (caller.reg .esp)
  | .threadCreate entry arg thread =>
      cpu.eip = sym.kthreadStub ∧ argument cpu 0 = entry ∧ argument cpu 1 = arg ∧ argument cpu 2 = thread
  | .setupKerenlStack entry userEsp =>
      cpu.eip = sym.launchProcess ∧ iretFrame cpu = [entry, 3 <<< 3 ||| 0 ||| 3, 1 <<< 9, userEsp, 4 <<< 3 ||| 0 ||| 3]

-- The words from the saved `esp` of a waiting thread upwards.
def frame : Origin → List Nat
  | .suspended caller =>
      [caller.reg .edi, caller.reg .esi, caller.reg .ebp, caller.reg .esp, caller.reg .ebx,
        readWord caller.mem (caller.reg .esp + 8), readWord caller.mem (caller.reg .esp + 4), caller.reg .eax,
        readWord caller.mem (caller.reg .esp)]
  | .threadCreate entry arg thread => (threadWords sym entry arg thread).reverse
  | .setupKerenlStack entry userEsp => (processWords sym entry userEsp).reverse

-- `esp` once a waiting thread has been switched to.
def espAfterRet (t : ι) : Origin → Nat
  | .suspended caller => caller.reg .esp + 4
  | .threadCreate _ _ _ => threads.high t - 16
  | .setupKerenlStack _ _ => threads.high t - 20

def savedEsp (t : ι) (origin : Origin) : Nat := espAfterRet threads t origin - 36

structure Parked (mem : Mem) (t : ι) (origin : Origin) : Prop where
  esp : readWord mem (threads.slot t) = savedEsp threads t origin
  low : threads.low t ≤ savedEsp threads t origin
  high : savedEsp threads t origin + 4 * (frame sym origin).length ≤ threads.high t
  above : 36 ≤ espAfterRet threads t origin
  below : espAfterRet threads t origin < 2 ^ 32
  words : Holds mem (savedEsp threads t origin) (frame sym origin)

theorem parked_congr (mem mem' : Mem) (t : ι) (origin : Origin) (parked : Parked threads sym mem t origin)
    (stack : ∀ x, OwnStack threads t x → mem' x = mem x)
    (slot : ∀ x, threads.slot t ≤ x → x < threads.slot t + 4 → mem' x = mem x) : Parked threads sym mem' t origin where
  esp := by rw [read_word_congr mem mem' _ slot, parked.esp]
  low := parked.low
  high := parked.high
  above := parked.above
  below := parked.below
  words := holds_congr mem mem' _ _
    (fun x low high => stack x ⟨le_trans parked.low low, lt_of_lt_of_le high parked.high⟩) parked.words

theorem parked_other (mem mem' : Mem) (t u : ι) (origin : Origin) (other : t ≠ u)
    (parked : Parked threads sym mem t origin)
    (same : ∀ x, ¬ OwnStack threads u x → ¬ (threads.slot u ≤ x ∧ x < threads.slot u + 4) → mem' x = mem x) :
    Parked threads sym mem' t origin := by
  refine parked_congr threads sym mem mem' t origin parked ?_ ?_
  · intro x inside
    have regions := threads.stacksApart t u other
    have slot := threads.slotOutside u t
    simp only [OwnStack] at inside same
    exact same x (by omega) (by omega)
  · intro x low high
    have slots := threads.slotsApart t u other
    have slot := threads.slotOutside t u
    simp only [OwnStack] at same
    exact same x (by omega) (by omega)

theorem suspend_spec (s : Machines ι) (next : ι) (calls : Calls threads s next) :
    (s.cpu.run (contextSwitch.take 4)).reg .edx = threads.slot next ∧
    Parked threads sym (s.cpu.run (contextSwitch.take 4)).mem s.cur (.suspended s.cpu) ∧
    ∀ x, ¬ OwnStack threads s.cur x → ¬ (threads.slot s.cur ≤ x ∧ x < threads.slot s.cur + 4) →
      (s.cpu.run (contextSwitch.take 4)).mem x = s.cpu.mem x := by
  have room := calls.room
  have pushed := calls.pushed
  have bound := threads.stackBound s.cur
  have apart := threads.slotOutside s.cur s.cur
  have word (a : Nat) : readWord s.cpu.mem a % 2 ^ 32 = readWord s.cpu.mem a :=
    Nat.mod_eq_of_lt (read_word_lt s.cpu.mem a)
  let loaded := (s.cpu.exec (.load .ecx .esp 4)).exec (.load .edx .esp 8)
  have ecx : loaded.reg .ecx = readWord s.cpu.mem (s.cpu.reg .esp + 4) := by
    simp only [loaded, Cpu.exec, Cpu.set, Function.update_apply, reduceCtorEq, if_true, if_false]
    rw [Word.add_exact _ _ (by omega), word]
  have edx : loaded.reg .edx = readWord s.cpu.mem (s.cpu.reg .esp + 8) := by
    simp only [loaded, Cpu.exec, Cpu.set, Function.update_apply, reduceCtorEq, if_true, if_false]
    rw [Word.add_exact _ _ (by omega), word]
  have kept (r : Reg) (notEcx : r ≠ .ecx) (notEdx : r ≠ .edx) : loaded.reg r = s.cpu.reg r := by
    simp only [loaded, Cpu.exec]
    rw [Cpu.set_other _ _ _ _ notEdx, Cpu.set_other _ _ _ _ notEcx]
  have esp : loaded.reg .esp = s.cpu.reg .esp := kept .esp (by decide) (by decide)
  have frameEq : frame sym (.suspended s.cpu) =
      [.edi, .esi, .ebp, .esp, .ebx, .edx, .ecx, .eax].map loaded.reg ++ [readWord s.cpu.mem (s.cpu.reg .esp)] := by
    simp only [List.map_cons, List.map_nil, edx, ecx, kept _ (show Reg.edi ≠ .ecx by decide) (by decide),
      kept _ (show Reg.esi ≠ .ecx by decide) (by decide), kept _ (show Reg.ebp ≠ .ecx by decide) (by decide), esp,
      kept _ (show Reg.ebx ≠ .ecx by decide) (by decide), kept _ (show Reg.eax ≠ .ecx by decide) (by decide)]
    rfl
  obtain ⟨saved, regs⟩ := pusha_pushed loaded (by omega)
  have top : (loaded.exec .pusha).reg .esp = s.cpu.reg .esp - 32 := by
    rw [saved.esp, esp]
    rfl
  have holds := saved.words
  have outside : ∀ x, x < s.cpu.reg .esp - 32 ∨ s.cpu.reg .esp ≤ x → (loaded.exec .pusha).mem x = loaded.mem x := by
    rw [← esp]
    exact saved.frame
  rw [esp] at holds
  have stored : (s.cpu.run (contextSwitch.take 4)).mem =
      (loaded.exec .pusha).mem.writeWord (threads.slot s.cur) (s.cpu.reg .esp - 32) := by
    change (loaded.exec .pusha).mem.writeWord ((loaded.exec .pusha).reg .ecx) ((loaded.exec .pusha).reg .esp) = _
    rw [top, regs .ecx (by decide), ecx, calls.old]
  rw [stored]
  refine ⟨?_, ⟨?_, ?_, ?_, ?_, ?_, ?_⟩, ?_⟩
  · change (loaded.exec .pusha).reg .edx = _
    rw [regs .edx (by decide), edx, calls.new]
  · rw [write_word_here _ _ _ (by omega)]
    simp only [savedEsp, espAfterRet]
    omega
  · simp only [savedEsp, espAfterRet]
    omega
  · simp only [savedEsp, espAfterRet, frame, List.length_cons, List.length_nil]
    omega
  · simp only [espAfterRet]
    omega
  · simp only [espAfterRet]
    omega
  · have above : s.cpu.reg .esp - 32 + 4 * 8 = s.cpu.reg .esp := by omega
    have saved : savedEsp threads s.cur (.suspended s.cpu) = s.cpu.reg .esp - 32 := by
      simp only [savedEsp, espAfterRet]
      omega
    rw [frameEq, saved]
    refine (holds_append _ _ _ _).mpr ⟨?_, ?_, trivial⟩
    · exact holds_congr _ _ _ _ (fun x low high => write_word_frame _ _ _ _ (by simp at high; omega)) holds
    · change readWord _ (s.cpu.reg .esp - 32 + 4 * 8) = _
      rw [above, write_word_elsewhere _ _ _ _ (by omega),
        read_word_congr s.cpu.mem _ _ (fun x low high => outside x (Or.inr low))]
  · intro x own slot
    simp only [OwnStack] at own
    rw [write_word_frame _ _ _ _ (by omega), outside x (by omega)]
    rfl

theorem resume_spec (cpu : Cpu) (t : ι) (origin : Origin) (edx : cpu.reg .edx = threads.slot t)
    (parked : Parked threads sym cpu.mem t origin) :
    Resumed sym (cpu.run (contextSwitch.drop 4)) origin ∧ (cpu.run (contextSwitch.drop 4)).mem = cpu.mem := by
  have above := parked.above
  have below := parked.below
  have slot := threads.slotBound t
  have words := parked.words
  let entered := cpu.exec (.load .esp .edx 0)
  have esp : entered.reg .esp = savedEsp threads t origin := by
    simp only [entered, Cpu.exec, Cpu.set_here]
    rw [edx, Word.add_exact _ _ (by omega), Nat.add_zero, parked.esp]
    exact Nat.mod_eq_of_lt (by rw [savedEsp]; omega)
  have ret : entered.reg .esp + 36 = espAfterRet threads t origin := by
    rw [esp, savedEsp]
    omega
  rw [← esp] at words
  change Resumed sym (entered.run [.popa, .ret]) origin ∧ (entered.run [.popa, .ret]).mem = cpu.mem
  cases origin with
  | suspended caller =>
      obtain ⟨registers, top, target, mem⟩ := popa_ret_spec entered _ _ _ _ _ _ _ _ _ (by omega) words
      refine ⟨⟨?_, top.trans ret, target⟩, mem⟩
      simp only [List.map_cons, List.map_nil, List.cons.injEq, and_true] at registers
      obtain ⟨edi, esi, ebp, ebx, -, -, eax⟩ := registers
      simp only [List.forall_mem_cons, edi, esi, ebp, ebx, eax, List.not_mem_nil, false_implies, implies_true, and_self]
  | threadCreate entry arg thread =>
      obtain ⟨registers, rest⟩ :=
        (holds_append entered.mem _ [0, 0, 0, 0, 0, 0, 0, 0, sym.kthreadStub] [0, entry, arg, thread]).mp words
      obtain ⟨-, top, target, mem⟩ := popa_ret_spec entered _ _ _ _ _ _ _ _ _ (by omega) registers
      obtain ⟨-, first, second, third, -⟩ := rest
      refine ⟨⟨target, ?_, ?_, ?_⟩, mem⟩
      · rw [argument, top, mem]
        exact first
      · rw [argument, top, mem]
        exact second
      · rw [argument, top, mem]
        exact third
  | setupKerenlStack entry userEsp =>
      obtain ⟨registers, rest⟩ := (holds_append entered.mem _ [0, 0, 0, 0, 0, 0, 0, 0, sym.launchProcess]
        [entry, 3 <<< 3 ||| 0 ||| 3, 1 <<< 9, userEsp, 4 <<< 3 ||| 0 ||| 3]).mp words
      obtain ⟨-, top, target, mem⟩ := popa_ret_spec entered _ _ _ _ _ _ _ _ _ (by omega) registers
      obtain ⟨eip, cs, eflags, esp, ss, -⟩ := rest
      refine ⟨⟨target, ?_⟩, mem⟩
      rw [iretFrame, top, mem, ← eip, ← cs, ← eflags, ← esp, ← ss]
      rfl

variable [DecidableEq ι]

-- The caller is recorded as waiting, also when it is the next thread itself.
def waits (s : Machines ι) : ι → Option Origin := Function.update s.waiting s.cur (some (.suspended s.cpu))

def switchTo (s : Machines ι) (next : ι) : Machines ι where
  cpu := s.cpu.run contextSwitch
  cur := next
  waiting := Function.update (waits s) next none

-- The stack of `t` is filled with the words and the new top is stored as its `esp`.
def forge (t : ι) (words : List Nat) (origin : Origin) (s : Machines ι) : Machines ι :=
  let (esp, mem) := pushWords words (threads.high t % 2 ^ 32) s.cpu.mem
  { s with
    cpu := { s.cpu with mem := mem.writeWord (threads.slot t) esp }
    waiting := Function.update s.waiting t (some origin) }

inductive Switches : Machines ι → Machines ι → Prop
  -- The running thread computes and writes its own stack.
  | work (s : Machines ι) (cpu : Cpu) (own : ∀ x, ¬ OwnStack threads s.cur x → cpu.mem x = s.cpu.mem x) :
      Switches s { s with cpu := cpu }
  | threadCreate (s : Machines ι) (t : ι) (entry arg thread : Nat) (other : t ≠ s.cur)
      (page : threads.low t + 0x1000 = threads.high t) (small : ∀ w ∈ [entry, arg, thread], w < 2 ^ 32) :
      Switches s (forge threads t (threadWords sym entry arg thread) (.threadCreate entry arg thread) s)
  | setupKerenlStack (s : Machines ι) (t : ι) (entry userEsp : Nat) (other : t ≠ s.cur)
      (page : threads.low t + 0x1000 = threads.high t) (small : ∀ w ∈ [entry, userEsp], w < 2 ^ 32) :
      Switches s (forge threads t (processWords sym entry userEsp) (.setupKerenlStack entry userEsp) s)
  | contextSwitch (s : Machines ι) (next : ι) (calls : Calls threads s next) (known : (waits s next).isSome) :
      Switches s (switchTo s next)

def AllParked (s : Machines ι) : Prop :=
  ∀ t origin, t ≠ s.cur → s.waiting t = some origin → Parked threads sym s.cpu.mem t origin

theorem forge_parked (s : Machines ι) (t : ι) (words : List Nat) (origin : Origin)
    (frameEq : frame sym origin = words.reverse)
    (espEq : espAfterRet threads t origin = threads.high t - 4 * words.length + 36) (least : 10 ≤ words.length)
    (room : threads.low t + 4 * words.length ≤ threads.high t) (small : ∀ w ∈ words, w < 2 ^ 32) :
    Parked threads sym (forge threads t words origin s).cpu.mem t origin ∧
      ∀ x, ¬ OwnStack threads t x → ¬ (threads.slot t ≤ x ∧ x < threads.slot t + 4) →
        (forge threads t words origin s).cpu.mem x = s.cpu.mem x := by
  have bound := threads.stackBound t
  have apart := threads.slotOutside t t
  obtain ⟨esp, holds⟩ := push_words_holds words (threads.high t) s.cpu.mem bound (by omega) small
  have inRange : (threads.high t - 4 * words.length) % 2 ^ 32 = threads.high t - 4 * words.length :=
    Nat.mod_eq_of_lt (by omega)
  rw [inRange] at esp
  have written : (forge threads t words origin s).cpu.mem =
      (pushWords words (threads.high t % 2 ^ 32) s.cpu.mem).2.writeWord (threads.slot t)
        (threads.high t - 4 * words.length) := by
    rw [← esp]
    rfl
  have saved : savedEsp threads t origin = threads.high t - 4 * words.length := by
    rw [savedEsp, espEq, Nat.add_sub_cancel]
  rw [written]
  refine ⟨⟨?_, by omega, ?_, by omega, by omega, ?_⟩, ?_⟩
  · rw [saved, write_word_here _ _ _ (by omega)]
  · rw [frameEq, List.length_reverse]
    omega
  · rw [frameEq, saved]
    refine holds_congr _ _ _ _ (fun x low high => write_word_frame _ _ _ _ ?_) holds
    rw [List.length_reverse] at high
    omega
  · intro x outside elsewhere
    rw [write_word_frame _ _ _ _ (by omega)]
    simp only [OwnStack] at outside
    exact push_words_frame words _ x _ bound (by omega) (by omega)

-- `thread_create` and `setup_kerenl_stack`, with the store of the new `esp`, forge the thread on its page.
theorem build_thread_forges {σ : Type} (A : PageAllocator σ) (entry arg : Nat) (new : NewThread) (h h' : Heap.State σ)
    (done : buildThread A sym entry arg h = .ok (new, h')) (t : ι) (page : threads.high t = p2v new.stack + 0x1000) :
    ∃ mem, ∀ s : Machines ι, s.cpu.mem = mem → ∀ origin,
      (forge threads t (threadWords sym entry arg new.thread) origin s).cpu.mem =
        h'.mem.writeWord (threads.slot t) new.esp := by
  simp only [buildThread] at done
  split at done
  · contradiction
  split at done
  · contradiction
  · contradiction
  next _ _ h₁ _ =>
    cases done
    refine ⟨h₁.mem, fun s same origin => ?_⟩
    simp only [forge, same, page, threadWords, Word.add, Nat.add_comm 0x1000]

theorem setup_kerenl_stack_forges {σ : Type} (A : PageAllocator σ) (entry userEsp : Nat) (info : KStackInfo)
    (h h' : Heap.State σ) (done : setupKerenlStack A sym entry userEsp h = .ok (info, h')) (t : ι)
    (page : threads.high t = info.kernelStackBase + 0x1000) :
    ∃ mem, ∀ s : Machines ι, s.cpu.mem = mem → ∀ origin,
      (forge threads t (processWords sym entry userEsp) origin s).cpu.mem =
        h'.mem.writeWord (threads.slot t) info.kernelEsp := by
  simp only [setupKerenlStack] at done
  split at done
  · contradiction
  · contradiction
  next _ h₁ _ =>
    cases done
    refine ⟨h₁.mem, fun s same origin => ?_⟩
    simp only [forge, same, page, processWords, Word.add, Nat.add_comm 0x1000]

theorem suspend_parked (s : Machines ι) (next t : ι) (origin : Origin) (parked : AllParked threads sym s)
    (calls : Calls threads s next) (waiting : waits s t = some origin) :
    Parked threads sym (s.cpu.run (contextSwitch.take 4)).mem t origin := by
  obtain ⟨-, own, outside⟩ := suspend_spec threads sym s next calls
  by_cases current : t = s.cur
  · subst current
    rw [waits, Function.update_self] at waiting
    cases waiting
    exact own
  · rw [waits, Function.update_of_ne current] at waiting
    exact parked_other threads sym _ _ t s.cur origin current (parked t origin current waiting) outside

theorem switch_spec (s : Machines ι) (next : ι) (origin : Origin) (parked : AllParked threads sym s)
    (calls : Calls threads s next) (waiting : waits s next = some origin) :
    Resumed sym (switchTo s next).cpu origin ∧ AllParked threads sym (switchTo s next) := by
  obtain ⟨edx, -, -⟩ := suspend_spec threads sym s next calls
  obtain ⟨resumed, mem⟩ := resume_spec threads sym (s.cpu.run (contextSwitch.take 4)) next origin edx
    (suspend_parked threads sym s next next origin parked calls waiting)
  have halves : (switchTo s next).cpu = (s.cpu.run (contextSwitch.take 4)).run (contextSwitch.drop 4) := rfl
  rw [AllParked, halves, mem]
  refine ⟨resumed, ?_⟩
  intro t origin' other waiting'
  have same : (switchTo s next).waiting t = waits s t := Function.update_of_ne other _ _
  exact suspend_parked threads sym s next t origin' parked calls (same ▸ waiting')

theorem forge_all_parked (s : Machines ι) (t : ι) (words : List Nat) (origin : Origin)
    (parked : AllParked threads sym s) (frameEq : frame sym origin = words.reverse)
    (espEq : espAfterRet threads t origin = threads.high t - 4 * words.length + 36) (least : 10 ≤ words.length)
    (room : threads.low t + 4 * words.length ≤ threads.high t) (small : ∀ w ∈ words, w < 2 ^ 32) :
    AllParked threads sym (forge threads t words origin s) := by
  obtain ⟨forged, outside⟩ := forge_parked threads sym s t words origin frameEq espEq least room small
  intro u origin' notRunning waiting
  change Function.update s.waiting t (some origin) u = some origin' at waiting
  by_cases new : u = t
  · subst new
    rw [Function.update_self] at waiting
    cases waiting
    exact forged
  · rw [Function.update_of_ne new] at waiting
    exact parked_other threads sym _ _ u t origin' new (parked u origin' notRunning waiting) outside

theorem switches_parked (addresses : sym.kthreadStub < 2 ^ 32 ∧ sym.launchProcess < 2 ^ 32) (s s' : Machines ι)
    (parked : AllParked threads sym s) (step : Switches threads sym s s') : AllParked threads sym s' := by
  have zeros : ∀ w ∈ zeroRegisters, w < 2 ^ 32 := by decide
  cases step with
  | work cpu own =>
      intro t origin notRunning waiting
      exact parked_other threads sym _ _ t s.cur origin notRunning (parked t origin notRunning waiting)
        (fun x outside _ => own x outside)
  | threadCreate t entry arg thread other page small =>
      refine forge_all_parked threads sym s t _ _ parked rfl ?_ (show 10 ≤ 13 by decide) ?_ ?_
      · change threads.high t - 16 = threads.high t - 4 * 13 + 36
        omega
      · change threads.low t + 4 * 13 ≤ threads.high t
        omega
      · refine List.forall_mem_append.mpr ⟨?_, zeros⟩
        simp only [List.forall_mem_cons] at small ⊢
        exact ⟨small.2.2.1, small.2.1, small.1, by decide, addresses.1, by simp⟩
  | setupKerenlStack t entry userEsp other page small =>
      refine forge_all_parked threads sym s t _ _ parked rfl ?_ (show 10 ≤ 14 by decide) ?_ ?_
      · change threads.high t - 20 = threads.high t - 4 * 14 + 36
        omega
      · change threads.low t + 4 * 14 ≤ threads.high t
        omega
      · refine List.forall_mem_append.mpr ⟨?_, zeros⟩
        simp only [List.forall_mem_cons] at small ⊢
        exact ⟨by decide, small.2.1, by decide, by decide, small.1, addresses.2, by simp⟩
  | contextSwitch next calls known =>
      obtain ⟨origin, waiting⟩ := Option.isSome_iff_exists.mp known
      exact (switch_spec threads sym s next origin parked calls waiting).2

theorem run_parked (addresses : sym.kthreadStub < 2 ^ 32 ∧ sym.launchProcess < 2 ^ 32) (first s : Machines ι)
    (fresh : ∀ t, first.waiting t = none) (run : Relation.ReflTransGen (Switches threads sym) first s) :
    AllParked threads sym s := by
  induction run with
  | refl =>
      intro t origin _ waiting
      rw [fresh t] at waiting
      contradiction
  | tail _ step ih => exact switches_parked threads sym addresses _ _ ih step

theorem context_switch_transparent (addresses : sym.kthreadStub < 2 ^ 32 ∧ sym.launchProcess < 2 ^ 32)
    (first s : Machines ι) (fresh : ∀ t, first.waiting t = none)
    (run : Relation.ReflTransGen (Switches threads sym) first s) (next : ι) (origin : Origin)
    (calls : Calls threads s next) (waiting : waits s next = some origin) : Resumed sym (switchTo s next).cpu origin :=
  (switch_spec threads sym s next origin (run_parked threads sym addresses first s fresh run) calls waiting).1

end Switching

def twoThreads : Threads Bool where
  slot t := if t then 0x1010 else 0x1000
  low t := if t then 0x4000 else 0x2000
  high t := if t then 0x5000 else 0x3000
  slotBound := by decide
  stackBound := by decide
  slotsApart := by decide
  stacksApart := by decide
  slotOutside := by decide

-- The first thread is about to call `context_switch` with the second one's slot.
def callingCpu : Cpu where
  reg r := if r = .esp then 0x2ff0 else 0
  eip := 0
  mem := writeWord (writeWord (fun _ => 0) 0x2ff4 0x1000) 0x2ff8 0x1010
  small r := by
    cases r <;> decide

theorem context_switch_enters_new_thread : let first : Machines Bool := ⟨callingCpu, false, fun _ => none⟩
    let forged := forge twoThreads true (threadWords ⟨0, 5, 6⟩ 7 8 9) (.threadCreate 7 8 9) first
    (switchTo forged true).cpu.eip = 6 ∧ argument (switchTo forged true).cpu 0 = 7 ∧
      argument (switchTo forged true).cpu 1 = 8 ∧ argument (switchTo forged true).cpu 2 = 9 := by
  intro first forged
  exact context_switch_transparent twoThreads ⟨0, 5, 6⟩ (by decide) first forged (fun _ => rfl)
    (.single (.threadCreate first true 7 8 9 (by decide) (by decide) (by decide))) true (.threadCreate 7 8 9)
    ⟨by decide, by decide, by decide +kernel, by decide +kernel⟩ rfl

end X86OS.Process
