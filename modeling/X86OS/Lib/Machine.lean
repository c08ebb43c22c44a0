import X86OS.Lib.Memory
import X86OS.Lib.Word

set_option autoImplicit false

namespace X86OS.Machine

open Mem

inductive Reg
  | eax | ecx | edx | ebx | esp | ebp | esi | edi
deriving DecidableEq

structure Cpu where
  reg : Reg → Nat
  eip : Nat
  mem : Mem
  small : ∀ r, reg r < 2 ^ 32

inductive Instr
  -- mov dest, [base + offset]
  | load (dest base : Reg) (offset : Nat)
  -- mov [base], source
  | store (base source : Reg)
  | pusha
  | popa
  | ret

namespace Cpu

theorem small_update (cpu : Cpu) (dest : Reg) (value : Nat) (r : Reg) :
    Function.update cpu.reg dest (value % 2 ^ 32) r < 2 ^ 32 := by
  by_cases same : r = dest
  · rw [same, Function.update_self]
    exact Nat.mod_lt _ (by decide)
  · rw [Function.update_of_ne same]
    exact cpu.small r

def set (cpu : Cpu) (dest : Reg) (value : Nat) : Cpu where
  reg := Function.update cpu.reg dest (value % 2 ^ 32)
  eip := cpu.eip
  mem := cpu.mem
  small := small_update cpu dest value

def push (cpu : Cpu) (value : Nat) : Cpu :=
  let esp := Word.sub (cpu.reg .esp) 4
  { cpu.set .esp esp with mem := cpu.mem.writeWord esp value }

-- The word on top of the stack goes to the register, if one is given.
def pop (cpu : Cpu) (dest : Option Reg) : Cpu :=
  let value := cpu.mem.readWord (cpu.reg .esp)
  let cpu := cpu.set .esp (Word.add (cpu.reg .esp) 4)
  match dest with
  | none => cpu
  | some dest => cpu.set dest value

def exec (cpu : Cpu) : Instr → Cpu
  | .load dest base offset => cpu.set dest (cpu.mem.readWord (Word.add (cpu.reg base) offset))
  | .store base source => { cpu with mem := cpu.mem.writeWord (cpu.reg base) (cpu.reg source) }
  -- The value pushed for `esp` is the one from before the first push.
  | .pusha => ([.eax, .ecx, .edx, .ebx, .esp, .ebp, .esi, .edi].map cpu.reg).foldl push cpu
  -- The word saved for `esp` is thrown away.
  | .popa => [some .edi, some .esi, some .ebp, none, some .ebx, some .edx, some .ecx, some .eax].foldl pop cpu
  | .ret => { cpu.set .esp (Word.add (cpu.reg .esp) 4) with eip := cpu.mem.readWord (cpu.reg .esp) }

def run (cpu : Cpu) (code : List Instr) : Cpu := code.foldl exec cpu

@[simp] theorem set_here (cpu : Cpu) (dest : Reg) (value : Nat) : (cpu.set dest value).reg dest = value % 2 ^ 32 :=
  Function.update_self _ _ _

theorem set_other (cpu : Cpu) (dest r : Reg) (value : Nat) (other : r ≠ dest) :
    (cpu.set dest value).reg r = cpu.reg r :=
  Function.update_of_ne other _ _

@[simp] theorem set_mem (cpu : Cpu) (dest : Reg) (value : Nat) : (cpu.set dest value).mem = cpu.mem := rfl

theorem pushes_other (cpu : Cpu) (values : List Nat) (r : Reg) (other : r ≠ .esp) :
    (values.foldl push cpu).reg r = cpu.reg r := by
  induction values generalizing cpu with
  | nil => rfl
  | cons value values ih =>
      rw [List.foldl_cons, ih]
      exact set_other cpu .esp r _ other

end Cpu

-- The words from `a` upwards.
def Holds (mem : Mem) : Nat → List Nat → Prop
  | _, [] => True
  | a, word :: rest => readWord mem a = word ∧ Holds mem (a + 4) rest

theorem holds_append (mem : Mem) (a : Nat) (words words' : List Nat) :
    Holds mem a (words ++ words') ↔ Holds mem a words ∧ Holds mem (a + 4 * words.length) words' := by
  induction words generalizing a with
  | nil => simp [Holds]
  | cons word words ih =>
      have next : a + 4 + 4 * words.length = a + 4 * (word :: words).length := by
        simp only [List.length_cons]
        omega
      rw [List.cons_append, Holds, Holds, ih, next, and_assoc]

theorem holds_congr (mem mem' : Mem) (a : Nat) (words : List Nat)
    (same : ∀ x, a ≤ x → x < a + 4 * words.length → mem' x = mem x) (holds : Holds mem a words) :
    Holds mem' a words := by
  induction words generalizing a with
  | nil => trivial
  | cons word words ih =>
      simp only [List.length_cons] at same
      obtain ⟨here, rest⟩ := holds
      refine ⟨?_, ih (a + 4) (fun x low high => same x (by omega) (by omega)) rest⟩
      rw [read_word_congr mem mem' a (fun x low high => same x low (by omega)), here]

-- Each word in turn goes below the one before.
def pushWords : List Nat → Nat → Mem → Nat × Mem
  | [], esp, mem => (esp, mem)
  | word :: rest, esp, mem =>
      let esp := Word.sub esp 4
      pushWords rest esp (mem.writeWord esp word)

-- The stack may end with the address space, where `esp` is first 0.
theorem push_words_frame (words : List Nat) (top x : Nat) (mem : Mem) (bound : top ≤ 2 ^ 32)
    (room : 4 * words.length ≤ top) (outside : x < top - 4 * words.length ∨ top ≤ x) :
    (pushWords words (top % 2 ^ 32) mem).2 x = mem x := by
  induction words generalizing top mem with
  | nil => rfl
  | cons word words ih =>
      simp only [List.length_cons] at room outside
      have down : Word.sub (top % 2 ^ 32) 4 = (top - 4) % 2 ^ 32 := by
        simp only [Word.sub]
        omega
      have inRange : (top - 4) % 2 ^ 32 = top - 4 := Nat.mod_eq_of_lt (by omega)
      rw [pushWords, down, ih (top - 4) _ (by omega) (by omega) (by omega), inRange,
        write_word_frame _ _ _ _ (by omega)]

theorem push_words_holds (words : List Nat) (top : Nat) (mem : Mem) (bound : top ≤ 2 ^ 32)
    (room : 4 * words.length ≤ top) (small : ∀ w ∈ words, w < 2 ^ 32) :
    (pushWords words (top % 2 ^ 32) mem).1 = (top - 4 * words.length) % 2 ^ 32 ∧
      Holds (pushWords words (top % 2 ^ 32) mem).2 (top - 4 * words.length) words.reverse := by
  induction words generalizing top mem with
  | nil => exact ⟨rfl, trivial⟩
  | cons word words ih =>
      simp only [List.length_cons] at room
      have down : Word.sub (top % 2 ^ 32) 4 = (top - 4) % 2 ^ 32 := by
        simp only [Word.sub]
        omega
      have inRange : (top - 4) % 2 ^ 32 = top - 4 := Nat.mod_eq_of_lt (by omega)
      have lower : top - 4 - 4 * words.length = top - 4 * (word :: words).length := by
        simp only [List.length_cons]
        omega
      have above : top - 4 * (word :: words).length + 4 * words.reverse.length = top - 4 := by
        simp only [List.length_cons, List.length_reverse]
        omega
      obtain ⟨esp, holds⟩ := ih (top - 4) (mem.writeWord ((top - 4) % 2 ^ 32) word) (by omega) (by omega)
        (fun w member => small w (List.mem_cons_of_mem _ member))
      rw [pushWords, down, ← lower]
      refine ⟨esp, ?_⟩
      rw [List.reverse_cons, holds_append, lower, above]
      refine ⟨lower ▸ holds, ?_, trivial⟩
      rw [read_word_congr (mem.writeWord ((top - 4) % 2 ^ 32) word) _ (top - 4)
        (fun x low high => push_words_frame words (top - 4) x _ (by omega) (by omega) (by omega)), inRange]
      exact write_word_here mem (top - 4) word (small word List.mem_cons_self)

theorem pushes_words (cpu : Cpu) (values : List Nat) :
    (values.foldl Cpu.push cpu).reg .esp = (pushWords values (cpu.reg .esp) cpu.mem).1 ∧
      (values.foldl Cpu.push cpu).mem = (pushWords values (cpu.reg .esp) cpu.mem).2 := by
  induction values generalizing cpu with
  | nil => exact ⟨rfl, rfl⟩
  | cons value values ih =>
      have esp : (cpu.push value).reg .esp = Word.sub (cpu.reg .esp) 4 := by
        rw [Cpu.push, Cpu.set_here]
        simp only [Word.sub, Nat.mod_mod]
      obtain ⟨low, mem⟩ := ih (cpu.push value)
      rw [esp] at low mem
      exact ⟨low, mem⟩

-- The words pushed from `cpu` to `cpu'`, in order, with the registers left aside.
structure Pushed (values : List Nat) (cpu cpu' : Cpu) : Prop where
  room : 4 * values.length ≤ cpu.reg .esp
  esp : cpu'.reg .esp = cpu.reg .esp - 4 * values.length
  words : Holds cpu'.mem (cpu.reg .esp - 4 * values.length) values.reverse
  frame : ∀ x, x < cpu.reg .esp - 4 * values.length ∨ cpu.reg .esp ≤ x → cpu'.mem x = cpu.mem x

theorem pushed_nil (cpu cpu' : Cpu) (esp : cpu'.reg .esp = cpu.reg .esp) (mem : cpu'.mem = cpu.mem) :
    Pushed [] cpu cpu' :=
  ⟨Nat.zero_le _, esp, trivial, fun x _ => congrFun mem x⟩

theorem pushed_append (values values' : List Nat) (cpu cpu' cpu'' : Cpu) (first : Pushed values cpu cpu')
    (second : Pushed values' cpu' cpu'') : Pushed (values ++ values') cpu cpu'' := by
  have room := first.room
  have room' := second.room
  have esp := first.esp
  have lower : cpu.reg .esp - 4 * (values ++ values').length = cpu'.reg .esp - 4 * values'.length := by
    rw [List.length_append]
    omega
  have upper : cpu'.reg .esp - 4 * values'.length + 4 * values'.reverse.length = cpu.reg .esp - 4 * values.length := by
    rw [List.length_reverse]
    omega
  refine ⟨?_, ?_, ?_, ?_⟩
  · rw [List.length_append]
    omega
  · rw [lower, second.esp]
  · rw [lower, List.reverse_append, holds_append, upper]
    refine ⟨second.words, holds_congr _ _ _ _ (fun x low high => second.frame x ?_) first.words⟩
    omega
  · intro x outside
    rw [lower] at outside
    rw [second.frame x (by omega), first.frame x (by omega)]

theorem push_esp (cpu : Cpu) (value : Nat) (room : 4 ≤ cpu.reg .esp) :
    (cpu.push value).reg .esp = cpu.reg .esp - 4 := by
  have bound := cpu.small .esp
  change (cpu.set .esp (Word.sub (cpu.reg .esp) 4)).reg .esp = _
  rw [Cpu.set_here, Word.sub_exact _ _ bound room]
  exact Nat.mod_eq_of_lt (by omega)

theorem pushes_esp (cpu : Cpu) (values : List Nat) (room : 4 * values.length ≤ cpu.reg .esp) :
    (values.foldl Cpu.push cpu).reg .esp = cpu.reg .esp - 4 * values.length := by
  induction values generalizing cpu with
  | nil => rfl
  | cons value values ih =>
      simp only [List.length_cons] at room
      have down := push_esp cpu value (by omega)
      rw [List.foldl_cons, ih (cpu.push value) (by omega), down, List.length_cons]
      omega

theorem pushes_spec (cpu : Cpu) (values : List Nat) (room : 4 * values.length ≤ cpu.reg .esp)
    (small : ∀ v ∈ values, v < 2 ^ 32) : Pushed values cpu (values.foldl Cpu.push cpu) := by
  have bound := (cpu.small .esp).le
  have inRange : cpu.reg .esp % 2 ^ 32 = cpu.reg .esp := Nat.mod_eq_of_lt (cpu.small .esp)
  obtain ⟨-, mem⟩ := pushes_words cpu values
  have holds := (push_words_holds values (cpu.reg .esp) cpu.mem bound room small).2
  rw [inRange, ← mem] at holds
  refine ⟨room, pushes_esp cpu values room, holds, fun x outside => ?_⟩
  have same := push_words_frame values (cpu.reg .esp) x cpu.mem bound room outside
  rw [inRange, ← mem] at same
  exact same

theorem push_spec (cpu : Cpu) (value : Nat) (room : 4 ≤ cpu.reg .esp) (small : value < 2 ^ 32) :
    Pushed [value] cpu (cpu.push value) :=
  pushes_spec cpu [value] room (by simpa using small)

theorem pusha_pushed (cpu : Cpu) (room : 32 ≤ cpu.reg .esp) :
    Pushed ([.eax, .ecx, .edx, .ebx, .esp, .ebp, .esi, .edi].map cpu.reg) cpu (cpu.exec .pusha) ∧
      ∀ r, r ≠ .esp → (cpu.exec .pusha).reg r = cpu.reg r := by
  refine ⟨pushes_spec cpu _ room ?_, fun r other => Cpu.pushes_other cpu _ r other⟩
  intro v member
  obtain ⟨r, -, rfl⟩ := List.mem_map.mp member
  exact cpu.small r

theorem pop_spec (cpu : Cpu) (dest : Reg) (other : dest ≠ .esp) (room : cpu.reg .esp + 4 < 2 ^ 32) :
    (cpu.pop (some dest)).reg dest = readWord cpu.mem (cpu.reg .esp) ∧
      (cpu.pop (some dest)).reg .esp = cpu.reg .esp + 4 ∧
      (∀ r, r ≠ dest → r ≠ .esp → (cpu.pop (some dest)).reg r = cpu.reg r) ∧ (cpu.pop (some dest)).mem = cpu.mem := by
  refine ⟨?_, ?_, ?_, rfl⟩
  · rw [Cpu.pop, Cpu.set_here]
    exact Nat.mod_eq_of_lt (read_word_lt _ _)
  · rw [Cpu.pop, Cpu.set_other _ _ _ _ other.symm, Cpu.set_here, Word.add_exact _ _ room]
    exact Nat.mod_eq_of_lt room
  · intro r notDest notEsp
    rw [Cpu.pop, Cpu.set_other _ _ _ _ notDest, Cpu.set_other _ _ _ _ notEsp]

theorem popa_spec (cpu : Cpu) (edi esi ebp skipped ebx edx ecx eax : Nat) (below : cpu.reg .esp + 32 < 2 ^ 32)
    (holds : Holds cpu.mem (cpu.reg .esp) [edi, esi, ebp, skipped, ebx, edx, ecx, eax]) :
    [Reg.edi, .esi, .ebp, .ebx, .edx, .ecx, .eax].map (cpu.exec .popa).reg = [edi, esi, ebp, ebx, edx, ecx, eax] ∧
      (cpu.exec .popa).reg .esp = cpu.reg .esp + 32 ∧ (cpu.exec .popa).mem = cpu.mem := by
  obtain ⟨ediEq, esiEq, ebpEq, -, ebxEq, edxEq, ecxEq, eaxEq, -⟩ := holds
  simp only [Cpu.exec, List.foldl_cons, List.foldl_nil, Cpu.pop, Cpu.set, Function.update_apply, reduceCtorEq,
    if_true, if_false, List.map_cons, List.map_nil]
  have up (a : Nat) (inRange : a + 4 < 2 ^ 32) : Word.add a 4 % 2 ^ 32 = a + 4 := by
    rw [Word.add_exact a 4 inRange, Nat.mod_eq_of_lt inRange]
  have word (a : Nat) : readWord cpu.mem a % 2 ^ 32 = readWord cpu.mem a := Nat.mod_eq_of_lt (read_word_lt cpu.mem a)
  simp (disch := omega) only [up, word]
  rw [ediEq, esiEq, ebpEq, ebxEq, edxEq, ecxEq, eaxEq]
  exact ⟨rfl, trivial, trivial⟩

-- `popa` restores every register but `esp`.
theorem popped_registers (f g : Reg → Nat)
    (same : [Reg.edi, .esi, .ebp, .ebx, .edx, .ecx, .eax].map f = [Reg.edi, .esi, .ebp, .ebx, .edx, .ecx, .eax].map g)
    (r : Reg) (other : r ≠ .esp) : f r = g r := by
  refine List.map_inj_left.mp same r ?_
  cases r with
  | esp => exact absurd rfl other
  | _ => decide

theorem ret_spec (cpu : Cpu) (room : cpu.reg .esp + 4 < 2 ^ 32) :
    (cpu.exec .ret).eip = readWord cpu.mem (cpu.reg .esp) ∧
    (cpu.exec .ret).reg .esp = cpu.reg .esp + 4 ∧ (∀ r, r ≠ .esp → (cpu.exec .ret).reg r = cpu.reg r) ∧
      (cpu.exec .ret).mem = cpu.mem := by
  refine ⟨rfl, ?_, fun r other => Cpu.set_other _ _ _ _ other, rfl⟩
  change (cpu.set .esp (Word.add (cpu.reg .esp) 4)).reg .esp = _
  rw [Cpu.set_here, Word.add_exact _ _ room]
  exact Nat.mod_eq_of_lt room

theorem popa_ret_spec (cpu : Cpu) (edi esi ebp skipped ebx edx ecx eax target : Nat)
    (below : cpu.reg .esp + 36 < 2 ^ 32)
    (holds : Holds cpu.mem (cpu.reg .esp) [edi, esi, ebp, skipped, ebx, edx, ecx, eax, target]) :
    [Reg.edi, .esi, .ebp, .ebx, .edx, .ecx, .eax].map (cpu.run [.popa, .ret]).reg =
        [edi, esi, ebp, ebx, edx, ecx, eax] ∧
      (cpu.run [.popa, .ret]).reg .esp = cpu.reg .esp + 36 ∧ (cpu.run [.popa, .ret]).eip = target ∧
      (cpu.run [.popa, .ret]).mem = cpu.mem := by
  obtain ⟨saved, word, -⟩ := (holds_append _ _ [edi, esi, ebp, skipped, ebx, edx, ecx, eax] [target]).mp holds
  obtain ⟨registers, esp, mem⟩ := popa_spec cpu _ _ _ _ _ _ _ _ (by omega) saved
  obtain ⟨eip, top, other, same⟩ := ret_spec (cpu.exec .popa) (by omega)
  rw [esp, mem] at eip
  rw [esp] at top
  refine ⟨?_, top, eip.trans word, same.trans mem⟩
  rw [← registers]
  exact List.map_congr_left (fun r member => other r (by revert r; decide))

end X86OS.Machine
