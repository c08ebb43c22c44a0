import X86OS.Klib.String
import X86OS.Lib.Word

set_option autoImplicit false

namespace X86OS.RepString

open Mem

-- The registers the string instructions use, the direction flag and memory.
structure Core where
  eax : Nat
  ecx : Nat
  edi : Nat
  esi : Nat
  df : Bool
  mem : Mem

def cld (core : Core) : Core := { core with df := false }

-- Where a pointer goes after one element: up when the direction flag is clear.
def advance (core : Core) (pointer size : Nat) : Nat :=
  if core.df then Word.sub pointer size else Word.add pointer size

def movs (transfer : Mem → Nat → Nat → Mem) (size : Nat) (core : Core) : Core :=
  { core with
    mem := transfer core.mem core.edi core.esi
    edi := advance core core.edi size
    esi := advance core core.esi size }

def stos (write : Mem → Nat → Nat → Mem) (size : Nat) (core : Core) : Core :=
  { core with mem := write core.mem core.edi core.eax, edi := advance core core.edi size }

def movsl : Core → Core := movs (fun mem dest src => writeWord mem dest (readWord mem src)) 4
def movsb : Core → Core := movs (fun mem dest src => writeByte mem dest (mem src)) 1
def stosl : Core → Core := stos writeWord 4
def stosw : Core → Core := stos writeHalf 2
def stosb : Core → Core := stos (fun mem dest value => writeByte mem dest (UInt8.ofNat value)) 1

-- `rep` counts `ecx` down to zero.
def rep (instr : Core → Core) (core : Core) : Core := { instr^[core.ecx] core with ecx := 0 }

def kmemcpy (dest src count : Nat) (core : Core) : Nat × Core :=
  let dwords := count / 4
  let bytes := count % 4
  let core := rep movsl (cld { core with edi := dest, esi := src, ecx := dwords })
  (dest, rep movsb { core with ecx := bytes })

def kmemset (dest : Nat) (value : UInt8) (count : Nat) (core : Core) : Nat × Core :=
  let dwords := count / 4
  let bytes := count % 4
  let val32 := value.toNat
  let val32 := val32 ||| val32 <<< 8
  let val32 := val32 ||| val32 <<< 16
  let core := rep stosl (cld { core with edi := dest, ecx := dwords, eax := val32 })
  (dest, rep stosb { core with ecx := bytes })

def kwmemset (dest : Nat) (value : UInt16) (count : Nat) (core : Core) : Nat × Core :=
  let dwords := count / 2
  let bytes := count % 2
  let val32 := value.toNat
  let val32 := val32 ||| val32 <<< 16
  let core := rep stosl (cld { core with edi := dest, ecx := dwords, eax := val32 })
  (dest, rep stosw { core with ecx := bytes })

theorem advance_up (core : Core) (pointer size : Nat) (up : core.df = false) (fits : pointer + size < 2 ^ 32) :
    advance core pointer size = pointer + size := by
  rw [advance, up]
  exact Word.add_exact pointer size fits

-- What one string instruction does: it writes at `edi`, and the register it takes the source
-- address or the value from moves by `stride`.
structure Strides (instr : Core → Core) (other : Core → Nat) (write : Mem → Nat → Nat → Mem)
    (size stride : Nat) : Prop where
  positive : 0 < size
  mem : ∀ core, (instr core).mem = write core.mem core.edi (other core)
  df : ∀ core, (instr core).df = core.df
  edi : ∀ core, (instr core).edi = advance core core.edi size
  moves : ∀ core, core.df = false → stride = 0 ∨ other core + stride < 2 ^ 32 → other (instr core) = other core + stride
  counted : ∀ core n, other { core with ecx := n } = other core

theorem movs_strides (transfer : Mem → Nat → Nat → Mem) (size : Nat) (positive : 0 < size) :
    Strides (movs transfer size) Core.esi transfer size size := by
  refine ⟨positive, fun _ => rfl, fun _ => rfl, fun _ => rfl, ?_, fun _ _ => rfl⟩
  intro core up fits
  exact advance_up core core.esi size up (by omega)

theorem stos_strides (write : Mem → Nat → Nat → Mem) (size : Nat) (positive : 0 < size) :
    Strides (stos write size) Core.eax write size 0 :=
  ⟨positive, fun _ => rfl, fun _ => rfl, fun _ => rfl, fun _ _ _ => rfl, fun _ _ => rfl⟩

-- A loop over unbounded addresses, one element per iteration, upwards.
structure Upward (loop : Nat → Nat → Nat → Mem → Mem) (write : Mem → Nat → Nat → Mem) (size stride : Nat) : Prop where
  zero : ∀ dest other mem, loop 0 dest other mem = mem
  succ : ∀ n dest other mem, loop (n + 1) dest other mem = loop n (dest + size) (other + stride) (write mem dest other)

theorem rep_stosl_upward : Upward repStosl writeWord 4 0 := ⟨fun _ _ _ => rfl, fun _ _ _ _ => rfl⟩

theorem rep_stosw_upward : Upward repStosw writeHalf 2 0 := ⟨fun _ _ _ => rfl, fun _ _ _ _ => rfl⟩

theorem rep_stosb_upward : Upward (fun n dest value => repStosb n dest (UInt8.ofNat value))
    (fun mem dest value => writeByte mem dest (UInt8.ofNat value)) 1 0 :=
  ⟨fun _ _ _ => rfl, fun _ _ _ _ => rfl⟩

theorem rep_movsl_upward : Upward repMovsl (fun mem dest src => writeWord mem dest (readWord mem src)) 4 4 :=
  ⟨fun _ _ _ => rfl, fun _ _ _ _ => rfl⟩

theorem rep_movsb_upward : Upward repMovsb (fun mem dest src => writeByte mem dest (mem src)) 1 1 :=
  ⟨fun _ _ _ => rfl, fun _ _ _ _ => rfl⟩

theorem still_or_more (stride n : Nat) (positive : 0 < n) : stride = 0 ∨ 0 < stride * n := by
  cases Nat.eq_zero_or_pos stride with
  | inl still => exact .inl still
  | inr moving => exact .inr (Nat.mul_pos moving positive)

section Iterations

variable {instr instr' : Core → Core} {other : Core → Nat} {write write' : Mem → Nat → Nat → Mem}
  {size size' stride stride' : Nat}

-- Only the pointer behind the last element may wrap, and nothing is accessed through it.
theorem iterate_upward (strides : Strides instr other write size stride) (loop : Nat → Nat → Nat → Mem → Mem)
    (upward : Upward loop write size stride) (n : Nat) (core : Core) (up : core.df = false)
    (room : core.edi + size * n ≤ 2 ^ 32) (otherRoom : stride = 0 ∨ other core + stride * n ≤ 2 ^ 32) :
    (instr^[n] core).mem = loop n core.edi (other core) core.mem ∧ (instr^[n] core).df = false ∧
      (core.edi + size * n < 2 ^ 32 → stride = 0 ∨ other core + stride * n < 2 ^ 32 →
        (instr^[n] core).edi = core.edi + size * n ∧ other (instr^[n] core) = other core + stride * n) := by
  induction n generalizing core with
  | zero => exact ⟨(upward.zero _ _ _).symm, up, fun _ _ => ⟨rfl, rfl⟩⟩
  | succ n ih =>
      rw [Nat.mul_add, Nat.mul_one] at room otherRoom
      rw [Nat.mul_add, Nat.mul_one, Nat.mul_add, Nat.mul_one, Function.iterate_succ_apply, upward.succ, ← strides.mem]
      have up' : (instr core).df = false := (strides.df core).trans up
      by_cases fits : core.edi + size < 2 ^ 32 ∧ (stride = 0 ∨ other core + stride < 2 ^ 32)
      · have moved : (instr core).edi = core.edi + size :=
          (strides.edi core).trans (advance_up core core.edi size up fits.1)
        have taken : other (instr core) = other core + stride := strides.moves core up fits.2
        obtain ⟨stored, clear, pointers⟩ := ih (instr core) up' (by rw [moved]; omega) (by rw [taken]; omega)
        rw [moved, taken] at stored pointers
        refine ⟨stored, clear, ?_⟩
        intro below otherBelow
        obtain ⟨edi, source⟩ := pointers (by omega) (by omega)
        rw [edi, source]
        omega
      · obtain rfl : n = 0 := by
          by_contra nonzero
          have more : 0 < size * n := Nat.mul_pos strides.positive (Nat.pos_of_ne_zero nonzero)
          have otherMore := still_or_more stride n (Nat.pos_of_ne_zero nonzero)
          omega
        exact ⟨(upward.zero _ _ _).symm, up', fun below otherBelow => absurd fits (by omega)⟩

theorem rep_pair (strides : Strides instr other write size stride)
    (strides' : Strides instr' other write' size' stride') (first second : Nat → Nat → Nat → Mem → Mem)
    (upward : Upward first write size stride) (upward' : Upward second write' size' stride') (n : Nat) (core : Core)
    (up : core.df = false) (room : core.edi + size * core.ecx + size' * n ≤ 2 ^ 32)
    (otherRoom : (stride = 0 ∧ stride' = 0) ∨ (0 < stride' ∧ other core + stride * core.ecx + stride' * n ≤ 2 ^ 32)) :
    (rep instr' { rep instr core with ecx := n }).mem =
      second n (core.edi + size * core.ecx) (other core + stride * core.ecx)
        (first core.ecx core.edi (other core) core.mem) := by
  obtain ⟨stored, clear, pointers⟩ := iterate_upward strides first upward core.ecx core up (by omega) (by omega)
  simp only [rep]
  cases n with
  | zero => rw [Function.iterate_zero_apply, upward'.zero, stored]
  | succ n =>
      have more : 0 < size' * (n + 1) := Nat.mul_pos strides'.positive n.succ_pos
      have otherMore := still_or_more stride' (n + 1) n.succ_pos
      obtain ⟨edi, source⟩ := pointers (by omega) (by omega)
      have rest := iterate_upward strides' second upward' (n + 1) { instr^[core.ecx] core with ecx := n + 1 } clear
        (by dsimp only; omega) (by rw [strides'.counted]; omega)
      rw [rest.1, strides'.counted]
      dsimp only
      rw [edi, source, stored]

end Iterations

theorem replicated_low (v : UInt8) :
    UInt8.ofNat ((v.toNat ||| v.toNat <<< 8) ||| (v.toNat ||| v.toNat <<< 8) <<< 16) = v := by
  have byte := v.toNat_lt
  have first : v.toNat ||| v.toNat <<< 8 = v.toNat + 2 ^ 8 * v.toNat := or_shift_add _ _ _ byte
  rw [first, or_shift_add _ _ 16 (by omega)]
  exact (byte_congr _ v.toNat (by omega)).trans UInt8.ofNat_toNat

theorem kmemset_refines (dest count : Nat) (value : UInt8) (core : Core) (room : dest + count ≤ 2 ^ 32) :
    (kmemset dest value count core).2.mem = X86OS.kmemset dest value count core.mem := by
  have run := rep_pair (stos_strides writeWord 4 (by decide)) (stos_strides _ 1 (by decide)) repStosl _
    rep_stosl_upward rep_stosb_upward
  simp only [kmemset]
  rw [stosl, stosb, run _ _ rfl (by dsimp only [cld]; omega) (.inl ⟨rfl, rfl⟩)]
  dsimp only [cld]
  rw [Nat.zero_mul, Nat.add_zero, replicated_low]
  rfl

theorem kwmemset_refines (dest count : Nat) (value : UInt16) (core : Core) (room : dest + 2 * count ≤ 2 ^ 32) :
    (kwmemset dest value count core).2.mem = X86OS.kwmemset dest value.toNat count core.mem := by
  have run := rep_pair (stos_strides writeWord 4 (by decide)) (stos_strides writeHalf 2 (by decide)) repStosl repStosw
    rep_stosl_upward rep_stosw_upward
  simp only [kwmemset]
  rw [stosl, stosw, run _ _ rfl (by dsimp only [cld]; omega) (.inl ⟨rfl, rfl⟩)]
  dsimp only [cld]
  rw [Nat.zero_mul, Nat.add_zero]
  rfl

theorem kmemcpy_refines (dest src count : Nat) (core : Core) (destRoom : dest + count ≤ 2 ^ 32)
    (srcRoom : src + count ≤ 2 ^ 32) :
    (kmemcpy dest src count core).2.mem = X86OS.kmemcpy dest src count core.mem := by
  have run := rep_pair (movs_strides _ 4 (by decide)) (movs_strides _ 1 (by decide)) repMovsl repMovsb
    rep_movsl_upward rep_movsb_upward
  simp only [kmemcpy]
  rw [movsl, movsb, run _ _ rfl (by dsimp only [cld]; omega) (.inr ⟨by decide, by dsimp only [cld]; omega⟩)]
  rfl

theorem fill_halves_read (mem : Mem) (dest count i : Nat) (value : UInt16) (inside : i < count) :
    readHalf (fillHalves mem dest count value.toNat) (dest + 2 * i) = value.toNat := by
  have bound := value.toNat_lt
  rw [readHalf, fill_halves_low mem dest count value.toNat i inside,
    fill_halves_high mem dest count value.toNat i inside, UInt8.toNat_ofNat', UInt8.toNat_ofNat']
  omega

theorem memory_routines_bytewise (core : Core) (dest count : Nat) :
    (∀ value : UInt8, dest + count ≤ 2 ^ 32 →
      (∀ j < count, (kmemset dest value count core).2.mem (dest + j) = value) ∧
      ∀ x, x < dest ∨ dest + count ≤ x → (kmemset dest value count core).2.mem x = core.mem x) ∧
    (∀ value : UInt16, dest + 2 * count ≤ 2 ^ 32 →
      (∀ j < count, readHalf (kwmemset dest value count core).2.mem (dest + 2 * j) = value.toNat) ∧
      ∀ x, x < dest ∨ dest + 2 * count ≤ x → (kwmemset dest value count core).2.mem x = core.mem x) ∧
    (∀ src, dest + count ≤ 2 ^ 32 → src + count ≤ 2 ^ 32 → (dest + count ≤ src ∨ src + count ≤ dest) ∨ dest ≤ src →
      (∀ j < count, (kmemcpy dest src count core).2.mem (dest + j) = core.mem (src + j)) ∧
      ∀ x, x < dest ∨ dest + count ≤ x → (kmemcpy dest src count core).2.mem x = core.mem x) := by
  refine ⟨?_, ?_, ?_⟩
  · intro value room
    rw [kmemset_refines dest count value core room, kmemset_eq_fill]
    exact ⟨fun j inside => fill_inside _ _ _ _ _ (by omega) (by omega), fun x outside => fill_frame _ _ _ _ _ outside⟩
  · intro value room
    rw [kwmemset_refines dest count value core room, kwmemset_eq_fill _ _ _ _ value.toNat_lt]
    exact ⟨fun j inside => fill_halves_read _ _ _ _ _ inside, fun x outside => fill_halves_frame _ _ _ _ _ outside⟩
  · intro src destRoom srcRoom safe
    have forward : ForwardSafe dest src count := by
      unfold ForwardSafe
      omega
    rw [kmemcpy_refines dest src count core destRoom srcRoom, kmemcpy_eq_copy dest src count core.mem forward]
    exact ⟨fun j inside => copy_inside _ _ _ _ _ inside, fun x outside => copy_frame _ _ _ _ _ outside⟩

-- An overlapping copy downwards at the very end of the address space, started with the
-- direction flag set.
theorem memory_routines_bytewise_overlap :
    (kmemcpy 0xfffffff8 0xfffffffb 5 ⟨0, 0, 0, 0, true, UInt8.ofNat⟩).2.mem 0xfffffffa = 0xfd ∧
      (kmemset 0xfffffff9 0x2a 7 ⟨0, 0, 0, 0, true, UInt8.ofNat⟩).2.mem 0xffffffff = 0x2a ∧
      readHalf (kwmemset 0xfffffffa 0x0720 3 ⟨0, 0, 0, 0, true, UInt8.ofNat⟩).2.mem 0xfffffffe = 0x0720 :=
  ⟨(((memory_routines_bytewise _ 0xfffffff8 5).2.2 0xfffffffb (by decide) (by decide) (.inr (by decide))).1 2
    (by decide)).trans rfl, ((memory_routines_bytewise _ 0xfffffff9 7).1 0x2a (by decide)).1 6 (by decide),
    ((memory_routines_bytewise _ 0xfffffffa 3).2.1 0x0720 (by decide)).1 2 (by decide)⟩

end X86OS.RepString
