import X86OS.Lib.Memory

set_option autoImplicit false

namespace X86OS.Machine

open Mem

-- A segment descriptor, as the processor puts its eight bytes together.
structure Descriptor where
  base : Nat
  limit : Nat
  access : Nat
  flags : Nat
deriving DecidableEq, Repr

def descriptorAt (mem : Mem) (a : Nat) : Descriptor where
  base := readHalf mem (a + 2) + 2 ^ 16 * (mem (a + 4)).toNat + 2 ^ 24 * (mem (a + 7)).toNat
  limit := readHalf mem a + 2 ^ 16 * ((mem (a + 6)).toNat % 2 ^ 4)
  access := (mem (a + 5)).toNat
  flags := (mem (a + 6)).toNat / 2 ^ 4

namespace Descriptor

def present (d : Descriptor) : Bool := d.access.testBit 7

def dpl (d : Descriptor) : Nat := d.access / 2 ^ 5 % 4

-- A code or data segment, not a system descriptor.
def plain (d : Descriptor) : Bool := d.access.testBit 4

def code (d : Descriptor) : Bool := d.access.testBit 3

def conforming (d : Descriptor) : Bool := d.code && d.access.testBit 2

-- Readable code, or writable data.
def accessible (d : Descriptor) : Bool := d.access.testBit 1

-- Whether `ds`, `es`, `fs` or `gs`, `ss`, and `cs` on a return from ring 0 take it with this `rpl`.
def holdsData (d : Descriptor) (cpl rpl : Nat) : Bool :=
  d.present && d.plain && (!d.code || d.accessible) && (d.conforming || decide (max cpl rpl ≤ d.dpl))

def holdsStack (d : Descriptor) (cpl rpl : Nat) : Bool :=
  d.present && d.plain && !d.code && d.accessible && decide (d.dpl = cpl ∧ rpl = cpl)

def holdsCode (d : Descriptor) (rpl : Nat) : Bool :=
  d.present && d.plain && d.code && (if d.conforming then decide (d.dpl ≤ rpl) else decide (d.dpl = rpl))

-- Without the bit that the processor itself sets: accessed for a segment that it loads, busy for a task state segment.
def unmarked (d : Descriptor) : Descriptor := { d with access := d.access &&& if d.plain then 0xFE else 0xFD }

theorem unmarked_bit (d : Descriptor) (i : Nat) (low : 2 ≤ i) (high : i < 8) :
    d.unmarked.access.testBit i = d.access.testBit i := by
  have masks : Nat.testBit 0xFE i = true ∧ Nat.testBit 0xFD i = true := by
    revert i
    decide
  simp only [unmarked, Nat.testBit_and]
  split
  · rw [masks.1, Bool.and_true]
  · rw [masks.2, Bool.and_true]

@[simp] theorem unmarked_present (d : Descriptor) : d.unmarked.present = d.present :=
  unmarked_bit d 7 (by decide) (by decide)

@[simp] theorem unmarked_plain (d : Descriptor) : d.unmarked.plain = d.plain := unmarked_bit d 4 (by decide) (by decide)

@[simp] theorem unmarked_code (d : Descriptor) : d.unmarked.code = d.code := unmarked_bit d 3 (by decide) (by decide)

@[simp] theorem unmarked_conforming (d : Descriptor) : d.unmarked.conforming = d.conforming := by
  rw [conforming, conforming, unmarked_code, unmarked_bit d 2 (by decide) (by decide)]

@[simp] theorem unmarked_dpl (d : Descriptor) : d.unmarked.dpl = d.dpl := by
  refine Nat.eq_of_testBit_eq (fun i => ?_)
  rw [dpl, dpl, show 4 = 2 ^ 2 from rfl, Nat.testBit_mod_two_pow, Nat.testBit_mod_two_pow, Nat.testBit_div_two_pow,
    Nat.testBit_div_two_pow]
  by_cases small : i < 2
  · rw [unmarked_bit d (i + 5) (by omega) (by omega)]
  · simp [small]

theorem unmarked_accessible (d : Descriptor) (plain : d.plain = true) : d.unmarked.accessible = d.accessible := by
  rw [accessible, accessible, unmarked, if_pos plain, Nat.testBit_and]
  exact Bool.and_true _

-- The processor looks at neither of the two bits when it loads a segment.
@[simp] theorem unmarked_holds_data (d : Descriptor) (cpl rpl : Nat) :
    d.unmarked.holdsData cpl rpl = d.holdsData cpl rpl := by
  cases plain : d.plain with
  | false => simp [holdsData, plain]
  | true => simp [holdsData, plain, unmarked_accessible d plain]

@[simp] theorem unmarked_holds_stack (d : Descriptor) (cpl rpl : Nat) :
    d.unmarked.holdsStack cpl rpl = d.holdsStack cpl rpl := by
  cases plain : d.plain with
  | false => simp [holdsStack, plain]
  | true => simp [holdsStack, plain, unmarked_accessible d plain]

@[simp] theorem unmarked_holds_code (d : Descriptor) (rpl : Nat) : d.unmarked.holdsCode rpl = d.holdsCode rpl := by
  simp [holdsCode]

theorem any_unmarked (p : Descriptor → Bool) (same : ∀ d : Descriptor, p d.unmarked = p d) (found : Option Descriptor) :
    found.any p = (found.map unmarked).any p := by
  cases found with
  | none => rfl
  | some d => exact (same d).symm

end Descriptor

-- What the processor writes into a descriptor that it loads a segment from, and `ltr` into the one of the task.
def setAccessed (a : Nat) (mem : Mem) : Mem := writeByte mem (a + 5) (mem (a + 5) ||| 1)

def setBusy (a : Nat) (mem : Mem) : Mem := writeByte mem (a + 5) (mem (a + 5) ||| 2)

structure Gate where
  offset : Nat
  selector : Nat
  kind : Nat
  dpl : Nat
  present : Bool
deriving DecidableEq, Repr

def gateAt (mem : Mem) (a : Nat) : Gate where
  offset := readHalf mem a + 2 ^ 16 * readHalf mem (a + 6)
  selector := readHalf mem (a + 2)
  kind := (mem (a + 5)).toNat % 2 ^ 5
  dpl := (mem (a + 5)).toNat / 2 ^ 5 % 4
  present := (mem (a + 5)).toNat.testBit 7

def interruptGate : Nat := 0x0E

theorem descriptor_congr (mem mem' : Mem) (a : Nat) (same : ∀ x, a ≤ x → x < a + 8 → mem' x = mem x) :
    descriptorAt mem' a = descriptorAt mem a := by
  simp only [descriptorAt, readHalf]
  rw [same a (by omega) (by omega), same (a + 1) (by omega) (by omega), same (a + 2) (by omega) (by omega),
    same (a + 2 + 1) (by omega) (by omega), same (a + 4) (by omega) (by omega), same (a + 5) (by omega) (by omega),
    same (a + 6) (by omega) (by omega), same (a + 7) (by omega) (by omega)]

theorem gate_congr (mem mem' : Mem) (a : Nat) (same : ∀ x, a ≤ x → x < a + 8 → mem' x = mem x) :
    gateAt mem' a = gateAt mem a := by
  simp only [gateAt, readHalf]
  rw [same a (by omega) (by omega), same (a + 1) (by omega) (by omega), same (a + 2) (by omega) (by omega),
    same (a + 2 + 1) (by omega) (by omega), same (a + 5) (by omega) (by omega), same (a + 6) (by omega) (by omega),
    same (a + 6 + 1) (by omega) (by omega)]

theorem access_byte (mem : Mem) (a : Nat) (byte : UInt8) :
    descriptorAt (writeByte mem (a + 5) byte) a = { descriptorAt mem a with access := byte.toNat } := by
  simp [descriptorAt, readHalf, writeByte]

theorem set_accessed_here (mem : Mem) (a : Nat) (plain : (descriptorAt mem a).plain = true) :
    (descriptorAt (setAccessed a mem) a).unmarked = (descriptorAt mem a).unmarked := by
  have still : ((mem (a + 5)).toNat ||| 1).testBit 4 = true := by
    rw [Nat.testBit_or, show (mem (a + 5)).toNat.testBit 4 = true from plain]
    rfl
  rw [setAccessed, access_byte, UInt8.toNat_or]
  simp only [Descriptor.unmarked, Descriptor.plain, descriptorAt, UInt8.reduceToNat, still,
    show (mem (a + 5)).toNat.testBit 4 = true from plain, if_true, Nat.and_or_distrib_right, Nat.reduceAnd, Nat.or_zero]

theorem set_busy_here (mem : Mem) (a : Nat) (system : (descriptorAt mem a).plain = false) :
    (descriptorAt (setBusy a mem) a).unmarked = (descriptorAt mem a).unmarked := by
  have still : ((mem (a + 5)).toNat ||| 2).testBit 4 = false := by
    rw [Nat.testBit_or, show (mem (a + 5)).toNat.testBit 4 = false from system]
    rfl
  rw [setBusy, access_byte, UInt8.toNat_or]
  simp only [Descriptor.unmarked, Descriptor.plain, descriptorAt, UInt8.reduceToNat, still,
    show (mem (a + 5)).toNat.testBit 4 = false from system,
    Bool.false_eq_true, if_false, Nat.and_or_distrib_right, Nat.reduceAnd, Nat.or_zero]

-- A table of descriptors holds the same segments, whatever the processor marked.
def SameSegments (gdt limit : Nat) (mem mem' : Mem) : Prop :=
  ∀ i, 8 * i + 7 ≤ limit → (descriptorAt mem' (gdt + 8 * i)).unmarked = (descriptorAt mem (gdt + 8 * i)).unmarked

section Segments

variable {gdt limit : Nat} {mem mem' mem'' : Mem}

theorem same_segments_trans (first : SameSegments gdt limit mem mem') (second : SameSegments gdt limit mem' mem'') :
    SameSegments gdt limit mem mem'' := fun i inside => (second i inside).trans (first i inside)

theorem same_segments_bytes (same : ∀ x, gdt ≤ x → x ≤ gdt + limit → mem' x = mem x) :
    SameSegments gdt limit mem mem' := by
  intro i inside
  rw [descriptor_congr mem mem' _ (fun x low high => same x (by omega) (by omega))]

theorem same_segments_slot (k : Nat) (byte : UInt8)
    (here : (descriptorAt (writeByte mem (gdt + 8 * k + 5) byte) (gdt + 8 * k)).unmarked =
      (descriptorAt mem (gdt + 8 * k)).unmarked) :
    SameSegments gdt limit mem (writeByte mem (gdt + 8 * k + 5) byte) := by
  intro i _
  by_cases slot : i = k
  · rw [slot, here]
  · rw [descriptor_congr mem _ _ (fun x low high => write_byte_frame _ _ _ _ (by omega))]

theorem set_accessed_segments (k : Nat) (plain : (descriptorAt mem (gdt + 8 * k)).plain = true) :
    SameSegments gdt limit mem (setAccessed (gdt + 8 * k) mem) :=
  same_segments_slot k _ (set_accessed_here mem _ plain)

theorem set_busy_segments (k : Nat) (system : (descriptorAt mem (gdt + 8 * k)).plain = false) :
    SameSegments gdt limit mem (setBusy (gdt + 8 * k) mem) :=
  same_segments_slot k _ (set_busy_here mem _ system)

end Segments

section Tables

variable {ε : Type} (slot : ε → Nat) (write : ε → Mem → Mem) (table : Nat)

-- Writes that each stay in the eight bytes of their own slot of a table.
def KeepsSlots : Prop :=
  ∀ e mem x, x < table + 8 * slot e ∨ table + 8 * slot e + 8 ≤ x → write e mem x = mem x

theorem writes_read_back {α : Type} (view : Mem → Nat → α) (value : ε → α) (keeps : KeepsSlots slot write table)
    (congr : ∀ mem mem' a, (∀ x, a ≤ x → x < a + 8 → mem' x = mem x) → view mem' a = view mem a)
    (here : ∀ e mem, view (write e mem) (table + 8 * slot e) = value e) (entries : List ε) (mem : Mem) (i : Nat) :
    view (entries.foldl (fun mem e => write e mem) mem) (table + 8 * i) =
      ((entries.reverse.find? (fun e => slot e = i)).map value).getD (view mem (table + 8 * i)) := by
  induction entries using List.reverseRecOn with
  | nil => rfl
  | append_singleton entries e ih =>
      rw [List.foldl_append, List.foldl_cons, List.foldl_nil, List.reverse_append, List.reverse_singleton,
        List.singleton_append, List.find?_cons]
      by_cases same : slot e = i
      · simp only [same, decide_true, Option.map_some, Option.getD_some]
        rw [← same, here]
      · simp only [same, decide_false]
        rw [← ih]
        exact congr _ _ _ (fun x low high => keeps e _ x (by omega))

theorem writes_outside (keeps : KeepsSlots slot write table) (entries : List ε) (mem : Mem) (x : Nat)
    (outside : ∀ e ∈ entries, x < table + 8 * slot e ∨ table + 8 * slot e + 8 ≤ x) :
    entries.foldl (fun mem e => write e mem) mem x = mem x := by
  induction entries generalizing mem with
  | nil => rfl
  | cons e entries ih =>
      rw [List.foldl_cons, ih _ (fun e' member => outside e' (List.mem_cons_of_mem _ member))]
      exact keeps e mem x (outside e List.mem_cons_self)

theorem writes_frame (keeps : KeepsSlots slot write table) (count : Nat) (entries : List ε)
    (inside : ∀ e ∈ entries, slot e < count) (mem : Mem) (x : Nat) (outside : x < table ∨ table + 8 * count ≤ x) :
    entries.foldl (fun mem e => write e mem) mem x = mem x := by
  refine writes_outside slot write table keeps entries mem x (fun e member => ?_)
  have small := inside e member
  omega

end Tables

end X86OS.Machine
