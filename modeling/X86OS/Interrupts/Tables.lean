import X86OS.Lib.Descriptors
import X86OS.Lib.Word

set_option autoImplicit false

namespace X86OS.Interrupts

open Mem Machine

-- The arguments of a call of `fill_gdt`.
structure Segment where
  idx : Nat
  base : Nat
  limit : Nat
  access : Nat
  flags : Nat

def fillGdt (gdt : Nat) (s : Segment) (mem : Mem) : Mem :=
  let a := gdt + 8 * s.idx
  let mem := writeHalf mem (a + 2) s.base
  let mem := writeByte mem (a + 4) (UInt8.ofNat (s.base >>> 16))
  let mem := writeByte mem (a + 7) (UInt8.ofNat (s.base >>> 24))
  let mem := writeHalf mem a s.limit
  let mem := writeByte mem (a + 6) (UInt8.ofNat ((0xF &&& s.flags) <<< 4 ||| (0xF &&& (s.limit >>> 16))))
  writeByte mem (a + 5) (UInt8.ofNat s.access)

def sizeofTss : Nat := 27 * 4

def segments (tss : Nat) : List Segment :=
  [⟨0, 0, 0, 0, 0⟩,
    ⟨1, 0, 0xFFFFF, 0b10011010, 0b1100⟩, ⟨2, 0, 0xFFFFF, 0b10010010, 0b1100⟩,
    ⟨3, 0, 0xFFFFF, 0b11111010, 0b1100⟩, ⟨4, 0, 0xFFFFF, 0b11110010, 0b1100⟩,
    ⟨5, tss, sizeofTss - 1, 0b10001001, 0b0000⟩]

def fillAll (gdt : Nat) (calls : List Segment) (mem : Mem) : Mem := calls.foldl (fun mem s => fillGdt gdt s mem) mem

-- The far jump loads `cs`, and then `ds`, `es`, `fs`, `gs` and `ss` are loaded.
def gdtFlush (gdt : Nat) (mem : Mem) : Mem :=
  [0x08, 0x10, 0x10, 0x10, 0x10, 0x10].foldl (fun mem selector => setAccessed (gdt + 8 * (selector / 8)) mem) mem

def initGdt (gdt tss : Nat) (mem : Mem) : Mem := gdtFlush gdt (fillAll gdt (segments tss) mem)

-- The store to `tss.ss0` and the `ltr`.
def initTss (gdt tss : Nat) (mem : Mem) : Mem := setBusy (gdt + 8 * 5) (writeWord mem (tss + 8) (2 <<< 3 ||| 0 ||| 0))

def setIdtEntry (idt vector isr attributes : Nat) (mem : Mem) : Mem :=
  let a := idt + 8 * vector
  let mem := writeHalf mem a (isr &&& 0xFFFF)
  let mem := writeHalf mem (a + 2) 0x08
  let mem := writeByte mem (a + 4) 0
  let mem := writeByte mem (a + 5) (UInt8.ofNat attributes)
  writeHalf mem (a + 6) (isr >>> 16)

-- `table` is `isr_stub_table`.
def initIdt (idt table : Nat) (mem : Mem) : Mem :=
  let mem := fill mem idt (8 * 256) 0
  let mem := (List.range 256).foldl (fun mem i => setIdtEntry idt i (readWord mem (table + 4 * i)) 0x8E mem) mem
  writeByte mem (idt + 8 * 0x80 + 5) 0b11101110

-- What the processor is to find for a call of `fill_gdt`.
def Segment.described (s : Segment) : Descriptor :=
  ⟨s.base % 2 ^ 32, s.limit % 2 ^ 20, s.access % 2 ^ 8, s.flags % 2 ^ 4⟩

theorem nibbles (high low : Nat) : (0xF &&& high) <<< 4 ||| (0xF &&& low) = 2 ^ 4 * (high % 2 ^ 4) + low % 2 ^ 4 := by
  have mask (n : Nat) : 0xF &&& n = n % 2 ^ 4 := by
    rw [Nat.and_comm]
    exact Nat.and_two_pow_sub_one_eq_mod n 4
  have small : low % 2 ^ 4 < 2 ^ 4 := Nat.mod_lt _ (by decide)
  rw [mask, mask, Nat.shiftLeft_eq, Nat.mul_comm, Word.or_low_eq_add _ _ 4 (Dvd.intro _ rfl) small]

theorem fill_gdt_here (gdt : Nat) (s : Segment) (mem : Mem) :
    descriptorAt (fillGdt gdt s mem) (gdt + 8 * s.idx) = s.described := by
  have word : s.limit >>> 16 = s.limit / 2 ^ 16 := Nat.shiftRight_eq_div_pow _ _
  have middle : s.base >>> 16 = s.base / 2 ^ 16 := Nat.shiftRight_eq_div_pow _ _
  have top : s.base >>> 24 = s.base / 2 ^ 24 := Nat.shiftRight_eq_div_pow _ _
  simp only [fillGdt, nibbles, word, middle, top]
  generalize gdt + 8 * s.idx = a
  simp only [descriptorAt, readHalf, Segment.described, writeByte, writeHalf]
  simp only [Nat.add_right_inj, Nat.add_eq_left, Nat.left_eq_add, Nat.add_assoc, Nat.reduceAdd, Nat.reduceEqDiff,
    OfNat.ofNat_ne_zero, if_true, if_false, OfNat.ofNat_ne_one, OfNat.one_ne_ofNat, one_ne_zero, UInt8.toNat_ofNat',
    Descriptor.mk.injEq]
  have flags : s.flags % 2 ^ 4 < 2 ^ 4 := Nat.mod_lt _ (by decide)
  have high : s.limit / 2 ^ 16 % 2 ^ 4 < 2 ^ 4 := Nat.mod_lt _ (by decide)
  have byte : (2 ^ 4 * (s.flags % 2 ^ 4) + s.limit / 2 ^ 16 % 2 ^ 4) % 2 ^ 8 =
      2 ^ 4 * (s.flags % 2 ^ 4) + s.limit / 2 ^ 16 % 2 ^ 4 :=
    Nat.mod_eq_of_lt (by omega)
  rw [byte]
  refine ⟨by omega, ?_, trivial, by omega⟩
  rw [Nat.mul_add_mod, Nat.mod_mod]
  omega

theorem fill_gdt_keeps (gdt : Nat) : KeepsSlots Segment.idx (fillGdt gdt) gdt := by
  intro s mem x outside
  simp only [fillGdt]
  rw [write_byte_frame _ _ _ _ (by omega), write_byte_frame _ _ _ _ (by omega), write_half_frame _ _ _ _ (by omega),
    write_byte_frame _ _ _ _ (by omega), write_byte_frame _ _ _ _ (by omega), write_half_frame _ _ _ _ (by omega)]

theorem fill_gdt_calls (gdt : Nat) (calls : List Segment) (mem : Mem) (i : Nat) :
    descriptorAt (fillAll gdt calls mem) (gdt + 8 * i) =
      ((calls.reverse.find? (fun s => s.idx = i)).map Segment.described).getD (descriptorAt mem (gdt + 8 * i)) :=
  writes_read_back Segment.idx (fillGdt gdt) gdt descriptorAt Segment.described (fill_gdt_keeps gdt) descriptor_congr
    (fill_gdt_here gdt) calls mem i

-- Any calls in any order read back as the processor decodes them, and touch no byte of another slot.
theorem gdt_round_trip (gdt : Nat) (calls : List Segment) (mem : Mem) :
    (∀ i, descriptorAt (fillAll gdt calls mem) (gdt + 8 * i) =
      ((calls.reverse.find? (fun s => s.idx = i)).map Segment.described).getD (descriptorAt mem (gdt + 8 * i))) ∧
    ∀ x, (∀ s ∈ calls, x < gdt + 8 * s.idx ∨ gdt + 8 * s.idx + 8 ≤ x) → fillAll gdt calls mem x = mem x :=
  ⟨fill_gdt_calls gdt calls mem, writes_outside Segment.idx (fillGdt gdt) gdt (fill_gdt_keeps gdt) calls mem⟩

-- The table as `init_gdt` fills it, whatever the processor has marked in it since.
def GdtReady (gdt tss : Nat) (mem : Mem) : Prop :=
  ∀ s ∈ segments tss, (descriptorAt mem (gdt + 8 * s.idx)).unmarked = s.described

theorem segment_slot (tss : Nat) (s : Segment) (member : s ∈ segments tss) : s.idx < 6 := by
  simp only [segments, List.mem_cons, List.not_mem_nil, or_false] at member
  rcases member with rfl | rfl | rfl | rfl | rfl | rfl <;> simp

theorem gdt_ready_same (gdt tss : Nat) (mem mem' : Mem) (ready : GdtReady gdt tss mem)
    (same : SameSegments gdt (8 * 6 - 1) mem mem') :
    GdtReady gdt tss mem' := by
  intro s member
  have small := segment_slot tss s member
  rw [same s.idx (by omega), ready s member]

theorem described_unmarked (tss : Nat) (s : Segment) (member : s ∈ segments tss) :
    s.described.unmarked = s.described := by
  have access : ∀ byte ∈ (segments tss).map Segment.access,
      byte % 2 ^ 8 &&& (if (byte % 2 ^ 8).testBit 4 then 0xFE else 0xFD) = byte % 2 ^ 8 := by
    change ∀ byte ∈ [0, 0b10011010, 0b10010010, 0b11111010, 0b11110010, 0b10001001], _
    decide
  exact congrArg (fun byte => { s.described with access := byte }) (access _ (List.mem_map_of_mem member))

theorem fill_all_ready (gdt tss : Nat) (mem : Mem) : GdtReady gdt tss (fillAll gdt (segments tss) mem) := by
  intro s member
  have filled : descriptorAt (fillAll gdt (segments tss) mem) (gdt + 8 * s.idx) = s.described := by
    rw [fill_gdt_calls]
    simp only [segments, List.mem_cons, List.not_mem_nil, or_false] at member
    rcases member with rfl | rfl | rfl | rfl | rfl | rfl <;> rfl
  rw [filled, described_unmarked tss s member]

theorem loads_segments (gdt limit : Nat) (selectors : List Nat) (mem : Mem)
    (inside : ∀ selector ∈ selectors, 8 * (selector / 8) + 7 ≤ limit)
    (plain : ∀ selector ∈ selectors, (descriptorAt mem (gdt + 8 * (selector / 8))).plain = true) :
    SameSegments gdt limit mem
      (selectors.foldl (fun mem selector => setAccessed (gdt + 8 * (selector / 8)) mem) mem) := by
  induction selectors generalizing mem with
  | nil => exact fun _ _ => rfl
  | cons selector selectors ih =>
      rw [List.forall_mem_cons] at inside plain
      have first : SameSegments gdt limit mem _ := set_accessed_segments (selector / 8) plain.1
      refine same_segments_trans first (ih _ inside.2 (fun other member => ?_))
      rw [← Descriptor.unmarked_plain, first _ (inside.2 other member), Descriptor.unmarked_plain]
      exact plain.2 other member

theorem gdt_flush_segments (gdt tss : Nat) (mem : Mem) (ready : GdtReady gdt tss mem) :
    SameSegments gdt (8 * 6 - 1) mem (gdtFlush gdt mem) := by
  have plain (s : Segment) (member : s ∈ segments tss) :
      (descriptorAt mem (gdt + 8 * s.idx)).plain = s.described.plain := by
    rw [← Descriptor.unmarked_plain, ready s member]
  have code : (descriptorAt mem (gdt + 8 * 1)).plain = true :=
    plain ⟨1, 0, 0xFFFFF, 0b10011010, 0b1100⟩ (by simp [segments])
  have data : (descriptorAt mem (gdt + 8 * 2)).plain = true :=
    plain ⟨2, 0, 0xFFFFF, 0b10010010, 0b1100⟩ (by simp [segments])
  refine loads_segments gdt _ _ mem (by decide) ?_
  simp only [List.forall_mem_cons, Nat.reduceDiv]
  exact ⟨code, data, data, data, data, data, by simp⟩

theorem init_gdt_ready (gdt tss : Nat) (mem : Mem) : GdtReady gdt tss (initGdt gdt tss mem) := by
  have filled := fill_all_ready gdt tss mem
  exact gdt_ready_same gdt tss _ _ filled (gdt_flush_segments gdt tss _ filled)

theorem init_tss_segments (gdt tss : Nat) (mem : Mem) (ready : GdtReady gdt tss mem)
    (apart : tss + sizeofTss ≤ gdt ∨ gdt + 8 * 6 ≤ tss) :
    SameSegments gdt (8 * 6 - 1) mem (initTss gdt tss mem) := by
  rw [sizeofTss] at apart
  have written : SameSegments gdt (8 * 6 - 1) mem (writeWord mem (tss + 8) (2 <<< 3 ||| 0 ||| 0)) :=
    same_segments_bytes (fun x low high => write_word_frame _ _ _ _ (by omega))
  refine same_segments_trans written (set_busy_segments 5 ?_)
  have slot := gdt_ready_same gdt tss _ _ ready written ⟨5, tss, sizeofTss - 1, 0b10001001, 0b0000⟩ (by simp [segments])
  rw [← Descriptor.unmarked_plain, slot]
  change (0b10001001 % 2 ^ 8).testBit 4 = false
  decide

theorem set_accessed_frame (a x : Nat) (mem : Mem) (outside : x < a ∨ a + 8 ≤ x) : setAccessed a mem x = mem x :=
  write_byte_frame _ _ _ _ (by omega)

theorem init_gdt_frame (gdt tss : Nat) (mem : Mem) (x : Nat) (outside : x < gdt ∨ gdt + 8 * 6 ≤ x) :
    initGdt gdt tss mem x = mem x := by
  simp only [initGdt, gdtFlush, List.foldl_cons, List.foldl_nil, Nat.reduceDiv]
  rw [set_accessed_frame _ _ _ (by omega), set_accessed_frame _ _ _ (by omega), set_accessed_frame _ _ _ (by omega),
    set_accessed_frame _ _ _ (by omega), set_accessed_frame _ _ _ (by omega), set_accessed_frame _ _ _ (by omega)]
  exact writes_frame Segment.idx (fillGdt gdt) gdt (fill_gdt_keeps gdt) 6 (segments tss)
    (segment_slot tss) mem x outside

theorem init_tss_frame (gdt tss : Nat) (mem : Mem) (x : Nat) (outside : x < tss + 8 ∨ tss + 12 ≤ x)
    (notTable : x < gdt ∨ gdt + 8 * 6 ≤ x) :
    initTss gdt tss mem x = mem x := by
  rw [initTss, setBusy, write_byte_frame _ _ _ _ (by omega), write_word_frame _ _ _ _ (by omega)]

theorem gate_attributes (mem : Mem) (a : Nat) (attributes : UInt8) : gateAt (writeByte mem (a + 5) attributes) a =
    { gateAt mem a with
      kind :=
        attributes.toNat % 2 ^ 5, dpl := attributes.toNat / 2 ^ 5 % 4, present := attributes.toNat.testBit 7 } := by
  simp only [gateAt, readHalf, writeByte]
  simp

theorem set_idt_entry_here (idt vector isr attributes : Nat) (mem : Mem) :
    gateAt (setIdtEntry idt vector isr attributes mem) (idt + 8 * vector) =
      ⟨isr % 2 ^ 32, 0x08, attributes % 2 ^ 8 % 2 ^ 5, attributes % 2 ^ 8 / 2 ^ 5 % 4,
        (attributes % 2 ^ 8).testBit 7⟩ := by
  have low : isr &&& 0xFFFF = isr % 2 ^ 16 := Nat.and_two_pow_sub_one_eq_mod isr 16
  have high : isr >>> 16 = isr / 2 ^ 16 := Nat.shiftRight_eq_div_pow _ _
  simp only [setIdtEntry, low, high]
  generalize idt + 8 * vector = a
  simp only [gateAt, readHalf, writeByte, writeHalf]
  simp only [Nat.add_right_inj, Nat.add_eq_left, Nat.left_eq_add, Nat.add_assoc, Nat.reduceAdd, Nat.reduceEqDiff,
    OfNat.ofNat_ne_zero, if_true, if_false, OfNat.ofNat_ne_one, OfNat.one_ne_ofNat, one_ne_zero, UInt8.toNat_ofNat',
    Gate.mk.injEq]
  refine ⟨?_, rfl, trivial, trivial, trivial⟩
  omega

theorem set_idt_entry_keeps (idt attributes : Nat) (isr : Nat → Nat) :
    KeepsSlots id (fun vector => setIdtEntry idt vector (isr vector) attributes) idt := by
  intro vector mem x outside
  simp only [id] at outside
  simp only [setIdtEntry]
  rw [write_half_frame _ _ _ _ (by omega), write_byte_frame _ _ _ _ (by omega), write_byte_frame _ _ _ _ (by omega),
    write_half_frame _ _ _ _ (by omega), write_half_frame _ _ _ _ (by omega)]

-- The loop of `init_idt` reads the stub table as it was, which it does not overlap.
theorem idt_loop_reads (idt table : Nat) (apart : table + 4 * 256 ≤ idt ∨ idt + 8 * 256 ≤ table) (vectors : List Nat)
    (inside : ∀ v ∈ vectors, v < 256) (first mem : Mem)
    (same : ∀ x, table ≤ x → x < table + 4 * 256 → mem x = first x) :
    vectors.foldl (fun mem i => setIdtEntry idt i (readWord mem (table + 4 * i)) 0x8E mem) mem =
      vectors.foldl (fun mem i => setIdtEntry idt i (readWord first (table + 4 * i)) 0x8E mem) mem := by
  induction vectors generalizing mem with
  | nil => rfl
  | cons v vectors ih =>
      have small := inside v List.mem_cons_self
      have read : readWord mem (table + 4 * v) = readWord first (table + 4 * v) :=
        read_word_congr _ _ _ (fun x low high => same x (by omega) (by omega))
      rw [List.foldl_cons, List.foldl_cons, read]
      refine ih (fun u member => inside u (List.mem_cons_of_mem _ member)) _ (fun x low high => ?_)
      rw [← same x low high]
      refine set_idt_entry_keeps idt 0x8E (fun i => readWord first (table + 4 * i)) v mem x ?_
      simp only [id]
      omega

section Idt

variable (idt table : Nat) (apart : table + 4 * 256 ≤ idt ∨ idt + 8 * 256 ≤ table) (mem : Mem)
include apart

theorem init_idt_writes : initIdt idt table mem =
    writeByte ((List.range 256).foldl (fun mem' i => setIdtEntry idt i (readWord mem (table + 4 * i)) 0x8E mem')
      (fill mem idt (8 * 256) 0)) (idt + 8 * 0x80 + 5) 0b11101110 := by
  simp only [initIdt]
  rw [idt_loop_reads idt table apart (List.range 256) (fun v member => List.mem_range.mp member) mem]
  intro x low high
  exact fill_frame _ _ _ _ _ (by omega)

theorem init_idt_frame (x : Nat) (outside : x < idt ∨ idt + 8 * 256 ≤ x) : initIdt idt table mem x = mem x := by
  rw [init_idt_writes idt table apart, write_byte_frame _ _ _ _ (by omega),
    writes_frame id _ idt (set_idt_entry_keeps idt 0x8E _) 256 (List.range 256)
      (fun v member => List.mem_range.mp member) _ x outside,
    fill_frame _ _ _ _ _ outside]

theorem init_idt_gate (vector : Nat) (small : vector < 256) : gateAt (initIdt idt table mem) (idt + 8 * vector) =
    ⟨readWord mem (table + 4 * vector), 0x08, interruptGate, if vector = 0x80 then 3 else 0, true⟩ := by
  have entered := writes_read_back id _ idt gateAt
    (fun i => ⟨readWord mem (table + 4 * i), 0x08, interruptGate, 0, true⟩) (set_idt_entry_keeps idt 0x8E _) gate_congr
    (fun i mem' => by
      rw [id, set_idt_entry_here, Nat.mod_eq_of_lt (read_word_lt mem _)]
      rfl) (List.range 256) (fill mem idt (8 * 256) 0) vector
  have found : (List.range 256).reverse.find? (fun i => id i = vector) = some vector := by
    cases search : (List.range 256).reverse.find? (fun i => id i = vector) with
    | none => simpa using List.find?_eq_none.mp search vector (List.mem_reverse.mpr (List.mem_range.mpr small))
    | some i => rw [show i = vector by simpa using List.find?_some search]
  rw [found, Option.map_some, Option.getD_some] at entered
  rw [init_idt_writes idt table apart]
  by_cases syscall : vector = 0x80
  · subst syscall
    rw [gate_attributes, entered, if_pos rfl]
    rfl
  · rw [if_neg syscall, ← entered]
    refine gate_congr _ _ _ (fun x low high => write_byte_frame _ _ _ _ ?_)
    omega

end Idt

end X86OS.Interrupts
