import X86OS.Drivers.Ports
import X86OS.Klib.String

set_option autoImplicit false

namespace X86OS.Drivers

open Mem

def vgaMemory : Nat := 0xB8000 + 0xC0000000
def columns : Nat := 80
def rows : Nat := 25

inductive VgaColor where
  | black | blue | green | cyan | red | purple | brown | gray
  | darkGray | lightBlue | lightGreen | lightCyan | lightRed | lightPurple | yellow | white
deriving DecidableEq

def VgaColor.code : VgaColor → Nat
  | black => 0
  | blue => 1
  | green => 2
  | cyan => 3
  | red => 4
  | purple => 5
  | brown => 6
  | gray => 7
  | darkGray => 8
  | lightBlue => 9
  | lightGreen => 10
  | lightCyan => 11
  | lightRed => 12
  | lightPurple => 13
  | yellow => 14
  | white => 15

-- The variables of the driver, memory and ports, and the indices at which `vga_buffer` was assigned to.
structure Vga where
  vgaColor : UInt8
  cursorRow : Nat
  cursorCol : Nat
  mem : Mem
  ports : Ports
  written : List Nat

-- `c | (vga_color << 8)` as a `uint16_t`. A `char` is signed, so its sign spreads over the `int`.
def charInt (c : UInt8) : Nat := if c.toNat < 2 ^ 7 then c.toNat else 2 ^ 32 - 2 ^ 8 + c.toNat

def cell (c color : UInt8) : Nat := (charInt c ||| color.toNat <<< 8) % 2 ^ 16

def space : UInt8 := ' '.toUInt8

def newline : UInt8 := '\n'.toUInt8

def storeCell (i value : Nat) (v : Vga) : Vga :=
  { v with mem := writeHalf v.mem (vgaMemory + 2 * i) value, written := i :: v.written }

def vgaMoveCursor (v : Vga) : Vga :=
  let pos := (v.cursorRow * columns + v.cursorCol) % 2 ^ 16
  let ports := outb 0x3D4 0x0F v.ports
  let ports := outb 0x3D5 (BitVec.ofNat 8 (pos &&& 0xFF)) ports
  let ports := outb 0x3D4 0x0E ports
  { v with ports := outb 0x3D5 (BitVec.ofNat 8 (pos >>> 8 &&& 0xFF)) ports }

-- The loop from row `r` on, with so many rows to go.
def scrollRows : Nat → Nat → Mem → Mem
  | 0, _, mem => mem
  | n + 1, r, mem =>
      scrollRows n (r + 1) (kmemcpy (vgaMemory + 2 * (80 * (r - 1))) (vgaMemory + 2 * (80 * r)) (columns * 2) mem)

def vgaScroll (v : Vga) : Vga :=
  { v with
    mem :=
      kwmemset (vgaMemory + 2 * (80 * (rows - 1))) (cell space v.vgaColor) columns (scrollRows (rows - 1) 1 v.mem) }

def vgaClear (v : Vga) : Vga :=
  let v := vgaMoveCursor { v with cursorRow := 0, cursorCol := 0 }
  { v with mem := kwmemset vgaMemory (cell space v.vgaColor) (columns * rows) v.mem }

def vgaSetColor (fg bg : VgaColor) (v : Vga) : Vga := { v with vgaColor := UInt8.ofNat (bg.code <<< 4 ||| fg.code) }

def nextRow (v : Vga) : Vga := { v with cursorRow := (v.cursorRow + 1) % 2 ^ 8, cursorCol := 0 }

def nextCol (v : Vga) : Vga :=
  let v := { v with cursorCol := (v.cursorCol + 1) % 2 ^ 8 }
  if v.cursorCol = columns then nextRow v else v

def makeRoom (v : Vga) : Vga := if v.cursorRow = rows then { vgaScroll v with cursorRow := rows - 1 } else v

def vgaPutc (c : UInt8) (v : Vga) : Vga :=
  let v := makeRoom v
  vgaMoveCursor (if c = newline then nextRow v
    else nextCol (storeCell (v.cursorRow * columns + v.cursorCol) (cell c v.vgaColor) v))

def vgaPutcAt (c : UInt8) (row col : Nat) (v : Vga) : Vga := storeCell (row * columns + col) (cell c v.vgaColor) v

def vgaPuts : Nat → Nat → Vga → Except String Vga
  | 0, _, _ => .error "no end"
  | fuel + 1, str, v => if charAt v.mem str = 0 then .ok v else vgaPuts fuel (str + 1) (vgaPutc (charAt v.mem str) v)

-- Whatever the string is, and be it on the screen itself, `vga_puts` is a sequence of `vga_putc`.
theorem vga_puts_chars (fuel str : Nat) (v v' : Vga) (done : vgaPuts fuel str v = .ok v') :
    ∃ text : List UInt8, v' = text.foldl (fun v c => vgaPutc c v) v := by
  induction fuel generalizing str v with
  | zero => cases done
  | succ fuel ih =>
      rw [vgaPuts] at done
      split at done
      · cases done
        exact ⟨[], rfl⟩
      · obtain ⟨text, rfl⟩ := ih _ _ done
        exact ⟨charAt v.mem str :: text, rfl⟩

-- The two bytes of a cell on the screen.
def cellChar (mem : Mem) (r c : Nat) : UInt8 := mem (vgaMemory + 2 * (r * 80 + c))

def cellAttribute (mem : Mem) (r c : Nat) : UInt8 := mem (vgaMemory + 2 * (r * 80 + c) + 1)

-- What becomes of a colour under a character.
def shade (c color : UInt8) : UInt8 := if c.toNat < 2 ^ 7 then color else 0xFF

theorem cell_lt (c color : UInt8) : cell c color < 2 ^ 16 := Nat.mod_lt _ (by decide)

theorem cell_bytes (c color : UInt8) :
    UInt8.ofNat (cell c color) = c ∧ UInt8.ofNat (cell c color / 2 ^ 8) = shade c color := by
  have low := c.toNat_lt
  have high := color.toNat_lt
  have ones : ∀ k < 2 ^ 8, 0xFFFFFF ||| k = 0xFFFFFF := by decide +kernel
  obtain ⟨upper, value, byte⟩ :
      ∃ upper, cell c color = (c.toNat + 2 ^ 8 * upper) % 2 ^ 16 ∧ UInt8.ofNat upper = shade c color := by
    rw [cell, charInt, shade]
    split
    · exact ⟨color.toNat, by rw [or_shift_add _ _ _ low], UInt8.ofNat_toNat⟩
    · refine ⟨0xFFFFFF, ?_, rfl⟩
      have sign : 2 ^ 32 - 2 ^ 8 + c.toNat = c.toNat ||| 0xFFFFFF <<< 8 := by
        rw [or_shift_add _ _ _ low]
        omega
      rw [sign, Nat.or_assoc, ← Nat.shiftLeft_or_distrib, ones _ high, or_shift_add _ _ _ low]
  rw [value]
  refine ⟨?_, ?_⟩
  · exact (byte_congr _ _ (by omega)).trans UInt8.ofNat_toNat
  · rw [← byte]
    exact byte_congr _ _ (by omega)

theorem scroll_rows_spec (n r : Nat) (mem : Mem) (later : 0 < r) :
    scrollRows n r mem = copy mem (vgaMemory + 160 * (r - 1)) (vgaMemory + 160 * r) (160 * n) := by
  induction n generalizing r mem with
  | zero => rw [scrollRows, Nat.mul_zero, copy_none]
  | succ n ih =>
      have dest : vgaMemory + 2 * (80 * (r - 1)) = vgaMemory + 160 * (r - 1) := by omega
      have src : vgaMemory + 2 * (80 * r) = vgaMemory + 160 * r := by omega
      have next : vgaMemory + 160 * (r + 1 - 1) = vgaMemory + 160 * (r - 1) + 160 := by omega
      have next' : vgaMemory + 160 * (r + 1) = vgaMemory + 160 * r + 160 := by omega
      rw [scrollRows, dest, src, columns, kmemcpy_eq_copy _ _ _ _ (.inl (by omega)),
        ih (r + 1) _ (by omega), next, next', copy_copy _ _ _ _ _ (.inl (by omega))]
      congr 1
      omega

theorem vga_scroll_mem (v : Vga) : (vgaScroll v).mem =
    fillHalves (copy v.mem vgaMemory (vgaMemory + 160) 3840) (vgaMemory + 3840) 80 (cell space v.vgaColor) := by
  simp only [vgaScroll, rows, columns]
  rw [scroll_rows_spec 24 1 v.mem (by decide), kwmemset_eq_fill _ _ _ _ (cell_lt _ _)]
  simp only [Nat.sub_self, Nat.mul_zero, Nat.add_zero, Nat.mul_one, Nat.reduceMul, Nat.reduceSub]

theorem vga_clear_mem (v : Vga) : (vgaClear v).mem = fillHalves v.mem vgaMemory 2000 (cell space v.vgaColor) := by
  simp only [vgaClear, vgaMoveCursor, rows, columns]
  rw [kwmemset_eq_fill _ _ _ _ (cell_lt _ _)]

end X86OS.Drivers
