import Mathlib.Tactic

set_option autoImplicit false

namespace X86OS

-- Byte-addressed memory with little-endian 32-bit words.
abbrev Mem := Nat → UInt8

namespace Mem

def readWord (mem : Mem) (a : Nat) : Nat :=
  (mem a).toNat + 2 ^ 8 * (mem (a + 1)).toNat + 2 ^ 16 * (mem (a + 2)).toNat + 2 ^ 24 * (mem (a + 3)).toNat

def readHalf (mem : Mem) (a : Nat) : Nat := (mem a).toNat + 2 ^ 8 * (mem (a + 1)).toNat

-- What a `char *` points to. Pointers wrap at 2^32.
def charAt (mem : Mem) (p : Nat) : UInt8 := mem (p % 2 ^ 32)

def writeByte (mem : Mem) (a : Nat) (v : UInt8) : Mem := fun x => if x = a then v else mem x

def writeWord (mem : Mem) (a v : Nat) : Mem := fun x =>
  if x = a then UInt8.ofNat v
  else if x = a + 1 then UInt8.ofNat (v / 2 ^ 8)
  else if x = a + 2 then UInt8.ofNat (v / 2 ^ 16)
  else if x = a + 3 then UInt8.ofNat (v / 2 ^ 24)
  else mem x

def writeHalf (mem : Mem) (a v : Nat) : Mem := fun x =>
  if x = a then UInt8.ofNat v else if x = a + 1 then UInt8.ofNat (v / 2 ^ 8) else mem x

def fill (mem : Mem) (a n : Nat) (v : UInt8) : Mem := fun x => if a ≤ x ∧ x < a + n then v else mem x

-- `n` 16-bit words of the same value.
def fillHalves (mem : Mem) (a n v : Nat) : Mem := fun x =>
  if a ≤ x ∧ x < a + 2 * n then UInt8.ofNat (v / 2 ^ (8 * ((x - a) % 2))) else mem x

def copy (mem : Mem) (dest src n : Nat) : Mem :=
  fun x => if dest ≤ x ∧ x < dest + n then mem (src + (x - dest)) else mem x

theorem read_word_lt (mem : Mem) (a : Nat) : readWord mem a < 2 ^ 32 := by
  have h0 := (mem a).toNat_lt
  have h1 := (mem (a + 1)).toNat_lt
  have h2 := (mem (a + 2)).toNat_lt
  have h3 := (mem (a + 3)).toNat_lt
  simp only [readWord]
  omega

theorem read_word_congr (mem mem' : Mem) (a : Nat) (same : ∀ x, a ≤ x → x < a + 4 → mem' x = mem x) :
    readWord mem' a = readWord mem a := by
  simp only [readWord]
  rw [same a (by omega) (by omega), same (a + 1) (by omega) (by omega), same (a + 2) (by omega) (by omega),
    same (a + 3) (by omega) (by omega)]

theorem write_word_here (mem : Mem) (a v : Nat) (bound : v < 2 ^ 32) : readWord (writeWord mem a v) a = v := by
  simp only [readWord, writeWord]
  simp only [if_true, Nat.add_eq_left, Nat.add_right_inj, OfNat.ofNat_ne_zero, OfNat.ofNat_ne_one,
    Nat.reduceEqDiff, if_false, UInt8.toNat_ofNat']
  omega

theorem write_word_frame (mem : Mem) (a v x : Nat) (outside : x < a ∨ a + 4 ≤ x) : writeWord mem a v x = mem x := by
  simp only [writeWord]
  rw [if_neg (by omega), if_neg (by omega), if_neg (by omega), if_neg (by omega)]

theorem write_word_elsewhere (mem : Mem) (a v b : Nat) (apart : b + 4 ≤ a ∨ a + 4 ≤ b) :
    readWord (writeWord mem a v) b = readWord mem b :=
  read_word_congr _ _ b (fun x low high => write_word_frame mem a v x (by omega))

theorem write_byte_here (mem : Mem) (a : Nat) (v : UInt8) : writeByte mem a v a = v := if_pos rfl

theorem write_byte_frame (mem : Mem) (a x : Nat) (v : UInt8) (other : x ≠ a) :
    writeByte mem a v x = mem x := if_neg other

theorem write_byte_elsewhere (mem : Mem) (a b : Nat) (v : UInt8) (apart : a < b ∨ b + 4 ≤ a) :
    readWord (writeByte mem a v) b = readWord mem b :=
  read_word_congr _ _ b (fun x low high => write_byte_frame mem a x v (by omega))

theorem write_half_here (mem : Mem) (a v : Nat) :
    writeHalf mem a v a = UInt8.ofNat v ∧ writeHalf mem a v (a + 1) = UInt8.ofNat (v / 2 ^ 8) := by
  simp [writeHalf]

theorem write_half_frame (mem : Mem) (a v x : Nat) (outside : x < a ∨ a + 2 ≤ x) : writeHalf mem a v x = mem x := by
  rw [writeHalf, if_neg (by omega), if_neg (by omega)]

theorem fill_inside (mem : Mem) (a n x : Nat) (v : UInt8) (low : a ≤ x) (high : x < a + n) : fill mem a n v x = v :=
  if_pos ⟨low, high⟩

theorem fill_frame (mem : Mem) (a n x : Nat) (v : UInt8) (outside : x < a ∨ a + n ≤ x) : fill mem a n v x = mem x :=
  if_neg (by omega)

theorem fill_zero_word (mem : Mem) (a n b : Nat) (low : a ≤ b) (high : b + 4 ≤ a + n) :
    readWord (fill mem a n 0) b = 0 := by
  simp only [readWord]
  rw [fill_inside mem a n b 0 low (by omega), fill_inside mem a n (b + 1) 0 (by omega) (by omega),
    fill_inside mem a n (b + 2) 0 (by omega) (by omega), fill_inside mem a n (b + 3) 0 (by omega) (by omega)]
  rfl

theorem copy_inside (mem : Mem) (dest src n j : Nat) (bound : j < n) :
    copy mem dest src n (dest + j) = mem (src + j) := by
  simp only [copy]
  rw [if_pos ⟨by omega, by omega⟩, Nat.add_sub_cancel_left]

theorem copy_frame (mem : Mem) (dest src n x : Nat) (outside : x < dest ∨ dest + n ≤ x) :
    copy mem dest src n x = mem x :=
  if_neg (by omega)

theorem copy_word (mem : Mem) (dest src n o : Nat) (bound : o + 4 ≤ n) :
    readWord (copy mem dest src n) (dest + o) = readWord mem (src + o) := by
  have byte (i : Nat) (inside : i < 4) : copy mem dest src n (dest + o + i) = mem (src + o + i) := by
    rw [Nat.add_assoc, copy_inside _ _ _ _ _ (by omega), Nat.add_assoc]
  simp only [readWord, byte 1 (by omega), byte 2 (by omega), byte 3 (by omega)]
  rw [show copy mem dest src n (dest + o) = mem (src + o) from byte 0 (by omega)]

end Mem

end X86OS
