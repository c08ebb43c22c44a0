import X86OS.Mm.Paging
import Mathlib.Data.Nat.Bitwise

set_option autoImplicit false

namespace X86OS.Paging

open Mem

theorem is_present_eq (e : Nat) : isPresent e = e.testBit 0 := by
  rw [isPresent, pagePresent, show (1 : Nat) = 2 ^ 0 from rfl, Nat.and_two_pow]
  cases e.testBit 0 <;> rfl

theorem is_large_eq (e : Nat) : isLarge e = e.testBit 7 := by
  rw [isLarge, pageSize4Mb, show (0x80 : Nat) = 2 ^ 7 from rfl, Nat.and_two_pow]
  cases e.testBit 7 <;> rfl

-- An entry made of a page-aligned address and flags gives both back.
section Entries

variable (addr low : Nat) (aligned : 0x1000 ∣ addr) (bound : addr < 2 ^ 32) (small : low < 0x1000)

include aligned

theorem entry_bit (i : Nat) (inLow : i < 12) : (addr ||| low).testBit i = low.testBit i := by
  obtain ⟨c, rfl⟩ := aligned
  rw [Nat.testBit_or, show 0x1000 * c = 2 ^ 12 * c from rfl, Nat.testBit_two_pow_mul]
  simp [Nat.not_le.mpr inLow]

theorem entry_present : isPresent (addr ||| low) = isPresent low := by
  rw [is_present_eq, is_present_eq, entry_bit addr low aligned 0 (by decide)]

theorem entry_large : isLarge (addr ||| low) = isLarge low := by
  rw [is_large_eq, is_large_eq, entry_bit addr low aligned 7 (by decide)]

include small

theorem entry_add : addr ||| low = addr + low := Word.or_low_eq_add addr low 12 aligned small

theorem entry_flags : (addr ||| low) &&& 0xFFF = low := by
  rw [entry_add addr low aligned small, show (0xFFF : Nat) = 2 ^ 12 - 1 from rfl, Nat.and_two_pow_sub_one_eq_mod]
  omega

include bound

theorem entry_bound : addr ||| low < 2 ^ 32 := by
  rw [entry_add addr low aligned small]
  omega

theorem entry_frame : (addr ||| low) &&& pageMask = addr := by
  have sum := entry_bound addr low aligned bound small
  rw [show pageMask = 2 ^ 32 - 2 ^ 12 from rfl, Word.and_high_mask _ 12 sum (by decide),
    entry_add addr low aligned small]
  omega

theorem entry_leaf (present : isPresent low = true) : leaf (addr ||| low) = some (addr, low) := by
  rw [leaf, entry_present addr low aligned, if_pos present, entry_frame addr low aligned bound small,
    entry_flags addr low aligned small]

end Entries

theorem frame_aligned (e : Nat) (bound : e < 2 ^ 32) : 0x1000 ∣ e &&& pageMask ∧ e &&& pageMask < 2 ^ 32 := by
  rw [show pageMask = 2 ^ 32 - 2 ^ 12 from rfl, Word.and_high_mask e 12 bound (by decide)]
  omega

theorem p2v_aligned (addr : Nat) (aligned : 0x1000 ∣ addr) : 0x1000 ∣ p2v addr := by
  simp only [p2v, Word.add, kernelVirtualBase]
  omega

theorem p2v_inj (a b : Nat) (boundA : a < 2 ^ 32) (boundB : b < 2 ^ 32) (same : p2v a = p2v b) : a = b := by
  rw [← v2p_p2v a boundA, ← v2p_p2v b boundB, same]

def InPage (base x : Nat) : Prop := base ≤ x ∧ x < base + 0x1000

section Words

variable (mem : Mem) (a b j k v : Nat)

theorem entry_here (bound : v < 2 ^ 32) : entry (mem.writeWord (a + 4 * j) v) a j = v := write_word_here _ _ _ bound

theorem entry_other (other : j ≠ k) : entry (mem.writeWord (a + 4 * j) v) a k = entry mem a k :=
  write_word_elsewhere _ _ _ _ (by omega)

theorem entry_elsewhere (alignedA : 0x1000 ∣ a) (alignedB : 0x1000 ∣ b) (other : a ≠ b) (smallJ : j < 1024)
    (smallK : k < 1024) :
    entry (mem.writeWord (a + 4 * j) v) b k = entry mem b k :=
  write_word_elsewhere _ _ _ _ (by omega)

theorem entry_congr (mem' : Mem) (smallK : k < 1024) (same : ∀ x, InPage a x → mem' x = mem x) :
    entry mem' a k = entry mem a k :=
  read_word_congr _ _ _ (fun x low high => same x ⟨by omega, by omega⟩)

end Words

-- A slot that points to a page table.
def Small (mem : Mem) (pd k : Nat) : Prop := isPresent (entry mem pd k) = true ∧ isLarge (entry mem pd k) = false

def frameOf (mem : Mem) (pd k : Nat) : Nat := entry mem pd k &&& pageMask

theorem frame_of_page (mem : Mem) (pd k : Nat) : 0x1000 ∣ frameOf mem pd k ∧ frameOf mem pd k < 2 ^ 32 :=
  frame_aligned _ (read_word_lt _ _)

theorem translate_small (mem : Mem) (pd page : Nat) (small : Small mem pd (page / 1024)) :
    translate mem pd page = leaf (entry mem (p2v (frameOf mem pd (page / 1024))) (page % 1024)) := by
  simp only [translate, small.1, small.2, if_true]
  rfl

theorem translate_absent (mem : Mem) (pd page : Nat) (absent : isPresent (entry mem pd (page / 1024)) = false) :
    translate mem pd page = none := by
  simp [translate, absent]

theorem translate_congr (mem mem' : Mem) (pd pd' page : Nat)
    (dir : entry mem' pd' (page / 1024) = entry mem pd (page / 1024))
    (table : Small mem pd (page / 1024) → entry mem' (p2v (frameOf mem pd (page / 1024))) (page % 1024) =
      entry mem (p2v (frameOf mem pd (page / 1024))) (page % 1024)) :
    translate mem' pd' page = translate mem pd page := by
  simp only [translate, dir]
  by_cases present : isPresent (entry mem pd (page / 1024)) = true
  · by_cases large : isLarge (entry mem pd (page / 1024)) = true
    · simp [present, large]
    · have word := table ⟨present, by simpa using large⟩
      simp only [present, large, if_true]
      exact congrArg leaf word
  · simp [present]

-- Flags a mapping call may pass.
structure LeafFlags (flag : Nat) : Prop where
  low : flag < 0x1000
  present : isPresent flag = true
  small : isLarge flag = false

section Flags

variable (flag : Nat) (ok : LeafFlags flag)

include ok

theorem table_flags : pagePresent ||| pageRw ||| flag < 0x1000 ∧ isPresent (pagePresent ||| pageRw ||| flag) = true ∧
    isLarge (pagePresent ||| pageRw ||| flag) = false := by
  refine ⟨?_, ?_, ?_⟩
  · exact Nat.or_lt_two_pow (n := 12) (by decide) ok.low
  · rw [is_present_eq, Nat.testBit_or]
    rfl
  · have clear := ok.small
    rw [is_large_eq] at clear ⊢
    rw [Nat.testBit_or, clear]
    rfl

theorem large_flags : pageSize4Mb ||| flag < 0x1000 ∧ isPresent (pageSize4Mb ||| flag) = true ∧
    isLarge (pageSize4Mb ||| flag) = true ∧ (pageSize4Mb ||| flag) ^^^ pageSize4Mb = flag := by
  refine ⟨?_, ?_, ?_, ?_⟩
  · exact Nat.or_lt_two_pow (n := 12) (by decide) ok.low
  · have set := ok.present
    rw [is_present_eq] at set ⊢
    rw [Nat.testBit_or, set, Bool.or_true]
  · rw [is_large_eq, Nat.testBit_or]
    rfl
  · have clear := ok.small
    rw [is_large_eq] at clear
    apply Nat.eq_of_testBit_eq
    intro i
    rw [Nat.testBit_xor, Nat.testBit_or, pageSize4Mb, show (0x80 : Nat) = 2 ^ 7 from rfl, Nat.testBit_two_pow]
    by_cases same : 7 = i
    · subst same
      simp [clear]
    · simp [same]

end Flags

end X86OS.Paging
