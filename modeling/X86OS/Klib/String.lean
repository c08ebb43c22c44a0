import X86OS.Lib.Memory

set_option autoImplicit false

namespace X86OS

open Mem

-- `rep movsl`, `rep movsb`, `rep stosl`, `rep stosw` and `rep stosb` with the direction
-- flag clear: one element per iteration, upwards.
def repMovsl : Nat → Nat → Nat → Mem → Mem
  | 0, _, _, mem => mem
  | n + 1, dest, src, mem => repMovsl n (dest + 4) (src + 4) (writeWord mem dest (readWord mem src))

def repMovsb : Nat → Nat → Nat → Mem → Mem
  | 0, _, _, mem => mem
  | n + 1, dest, src, mem => repMovsb n (dest + 1) (src + 1) (writeByte mem dest (mem src))

def repStosl : Nat → Nat → Nat → Mem → Mem
  | 0, _, _, mem => mem
  | n + 1, dest, value, mem => repStosl n (dest + 4) value (writeWord mem dest value)

def repStosw : Nat → Nat → Nat → Mem → Mem
  | 0, _, _, mem => mem
  | n + 1, dest, value, mem => repStosw n (dest + 2) value (writeHalf mem dest value)

def repStosb : Nat → Nat → UInt8 → Mem → Mem
  | 0, _, _, mem => mem
  | n + 1, dest, value, mem => repStosb n (dest + 1) value (writeByte mem dest value)

def kmemcpy (dest src count : Nat) (mem : Mem) : Mem :=
  let dwords := count / 4
  let bytes := count % 4
  repMovsb bytes (dest + 4 * dwords) (src + 4 * dwords) (repMovsl dwords dest src mem)

def kmemset (dest : Nat) (value : UInt8) (count : Nat) (mem : Mem) : Mem :=
  let dwords := count / 4
  let bytes := count % 4
  let val32 := value.toNat
  let val32 := val32 ||| val32 <<< 8
  let val32 := val32 ||| val32 <<< 16
  repStosb bytes (dest + 4 * dwords) value (repStosl dwords dest val32 mem)

-- `rep stosw` stores the low half of `val32`.
def kwmemset (dest value count : Nat) (mem : Mem) : Mem :=
  let dwords := count / 2
  let bytes := count % 2
  let val32 := value
  let val32 := val32 ||| val32 <<< 16
  repStosw bytes (dest + 4 * dwords) val32 (repStosl dwords dest val32 mem)

theorem or_shift_add (a b k : Nat) (low : a < 2 ^ k) : a ||| b <<< k = a + 2 ^ k * b := by
  rw [Nat.shiftLeft_eq, Nat.or_comm, Nat.mul_comm b, ← Nat.two_pow_add_eq_or_of_lt low, Nat.add_comm]

theorem write_word_replicated (mem : Mem) (a : Nat) (v : UInt8) :
    writeWord mem a ((v.toNat ||| v.toNat <<< 8) ||| (v.toNat ||| v.toNat <<< 8) <<< 16) = fill mem a 4 v := by
  have byte := v.toNat_lt
  have first : v.toNat ||| v.toNat <<< 8 = v.toNat + 2 ^ 8 * v.toNat := or_shift_add _ _ _ byte
  have whole : v.toNat + 2 ^ 8 * v.toNat + 2 ^ 16 * (v.toNat + 2 ^ 8 * v.toNat) =
      v.toNat + 2 ^ 8 * (v.toNat + 2 ^ 8 * (v.toNat + 2 ^ 8 * v.toNat)) := by omega
  rw [first, or_shift_add _ _ 16 (by omega), whole]
  have digit1 (y : Nat) : (v.toNat + 2 ^ 8 * y) / 2 ^ 8 = y := by omega
  have digit2 (y : Nat) : (v.toNat + 2 ^ 8 * (v.toNat + 2 ^ 8 * y)) / 2 ^ 16 = y := by omega
  have digit3 (y : Nat) : (v.toNat + 2 ^ 8 * (v.toNat + 2 ^ 8 * (v.toNat + 2 ^ 8 * y))) / 2 ^ 24 = y := by omega
  have low (y : Nat) : UInt8.ofNat (v.toNat + 2 ^ 8 * y) = v := by
    apply UInt8.toNat_inj.mp
    rw [UInt8.toNat_ofNat']
    omega
  funext x
  simp only [writeWord, fill, digit1, digit2, digit3, low]
  by_cases inside : a ≤ x ∧ x < a + 4
  · rw [if_pos inside, UInt8.ofNat_toNat]
    split_ifs <;> first | rfl | omega
  · rw [if_neg inside, if_neg (by omega), if_neg (by omega), if_neg (by omega), if_neg (by omega)]

theorem fill_fill (mem : Mem) (a m n : Nat) (v : UInt8) : fill (fill mem a m v) (a + m) n v = fill mem a (m + n) v := by
  funext x
  simp only [fill]
  split_ifs <;> first | rfl | omega

theorem fill_none (mem : Mem) (a : Nat) (v : UInt8) : fill mem a 0 v = mem := by
  funext x
  exact fill_frame mem a 0 x v (by omega)

theorem rep_stosb_eq_fill (n dest : Nat) (v : UInt8) (mem : Mem) : repStosb n dest v mem = fill mem dest n v := by
  induction n generalizing dest mem with
  | zero => rw [repStosb, fill_none]
  | succ n ih =>
      have single : writeByte mem dest v = fill mem dest 1 v := by
        funext x
        simp only [writeByte, fill]
        split_ifs <;> first | rfl | omega
      rw [repStosb, ih, single, fill_fill, Nat.add_comm]

theorem rep_stosl_eq_fill (n dest : Nat) (v : UInt8) (mem : Mem) :
    repStosl n dest ((v.toNat ||| v.toNat <<< 8) ||| (v.toNat ||| v.toNat <<< 8) <<< 16) mem =
      fill mem dest (4 * n) v := by
  induction n generalizing dest mem with
  | zero => rw [repStosl, Nat.mul_zero, fill_none]
  | succ n ih => rw [repStosl, ih, write_word_replicated, fill_fill, Nat.mul_add, Nat.add_comm]

theorem kmemset_eq_fill (dest count : Nat) (value : UInt8) (mem : Mem) :
    kmemset dest value count mem = fill mem dest count value := by
  simp only [kmemset]
  rw [rep_stosl_eq_fill, rep_stosb_eq_fill, fill_fill, Nat.div_add_mod]

theorem fill_halves_fill (mem : Mem) (a m n v : Nat) :
    fillHalves (fillHalves mem a m v) (a + 2 * m) n v = fillHalves mem a (m + n) v := by
  funext x
  simp only [fillHalves]
  split_ifs <;> first | rfl | omega | skip
  congr 4
  omega

theorem fill_halves_none (mem : Mem) (a v : Nat) : fillHalves mem a 0 v = mem := by
  funext x
  exact if_neg (by omega)

theorem fill_halves_low (mem : Mem) (a n v i : Nat) (inside : i < n) :
    fillHalves mem a n v (a + 2 * i) = UInt8.ofNat v := by
  have even : (a + 2 * i - a) % 2 = 0 := by omega
  rw [fillHalves, if_pos (by omega), even, Nat.mul_zero, pow_zero, Nat.div_one]

theorem fill_halves_high (mem : Mem) (a n v i : Nat) (inside : i < n) :
    fillHalves mem a n v (a + 2 * i + 1) = UInt8.ofNat (v / 2 ^ 8) := by
  have odd : (a + 2 * i + 1 - a) % 2 = 1 := by omega
  rw [fillHalves, if_pos (by omega), odd, Nat.mul_one]

theorem fill_halves_frame (mem : Mem) (a n v x : Nat) (outside : x < a ∨ a + 2 * n ≤ x) :
    fillHalves mem a n v x = mem x :=
  if_neg (by omega)

theorem byte_congr (y z : Nat) (same : y % 2 ^ 8 = z % 2 ^ 8) : UInt8.ofNat y = UInt8.ofNat z := by
  apply UInt8.toNat_inj.mp
  rw [UInt8.toNat_ofNat', UInt8.toNat_ofNat', same]

theorem write_word_halves (mem : Mem) (a v : Nat) (half : v < 2 ^ 16) :
    writeWord mem a (v ||| v <<< 16) = fillHalves mem a 2 v := by
  rw [or_shift_add v v 16 half]
  have digit1 : (v + 2 ^ 16 * v) / 2 ^ 8 = v / 2 ^ 8 + 2 ^ 8 * v := by omega
  have digit2 : (v + 2 ^ 16 * v) / 2 ^ 16 = v := by omega
  have digit3 : (v + 2 ^ 16 * v) / 2 ^ 24 = v / 2 ^ 8 := by omega
  funext x
  by_cases inside : a ≤ x ∧ x < a + 2 * 2
  · simp only [writeWord, digit1, digit2, digit3]
    obtain rfl | rfl | rfl | rfl : x = a ∨ x = a + 1 ∨ x = a + 2 ∨ x = a + 3 := by omega
    · rw [if_pos rfl]
      exact (byte_congr _ _ (by omega)).trans (fill_halves_low mem x 2 v 0 (by decide)).symm
    · rw [if_neg (by omega), if_pos rfl]
      exact (byte_congr _ _ (by omega)).trans (fill_halves_high mem a 2 v 0 (by decide)).symm
    · rw [if_neg (by omega), if_neg (by omega), if_pos rfl]
      exact (fill_halves_low mem a 2 v 1 (by decide)).symm
    · rw [if_neg (by omega), if_neg (by omega), if_neg (by omega), if_pos rfl]
      exact (fill_halves_high mem a 2 v 1 (by decide)).symm
  · rw [write_word_frame _ _ _ _ (by omega), fill_halves_frame _ _ _ _ _ (by omega)]

theorem write_half_halves (mem : Mem) (a v : Nat) (half : v < 2 ^ 16) :
    writeHalf mem a (v ||| v <<< 16) = fillHalves mem a 1 v := by
  rw [or_shift_add v v 16 half]
  have digit1 : (v + 2 ^ 16 * v) / 2 ^ 8 = v / 2 ^ 8 + 2 ^ 8 * v := by omega
  funext x
  simp only [writeHalf, digit1]
  by_cases inside : a ≤ x ∧ x < a + 2 * 1
  · obtain rfl | rfl : x = a ∨ x = a + 1 := by omega
    · rw [if_pos rfl]
      exact (byte_congr _ _ (by omega)).trans (fill_halves_low mem x 1 v 0 (by decide)).symm
    · rw [if_neg (by omega), if_pos rfl]
      exact (byte_congr _ _ (by omega)).trans (fill_halves_high mem a 1 v 0 (by decide)).symm
  · rw [if_neg (by omega), if_neg (by omega), fill_halves_frame _ _ _ _ _ (by omega)]

theorem rep_stosl_halves (n dest v : Nat) (mem : Mem) (half : v < 2 ^ 16) :
    repStosl n dest (v ||| v <<< 16) mem = fillHalves mem dest (2 * n) v := by
  induction n generalizing dest mem with
  | zero => rw [repStosl, Nat.mul_zero, fill_halves_none]
  | succ n ih => rw [repStosl, ih, write_word_halves _ _ _ half, fill_halves_fill, Nat.mul_add, Nat.add_comm]

theorem rep_stosw_halves (n dest v : Nat) (mem : Mem) (half : v < 2 ^ 16) :
    repStosw n dest (v ||| v <<< 16) mem = fillHalves mem dest n v := by
  induction n generalizing dest mem with
  | zero => rw [repStosw, fill_halves_none]
  | succ n ih => rw [repStosw, ih, write_half_halves _ _ _ half, fill_halves_fill, Nat.add_comm]

theorem kwmemset_eq_fill (dest value count : Nat) (mem : Mem) (half : value < 2 ^ 16) :
    kwmemset dest value count mem = fillHalves mem dest count value := by
  have whole : 4 * (count / 2) = 2 * (2 * (count / 2)) := by omega
  simp only [kwmemset]
  rw [rep_stosl_halves _ _ _ _ half, rep_stosw_halves _ _ _ _ half, whole, fill_halves_fill, Nat.div_add_mod]

theorem write_word_read (mem : Mem) (dest src : Nat) : writeWord mem dest (readWord mem src) = copy mem dest src 4 := by
  have b0 := (mem src).toNat_lt
  have b1 := (mem (src + 1)).toNat_lt
  have b2 := (mem (src + 2)).toNat_lt
  have b3 := (mem (src + 3)).toNat_lt
  have restore (n : Nat) (v : UInt8) (eq : n % 2 ^ 8 = v.toNat) : UInt8.ofNat n = v := by
    apply UInt8.toNat_inj.mp
    rw [UInt8.toNat_ofNat', eq]
  funext x
  simp only [writeWord, copy, readWord]
  by_cases inside : dest ≤ x ∧ x < dest + 4
  · rw [if_pos inside, restore _ (mem src) (by omega), restore _ (mem (src + 1)) (by omega),
      restore _ (mem (src + 2)) (by omega), restore _ (mem (src + 3)) (by omega)]
    obtain rfl | rfl | rfl | rfl : x = dest ∨ x = dest + 1 ∨ x = dest + 2 ∨ x = dest + 3 := by omega
    all_goals simp
  · rw [if_neg inside, if_neg (by omega), if_neg (by omega), if_neg (by omega), if_neg (by omega)]

-- An upward copy never reads a byte it has already overwritten when the ranges
-- are disjoint or the destination is not above the source.
def ForwardSafe (dest src count : Nat) : Prop := dest ≤ src ∨ src + count ≤ dest

theorem copy_copy (mem : Mem) (dest src m n : Nat) (safe : ForwardSafe dest src (m + n)) :
    copy (copy mem dest src m) (dest + m) (src + m) n = copy mem dest src (m + n) := by
  unfold ForwardSafe at safe
  funext x
  simp only [copy]
  split_ifs <;> first | rfl | omega | skip
  congr 1
  omega

theorem copy_none (mem : Mem) (dest src : Nat) : copy mem dest src 0 = mem := by
  funext x
  exact copy_frame mem dest src 0 x (by omega)

theorem rep_movsb_eq_copy (n dest src : Nat) (mem : Mem) (safe : ForwardSafe dest src n) :
    repMovsb n dest src mem = copy mem dest src n := by
  induction n generalizing dest src mem with
  | zero => rw [repMovsb, copy_none]
  | succ n ih =>
      have single : writeByte mem dest (mem src) = copy mem dest src 1 := by
        funext x
        simp only [writeByte, copy]
        by_cases same : x = dest
        · subst same
          simp
        · rw [if_neg same, if_neg (by omega)]
      unfold ForwardSafe at safe ih
      rw [repMovsb, ih (dest + 1) (src + 1) _ (by omega), single,
        copy_copy _ _ _ _ _ (by unfold ForwardSafe; omega), Nat.add_comm]

theorem rep_movsl_eq_copy (n dest src : Nat) (mem : Mem) (safe : ForwardSafe dest src (4 * n)) :
    repMovsl n dest src mem = copy mem dest src (4 * n) := by
  induction n generalizing dest src mem with
  | zero => rw [repMovsl, Nat.mul_zero, copy_none]
  | succ n ih =>
      unfold ForwardSafe at safe ih
      rw [repMovsl, ih (dest + 4) (src + 4) _ (by omega), write_word_read,
        copy_copy _ _ _ _ _ (by unfold ForwardSafe; omega), Nat.mul_add, Nat.add_comm]

theorem kmemcpy_eq_copy (dest src count : Nat) (mem : Mem) (safe : ForwardSafe dest src count) :
    kmemcpy dest src count mem = copy mem dest src count := by
  have whole := Nat.div_add_mod count 4
  unfold ForwardSafe at safe
  simp only [kmemcpy]
  rw [rep_movsl_eq_copy _ _ _ _ (by unfold ForwardSafe; omega),
    rep_movsb_eq_copy _ _ _ _ (by unfold ForwardSafe; omega), copy_copy _ _ _ _ _ (by unfold ForwardSafe; omega), whole]

theorem rep_movsb_frame (n dest src x : Nat) (mem : Mem) (outside : x < dest ∨ dest + n ≤ x) :
    repMovsb n dest src mem x = mem x := by
  induction n generalizing dest src mem with
  | zero => rfl
  | succ n ih => rw [repMovsb, ih _ _ _ (by omega), write_byte_frame _ _ _ _ (by omega)]

theorem rep_movsl_frame (n dest src x : Nat) (mem : Mem) (outside : x < dest ∨ dest + 4 * n ≤ x) :
    repMovsl n dest src mem x = mem x := by
  induction n generalizing dest src mem with
  | zero => rfl
  | succ n ih => rw [repMovsl, ih _ _ _ (by omega), write_word_frame _ _ _ _ (by omega)]

theorem kmemcpy_frame (dest src count x : Nat) (mem : Mem) (outside : x < dest ∨ dest + count ≤ x) :
    kmemcpy dest src count mem x = mem x := by
  simp only [kmemcpy]
  rw [rep_movsb_frame _ _ _ _ _ (by omega), rep_movsl_frame _ _ _ _ _ (by omega)]

end X86OS
