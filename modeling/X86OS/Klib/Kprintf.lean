import X86OS.Lib.Memory
import X86OS.Lib.Numeral
import X86OS.Lib.Word

set_option autoImplicit false

namespace X86OS.Kprintf

open Mem Numeral

def toSigned (width w : Nat) : Int := if w < 2 ^ (width - 1) then w else w - 2 ^ width

def digits : List UInt8 := "0123456789ABCDEF".toList.map Char.toUInt8

def digit (d : Nat) : UInt8 := digits.getD d 0

-- `buf[i++] = digits[n % base]` while there are digits and so much room in `buf`.
def fillBuf (base : Nat) : Nat → Nat → List UInt8 → Except String (List UInt8)
  | 0, n, buf => if n > 0 then .error "buf overrun" else .ok buf
  | room + 1, n, buf => if n > 0 then fillBuf base room (n / base) (buf ++ [digit (n % base)]) else .ok buf

-- `while (i--) { count++; put_c(buf[i]); }`
def drainBuf (buf : List UInt8) : Nat → Nat → List UInt8 → Nat × List UInt8
  | 0, count, out => (count, out)
  | i + 1, count, out => drainBuf buf i (count + 1) (out ++ [buf.getD i 0])

-- The printers return their count; `out` is what `put_c` has been given so far.
def printUnsigned (n base : Nat) (out : List UInt8) : Except String (Nat × List UInt8) :=
  if n = 0 then .ok (1, out ++ ['0'.toUInt8])
  else
    match fillBuf base 64 n [] with
    | .error e => .error e
    | .ok buf => .ok (drainBuf buf buf.length 0 out)

def printSigned (n : Int) (out : List UInt8) : Except String (Nat × List UInt8) :=
  if n < 0 then
    match printUnsigned (-n % 2 ^ 64).toNat 10 (out ++ ['-'.toUInt8]) with
    | .error e => .error e
    | .ok (count, out) => .ok (1 + count, out)
  else printUnsigned n.toNat 10 out

-- A string that does not end within 2^32 characters never does.
def printStr (mem : Mem) : Nat → Nat → Nat → List UInt8 → Except String (Nat × List UInt8)
  | 0, _, _, _ => .error "no end"
  | fuel + 1, str, count, out =>
      if charAt mem str = 0 then .ok (count, out)
      else printStr mem fuel (str + 1) (Word.add count 1) (out ++ [charAt mem str])

-- The variables of `kprintf`, with the places of the format it has read.
structure State where
  fmt : Nat
  args : Nat
  count : Nat
  out : List UInt8
  reads : List Nat
deriving DecidableEq

namespace State

def read (s : State) : State := { s with reads := s.fmt :: s.reads }

-- `*(++fmt)`
def next (s : State) : State := { s with fmt := s.fmt + 1, reads := (s.fmt + 1) :: s.reads }

def putC (c : UInt8) (s : State) : State := { s with out := s.out ++ [c] }

def counted (n : Nat) (s : State) : State := { s with count := Word.add s.count n }

-- `va_arg` with four bytes, and with eight.
def word (mem : Mem) (s : State) : Nat := readWord mem s.args
def long (mem : Mem) (s : State) : Nat := readWord mem s.args + 2 ^ 32 * readWord mem (s.args + 4)
def skip (n : Nat) (s : State) : State := { s with args := s.args + n }

-- `count += print_...(...)`
def add (s : State) : Except String (Nat × List UInt8) → Except String State
  | .error e => .error e
  | .ok (count, out) => .ok { s with count := Word.add s.count count, out := out }

end State

inductive Conversion where
  | d | u | x | c | s | percent | other
deriving DecidableEq

def conversion (letter : UInt8) : Conversion :=
  if letter = 'd'.toUInt8 then .d
  else if letter = 'u'.toUInt8 then .u
  else if letter = 'x'.toUInt8 then .x
  else if letter = 'c'.toUInt8 then .c
  else if letter = 's'.toUInt8 then .s
  else if letter = '%'.toUInt8 then .percent
  else .other

-- `long_check` and `long_flag`, and where that leaves `fmt`.
def scanLongs (mem : Mem) (s : State) : Bool × Bool × State :=
  let s := s.next
  if charAt mem s.fmt = 'l'.toUInt8 then
    let s := s.next
    if charAt mem s.fmt = 'l'.toUInt8 then (true, true, { s with fmt := s.fmt + 1 })
    else (true, false, s)
  else (false, false, s)

-- The `switch`.
def convert (mem : Mem) (longCheck longFlag : Bool) (s : State) : Except String State :=
  let s := s.read
  match conversion (charAt mem s.fmt) with
  | .d =>
      if longFlag then (s.skip 8).add (printSigned (toSigned 64 (s.long mem)) s.out)
      else (s.skip 4).add (printSigned (toSigned 32 (s.word mem)) s.out)
  | .u =>
      if longFlag then (s.skip 8).add (printUnsigned (s.long mem) 10 s.out)
      else (s.skip 4).add (printUnsigned (s.word mem) 10 s.out)
  | .x =>
      let s := ((s.putC '0'.toUInt8).putC 'x'.toUInt8).counted 2
      if longFlag then (s.skip 8).add (printUnsigned (s.long mem) 16 s.out)
      else (s.skip 4).add (printUnsigned (s.word mem) 16 s.out)
  | .c => .ok (((s.skip 4).counted 1).putC (UInt8.ofNat (s.word mem)))
  | .s => (s.skip 4).add (printStr mem (2 ^ 32) (s.word mem) 0 s.out)
  | .percent => .ok ((s.putC '%'.toUInt8).counted 1)
  | .other =>
      let s := s.putC '%'.toUInt8
      let s := if longCheck then (s.putC 'l'.toUInt8).counted 1 else s
      .ok ((s.putC (charAt mem s.fmt)).counted 2)

-- One iteration up to `fmt++`. What `*fmt` was found to be is not logged again.
def body (mem : Mem) (s : State) : Except String State :=
  if charAt mem s.fmt = '%'.toUInt8 then
    let (longCheck, longFlag, s) := scanLongs mem s
    convert mem longCheck longFlag s
  else .ok ((s.putC (charAt mem s.fmt)).counted 1)

def kprintfLoop (mem : Mem) : Nat → State → Except String State
  | 0, _ => .error "no end"
  | fuel + 1, s =>
      let s := s.read
      if charAt mem s.fmt = 0 then .ok s
      else
        match body mem s with
        | .error e => .error e
        | .ok s => kprintfLoop mem fuel { s with fmt := s.fmt + 1 }

def kprintf (mem : Mem) (fmt args fuel : Nat) : Except String State := kprintfLoop mem fuel ⟨fmt, args, 0, [], []⟩

-- `return count;`
def State.returned (s : State) : Int := toSigned 32 s.count

theorem fill_buf_spec (base room n : Nat) (buf : List UInt8) (large : 1 < base) (fits : n < base ^ room) :
    fillBuf base room n buf = .ok (buf ++ (Nat.digits base n).map digit) := by
  induction room generalizing n buf with
  | zero =>
      obtain rfl : n = 0 := by simpa using fits
      simp [fillBuf]
  | succ room ih =>
      rw [fillBuf]
      by_cases zero : n = 0
      · simp [zero]
      · have rest : n / base < base ^ room := (Nat.div_lt_iff_lt_mul (by omega)).mpr (by rwa [← pow_succ])
        have first := Nat.digits_def' large (Nat.pos_of_ne_zero zero)
        rw [if_pos (Nat.pos_of_ne_zero zero), ih _ _ rest, first, List.map_cons, List.append_assoc]
        rfl

theorem drain_buf_spec (buf : List UInt8) (i count : Nat) (out : List UInt8) (inside : i ≤ buf.length) :
    drainBuf buf i count out = (count + i, out ++ (buf.take i).reverse) := by
  induction i generalizing count out with
  | zero => simp [drainBuf]
  | succ i ih =>
      have here : buf.take (i + 1) = buf.take i ++ [buf.getD i 0] := by
        rw [List.take_succ_eq_append_getElem inside, List.getD_eq_getElem?_getD,
          List.getElem?_eq_getElem inside, Option.getD_some]
      rw [drainBuf, ih _ _ (by omega), here, List.reverse_append, List.append_assoc]
      simp only [List.reverse_singleton]
      congr 1
      omega

theorem print_unsigned_spec (n base : Nat) (out : List UInt8) (large : 1 < base) (fits : n < base ^ 64) :
    printUnsigned n base out = .ok ((numeral digit base n).length, out ++ numeral digit base n) := by
  rw [printUnsigned, numeral]
  by_cases zero : n = 0
  · rw [if_pos zero, if_pos zero]
    rfl
  · rw [if_neg zero, if_neg zero, fill_buf_spec base 64 n [] large fits]
    simp only [List.nil_append]
    rw [drain_buf_spec _ _ _ _ (Nat.le_refl _), List.take_length, Nat.zero_add, List.length_reverse]

-- The decimal of a signed number.
def decimal (n : Int) : List UInt8 :=
  if n < 0 then '-'.toUInt8 :: numeral digit 10 n.natAbs else numeral digit 10 n.natAbs

theorem print_signed_spec (n : Int) (out : List UInt8) (low : -2 ^ 63 ≤ n) (high : n < 2 ^ 63) :
    printSigned n out = .ok ((decimal n).length, out ++ decimal n) := by
  rw [printSigned, decimal]
  by_cases negative : n < 0
  · have value : (-n % 2 ^ 64).toNat = n.natAbs := by omega
    rw [if_pos negative, if_pos negative, value, print_unsigned_spec _ 10 _ (by decide) (by omega)]
    simp only [List.length_cons, List.append_assoc, List.singleton_append, Nat.add_comm]
  · have value : n.toNat = n.natAbs := by omega
    rw [if_neg negative, if_neg negative, value, print_unsigned_spec _ 10 _ (by decide) (by omega)]

theorem to_signed_range (width w : Nat) (positive : 0 < width) (bound : w < 2 ^ width) :
    -2 ^ (width - 1) ≤ toSigned width w ∧ toSigned width w < 2 ^ (width - 1) := by
  have double : 2 ^ width = 2 * 2 ^ (width - 1) := by
    rw [← pow_succ', Nat.sub_add_cancel positive]
  have positive' := Nat.two_pow_pos (width - 1)
  have cast : ((2 ^ (width - 1) : Nat) : Int) = 2 ^ (width - 1) := by push_cast; rfl
  have cast' : ((2 ^ width : Nat) : Int) = 2 ^ width := by push_cast; rfl
  rw [toSigned]
  split
  · omega
  · omega

theorem long_bound (mem : Mem) (s : State) : s.long mem < 2 ^ 64 := by
  have low := read_word_lt mem s.args
  have high := read_word_lt mem (s.args + 4)
  rw [State.long]
  omega

theorem word_bound (mem : Mem) (s : State) : s.word mem < 2 ^ 32 := read_word_lt mem s.args

theorem signed_prints (out : List UInt8) (width w : Nat) (positive : 0 < width) (small : width ≤ 64)
    (bound : w < 2 ^ width) :
    printSigned (toSigned width w) out =
      .ok ((decimal (toSigned width w)).length, out ++ decimal (toSigned width w)) := by
  have range := to_signed_range width w positive bound
  have half : (2 : Int) ^ (width - 1) ≤ 2 ^ 63 := pow_le_pow_right₀ (by decide) (by omega)
  exact print_signed_spec _ _ (by omega) (by omega)

theorem unsigned_prints (base : Nat) (out : List UInt8) (width w : Nat) (large : 1 < base) (small : width ≤ 64)
    (bound : w < 2 ^ width) :
    printUnsigned w base out = .ok ((numeral digit base w).length, out ++ numeral digit base w) := by
  apply print_unsigned_spec _ _ _ large
  calc w < 2 ^ width := bound
    _ ≤ 2 ^ 64 := Nat.pow_le_pow_right (by decide) small
    _ ≤ base ^ 64 := Nat.pow_le_pow_left large 64

end X86OS.Kprintf
