import X86OS.Klib.Format

set_option autoImplicit false

namespace X86OS.Kprintf

open Mem Numeral

-- What a directive may take from the argument list: an integer of 32 or 64 bits, or a string.
inductive Kind where
  | number (wide : Bool)
  | text
deriving DecidableEq

inductive Arg where
  | number (wide : Bool) (w : Nat)
  | text (bytes : List UInt8)

namespace Arg

def kind : Arg → Kind
  | number wide _ => .number wide
  | text _ => .text

def unsigned : Arg → Nat
  | number _ w => w
  | text _ => 0

def signed : Arg → Int
  | number wide w => toSigned (if wide then 64 else 32) w
  | text _ => 0

def bytes : Arg → List UInt8
  | number _ _ => []
  | text bytes => bytes

end Arg

def wanted (wide : Bool) (letter : UInt8) : Option Kind :=
  match conversion letter with
  | .d => some (.number wide)
  | .u => some (.number wide)
  | .x => some (.number wide)
  | .c => some (.number false)
  | .s => some .text
  | .percent => none
  | .other => none

def Piece.kind : Piece → Option Kind
  | .literal _ _ => none
  | .directive longs letter _ _ _ => wanted (decide (longs = 2)) letter

def Matching (pieces : List Piece) (values : List Arg) : Prop := values.map Arg.kind = pieces.filterMap Piece.kind

def Placed (mem : Mem) : Nat → List Arg → Prop
  | _, [] => True
  | p, .number false w :: rest => readWord mem p = w ∧ Placed mem (p + 4) rest
  | p, .number true w :: rest => readWord mem p + 2 ^ 32 * readWord mem (p + 4) = w ∧ Placed mem (p + 8) rest
  | p, .text bytes :: rest => StringAt mem (readWord mem p) bytes ∧ Placed mem (p + 4) rest

-- What a directive shows its argument as.
def shown (letter : UInt8) (value : Arg) : List UInt8 :=
  match conversion letter with
  | .d => decimal value.signed
  | .u => numeral digit 10 value.unsigned
  | .x => '0'.toUInt8 :: 'x'.toUInt8 :: numeral digit 16 value.unsigned
  | .c => [UInt8.ofNat value.unsigned]
  | .s => value.bytes
  | .percent => []
  | .other => []

-- One that takes none: an unknown directive is repeated, with one `l` at most.
def repeated (long : Bool) (letter : UInt8) : List UInt8 :=
  if conversion letter = .percent then ['%'.toUInt8]
  else '%'.toUInt8 :: ((if long then ['l'.toUInt8] else []) ++ [letter])

def Piece.itself : Piece → List UInt8
  | .literal c _ => [c]
  | .directive longs letter _ _ _ => repeated (decide (0 < longs)) letter

def Piece.shown : Piece → Arg → List UInt8
  | .literal _ _, _ => []
  | .directive _ letter _ _ _, value => Kprintf.shown letter value

def rendered : List Piece → List Arg → List UInt8
  | [], _ => []
  | p :: ps, values =>
      match p.kind, values with
      | none, values => p.itself ++ rendered ps values
      | some _, value :: values => p.shown value ++ rendered ps values
      | some _, [] => []

-- `text` has been given to `put_c` and counted.
structure Emits (s s' : State) (text : List UInt8) : Prop where
  out : s'.out = s.out ++ text
  count : s'.count = (s.count + text.length) % 2 ^ 32

theorem emits_trans (s s' s'' : State) (front back : List UInt8) (first : Emits s s' front)
    (second : Emits s' s'' back) :
    Emits s s'' (front ++ back) := by
  refine ⟨?_, ?_⟩
  · rw [second.out, first.out, List.append_assoc]
  · rw [second.count, first.count, Nat.mod_add_mod, List.length_append, Nat.add_assoc]

theorem put_emits (s : State) (c : UInt8) : Emits s ((s.putC c).counted 1) [c] := by
  refine ⟨rfl, ?_⟩
  simp only [State.counted, State.putC, Word.add, List.length_singleton, Nat.add_comm]

theorem add_shows (mem : Mem) (s : State) (size n : Nat) (text : List UInt8) (rest : List Arg)
    (length : n % 2 ^ 32 = text.length % 2 ^ 32) (placed : Placed mem (s.args + size) rest) :
    ∃ s', (s.skip size).add (.ok (n, s.out ++ text)) = .ok s' ∧ Emits s s' text ∧ Placed mem s'.args rest := by
  refine ⟨_, rfl, ⟨rfl, ?_⟩, placed⟩
  simp only [State.skip, Word.add]
  rw [Nat.add_comm, Nat.add_mod, length, ← Nat.add_mod]

theorem number_shows (mem : Mem) (s : State) (print : Nat → Nat → Except String (Nat × List UInt8))
    (text : Nat → Nat → List UInt8) (prints : ∀ width w, 0 < width → width ≤ 64 → w < 2 ^ width →
      print width w = .ok ((text width w).length, s.out ++ text width w))
    (wide : Bool) (w : Nat) (rest : List Arg) (placed : Placed mem s.args (.number wide w :: rest)) :
    ∃ s', (if wide then (s.skip 8).add (print 64 (s.long mem)) else (s.skip 4).add (print 32 (s.word mem))) = .ok s' ∧
      Emits s s' (text (if wide then 64 else 32) w) ∧ Placed mem s'.args rest := by
  cases wide with
  | false =>
      obtain ⟨rfl, later⟩ := placed
      simp only [Bool.false_eq_true, if_false]
      rw [prints 32 _ (by decide) (by decide) (word_bound mem s)]
      exact add_shows mem s 4 _ _ rest rfl later
  | true =>
      obtain ⟨rfl, later⟩ := placed
      simp only [if_true]
      rw [prints 64 _ (by decide) (by decide) (long_bound mem s)]
      exact add_shows mem s 8 _ _ rest rfl later

section Switch

variable (mem : Mem) (s : State) (longCheck longFlag : Bool) (letter : UInt8) (here : charAt mem s.fmt = letter)

include here

theorem convert_shown (value : Arg) (rest : List Arg) (kind : wanted longFlag letter = some value.kind)
    (placed : Placed mem s.args (value :: rest)) :
    ∃ s', convert mem longCheck longFlag s = .ok s' ∧ Emits s s' (shown letter value) ∧ Placed mem s'.args rest := by
  suffices shows : ∃ s', convert mem longCheck longFlag s = .ok s' ∧ Emits s.read s' (shown letter value) ∧
      Placed mem s'.args rest by
    obtain ⟨s', done, emits, placed'⟩ := shows
    exact ⟨s', done, ⟨emits.out, emits.count⟩, placed'⟩
  have here' : charAt mem s.read.fmt = letter := here
  rw [convert, shown]
  rw [wanted] at kind
  simp only [here']
  cases conv : conversion letter with
  | d =>
      simp only [conv, Option.some.injEq] at kind
      cases value with
      | text bytes => cases kind
      | number wide w =>
          cases kind
          exact number_shows mem s.read _ (fun width w => decimal (toSigned width w))
            (signed_prints s.read.out) _ w rest placed
  | u =>
      simp only [conv, Option.some.injEq] at kind
      cases value with
      | text bytes => cases kind
      | number wide w =>
          cases kind
          exact number_shows mem s.read _ (fun _ w => numeral digit 10 w)
            (fun width w _ => unsigned_prints 10 s.read.out width w (by decide)) _ w rest placed
  | x =>
      simp only [conv, Option.some.injEq] at kind
      cases value with
      | text bytes => cases kind
      | number wide w =>
          cases kind
          have first :
              Emits s.read (((s.read.putC '0'.toUInt8).putC 'x'.toUInt8).counted 2) ['0'.toUInt8, 'x'.toUInt8] := by
            refine ⟨?_, ?_⟩
            · simp [State.counted, State.putC]
            · simp only [State.counted, State.putC, Word.add, List.length_cons, List.length_nil, Nat.add_comm]
          obtain ⟨s', done, emits, placed'⟩ :=
            number_shows mem (((s.read.putC '0'.toUInt8).putC 'x'.toUInt8).counted 2) _
            (fun _ w => numeral digit 16 w) (fun width w _ => unsigned_prints 16 _ width w (by decide)) _ w rest placed
          exact ⟨s', done, emits_trans _ _ _ _ _ first emits, placed'⟩
  | c =>
      simp only [conv, Option.some.injEq] at kind
      cases value with
      | text bytes => cases kind
      | number wide w =>
          cases kind
          obtain ⟨rfl, later⟩ := placed
          exact ⟨_, rfl, ⟨rfl, (put_emits s.read 0).count⟩, later⟩
  | s =>
      simp only [conv, Option.some.injEq] at kind
      cases value with
      | number wide w => cases kind
      | text bytes =>
          obtain ⟨string, later⟩ := placed
          have printed : printStr mem (2 ^ 32) (s.read.word mem) 0 s.read.out =
              .ok ((0 + bytes.length) % 2 ^ 32, s.read.out ++ bytes) :=
            print_str_spec mem (2 ^ 32) _ 0 bytes _ string (by decide) (string_short mem _ _ string)
          simp only [printed]
          exact add_shows mem s.read 4 _ _ rest (by rw [Nat.zero_add, Nat.mod_mod]) later
  | percent => simp [conv] at kind
  | other => simp [conv] at kind

theorem convert_repeated (kind : wanted longFlag letter = none) :
    ∃ s', convert mem longCheck longFlag s = .ok s' ∧ Emits s s' (repeated longCheck letter) ∧ s'.args = s.args := by
  have here' : charAt mem s.read.fmt = letter := here
  rw [convert, repeated]
  simp only [here']
  rw [wanted] at kind
  cases conv : conversion letter with
  | percent => exact ⟨_, rfl, ⟨rfl, (put_emits s.read 0).count⟩, rfl⟩
  | other =>
      cases longCheck with
      | false =>
          refine ⟨_, rfl, ⟨?_, ?_⟩, rfl⟩
          · simp [State.counted, State.putC, State.read, here]
          · simp [State.counted, State.putC, State.read, Word.add, Nat.add_comm]
      | true =>
          refine ⟨_, rfl, ⟨?_, ?_⟩, rfl⟩
          · simp [State.counted, State.putC, State.read, here]
          · simp only [State.counted, State.putC, State.read, Word.add]
            simp
            omega
  | d => simp [conv] at kind
  | u => simp [conv] at kind
  | x => simp [conv] at kind
  | c => simp [conv] at kind
  | s => simp [conv] at kind

end Switch

section Iteration

variable (mem : Mem) (s : State) (p : Piece) (here : TextAt mem s.fmt p.text)

include here

theorem body_itself (kind : p.kind = none) : ∃ s', body mem s = .ok s' ∧ Emits s s' p.itself ∧ s'.args = s.args := by
  cases p with
  | literal c plain =>
      have notPercent : charAt mem s.fmt ≠ '%'.toUInt8 := fun same => plain.2 (here.1.symm.trans same)
      rw [body, if_neg notPercent, here.1]
      exact ⟨_, rfl, put_emits s c, rfl⟩
  | directive longs letter few ends some =>
      obtain ⟨seen, done, last, -⟩ := body_directive mem s longs letter few ends here
      obtain ⟨s', converted, emits, args⟩ :=
        convert_repeated mem { s with fmt := s.fmt + 1 + longs, reads := seen ++ s.reads }
        (decide (0 < longs)) (decide (longs = 2)) letter last kind
      exact ⟨s', done.trans converted, ⟨emits.out, emits.count⟩, args⟩

theorem body_shown (value : Arg) (rest : List Arg) (kind : p.kind = some value.kind)
    (placed : Placed mem s.args (value :: rest)) :
    ∃ s', body mem s = .ok s' ∧ Emits s s' (p.shown value) ∧ Placed mem s'.args rest := by
  cases p with
  | literal c plain => cases kind
  | directive longs letter few ends some =>
      obtain ⟨seen, done, last, -⟩ := body_directive mem s longs letter few ends here
      obtain ⟨s', converted, emits, placed'⟩ :=
        convert_shown mem { s with fmt := s.fmt + 1 + longs, reads := seen ++ s.reads }
        (decide (0 < longs)) (decide (longs = 2)) letter last value rest kind placed
      exact ⟨s', done.trans converted, ⟨emits.out, emits.count⟩, placed'⟩

end Iteration

theorem emits_nothing (s : State) (small : s.count < 2 ^ 32) : Emits s s.read [] :=
  ⟨(List.append_nil _).symm, (Nat.mod_eq_of_lt small).symm⟩

theorem emits_small (s s' : State) (text : List UInt8) (emits : Emits s s' text) : s'.count < 2 ^ 32 := by
  rw [emits.count]
  exact Nat.mod_lt _ (by decide)

theorem rendered_itself (p : Piece) (pieces : List Piece) (values : List Arg) (kind : p.kind = none) :
    rendered (p :: pieces) values = p.itself ++ rendered pieces values := by
  simp only [rendered, kind]

theorem rendered_shown (p : Piece) (pieces : List Piece) (value : Arg) (values : List Arg)
    (kind : p.kind = some value.kind) :
    rendered (p :: pieces) (value :: values) = p.shown value ++ rendered pieces values := by
  simp only [rendered, kind]

theorem piece_rendered (mem : Mem) (p : Piece) (pieces : List Piece) (values : List Arg) (s : State)
    (here : TextAt mem s.fmt p.text) (matching : Matching (p :: pieces) values) (placed : Placed mem s.args values) :
    ∃ s' shown values', body mem s.read = .ok s' ∧ Emits s s' shown ∧
      rendered (p :: pieces) values = shown ++ rendered pieces values' ∧
      Matching pieces values' ∧ Placed mem s'.args values' := by
  cases kind : p.kind with
  | none =>
      obtain ⟨s', done, emits, args⟩ := body_itself mem s.read p here kind
      refine ⟨s', p.itself, values, done, ⟨emits.out, emits.count⟩, rendered_itself p pieces values kind,
        ?_, args ▸ placed⟩
      rwa [Matching, List.filterMap_cons_none kind] at matching
  | some k =>
      rw [Matching, List.filterMap_cons_some kind] at matching
      cases values with
      | nil => cases matching
      | cons value values =>
          obtain ⟨rfl, rest⟩ := List.cons.inj matching
          obtain ⟨s', done, emits, placed'⟩ := body_shown mem s.read p here value values kind placed
          exact ⟨s', p.shown value, values, done, ⟨emits.out, emits.count⟩,
            rendered_shown p pieces value values kind, rest, placed'⟩

theorem loop_rendered (mem : Mem) (pieces : List Piece) (values : List Arg) (s : State)
    (format : StringAt mem s.fmt (text pieces)) (matching : Matching pieces values) (placed : Placed mem s.args values)
    (small : s.count < 2 ^ 32) :
    ∃ s', (∀ fuel, pieces.length < fuel → kprintfLoop mem fuel s = .ok s') ∧ Emits s s' (rendered pieces values) := by
  induction pieces generalizing values s with
  | nil => exact ⟨s.read, loop_stops mem s format.shown.1, emits_nothing s small⟩
  | cons p pieces ih =>
      rw [text, List.flatMap_cons] at format
      obtain ⟨first, later⟩ := string_append mem s.fmt p.text _ format
      obtain ⟨s1, shown, values', done, emits, whole, matching', placed'⟩ :=
        piece_rendered mem p pieces values s first matching placed
      obtain ⟨going, fmt, -⟩ := piece_step mem s s1 p _ format done
      obtain ⟨s', returns, emits'⟩ :=
        ih values' { s1 with fmt := s1.fmt + 1 } (fmt ▸ later) matching' placed' (emits_small s s1 shown emits)
      refine ⟨s', loop_goes_on mem s s1 s' _ going done returns, ?_⟩
      rw [whole]
      exact emits_trans s s1 s' _ _ emits ⟨emits'.out, emits'.count⟩

def digitValue (c : UInt8) : Nat := digits.idxOf c

theorem digit_value : ∀ d < 16, digitValue (digit d) = d := by decide

-- The return value is an `int`: the number of characters as far as it can hold it.
theorem kprintf_faithful (mem : Mem) (fmt args : Nat) (pieces : List Piece) (values : List Arg)
    (format : StringAt mem fmt (text pieces)) (matching : Matching pieces values) (placed : Placed mem args values) :
    (∃ s, (∀ fuel, pieces.length < fuel → kprintf mem fmt args fuel = .ok s) ∧ s.out = rendered pieces values ∧
      s.returned = toSigned 32 (s.out.length % 2 ^ 32) ∧ (s.out.length < 2 ^ 31 → s.returned = s.out.length)) ∧
    ∀ n, Canonical digitValue 10 n (numeral digit 10 n) ∧ Canonical digitValue 16 n (numeral digit 16 n) := by
  obtain ⟨s, returns, emits⟩ :=
    loop_rendered mem pieces values ⟨fmt, args, 0, [], []⟩ format matching placed (Nat.two_pow_pos 32)
  have out : s.out = rendered pieces values := emits.out
  have count : s.count = s.out.length % 2 ^ 32 := by rw [emits.count, out, Nat.zero_add]
  refine ⟨⟨s, returns, out, by rw [State.returned, count], ?_⟩, fun n => ⟨?_, ?_⟩⟩
  · intro few
    rw [State.returned, count, toSigned, Nat.mod_eq_of_lt (by omega), if_pos few]
  · exact numeral_canonical digit digitValue 10 (fun d below => digit_value d (by omega)) (by decide) n
  · exact numeral_canonical digit digitValue 16 digit_value (by decide) n

-- The most negative 64-bit number.
def lowestMem : Mem := writeWord (formatMem ['%'.toUInt8, 'l'.toUInt8, 'l'.toUInt8, 'd'.toUInt8]) 0x2004 0x80000000

def lowest : List Piece := [.directive 2 'd'.toUInt8 (by decide) (fun _ => rfl) (by decide)]

theorem kprintf_faithful_lowest : ∃ s, (∀ fuel, 1 < fuel → kprintf lowestMem 0x1000 0x2000 fuel = .ok s) ∧
    s.out = "-9223372036854775808".toList.map Char.toUInt8 ∧ s.returned = 20 := by
  have format : StringAt lowestMem 0x1000 (text lowest) :=
    ⟨⟨by decide, by decide, by decide, by decide, by decide, trivial⟩, by decide⟩
  obtain ⟨⟨s, returns, out, -, count⟩, -⟩ :=
    kprintf_faithful lowestMem 0x1000 0x2000 lowest [.number true (2 ^ 63)] format rfl
    ⟨by decide +kernel, trivial⟩
  have shown : rendered lowest [.number true (2 ^ 63)] = "-9223372036854775808".toList.map Char.toUInt8 := by
    decide +kernel
  rw [shown] at out
  rw [out] at count
  exact ⟨s, returns, out, count (by decide)⟩

theorem string_replicate (mem : Mem) (c : UInt8) (notNul : c ≠ 0) (n p : Nat) (same : ∀ i < n, charAt mem (p + i) = c)
    (stop : charAt mem (p + n) = 0) : StringAt mem p (List.replicate n c) := by
  refine ⟨?_, fun member => notNul (List.eq_of_mem_replicate member).symm⟩
  induction n generalizing p with
  | zero => exact ⟨stop, trivial⟩
  | succ n ih =>
      refine ⟨same 0 (by omega), ih (p + 1) (fun i before => ?_) ?_⟩
      · rw [Nat.add_assoc, Nat.add_comm 1]
        exact same (i + 1) (by omega)
      · rwa [Nat.add_assoc, Nat.add_comm 1]

-- A format of 2^31 times the letter `a`.
def longMem : Mem := fun x => if 0x1000 ≤ x ∧ x < 0x1000 + 2 ^ 31 then 'a'.toUInt8 else 0

def letterA : Piece := .literal 'a'.toUInt8 (by decide)

theorem rendered_letters (n : Nat) : text (List.replicate n letterA) = List.replicate n 'a'.toUInt8 ∧
    Matching (List.replicate n letterA) [] ∧ (rendered (List.replicate n letterA) []).length = n := by
  induction n with
  | zero => exact ⟨rfl, rfl, rfl⟩
  | succ n ih =>
      obtain ⟨spelled, matching, length⟩ := ih
      refine ⟨?_, ?_, ?_⟩
      · rw [text] at spelled
        rw [text, List.replicate_succ, List.flatMap_cons, spelled]
        rfl
      · rw [Matching, List.replicate_succ, List.filterMap_cons_none rfl]
        exact matching
      · rw [List.replicate_succ, rendered_itself letterA _ [] rfl, List.length_append, length, Nat.add_comm]
        rfl

-- `count` goes below zero.
theorem kprintf_count_overflows : ∃ pieces, StringAt longMem 0x1000 (text pieces) ∧ Matching pieces [] ∧
    ∃ s, (∀ fuel, pieces.length < fuel → kprintf longMem 0x1000 0 fuel = .ok s) ∧ s.out.length = 2 ^ 31 ∧
      s.returned = -2 ^ 31 := by
  obtain ⟨spelled, matching, length⟩ := rendered_letters (2 ^ 31)
  have format : StringAt longMem 0x1000 (text (List.replicate (2 ^ 31) letterA)) := by
    rw [spelled]
    apply string_replicate longMem _ (by decide)
    · intro i before
      rw [charAt, longMem, if_pos (by omega)]
    · rw [charAt, longMem, if_neg (by omega)]
  obtain ⟨s, returns, emits⟩ :=
    loop_rendered longMem _ [] ⟨0x1000, 0, 0, [], []⟩ format matching trivial (Nat.two_pow_pos 32)
  have out : s.out.length = 2 ^ 31 := by rw [emits.out, List.nil_append, length]
  refine ⟨_, format, matching, s, returns, out, ?_⟩
  rw [State.returned, emits.count, Nat.zero_add, length]
  decide

end X86OS.Kprintf
