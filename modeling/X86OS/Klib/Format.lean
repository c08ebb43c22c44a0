import X86OS.Klib.Kprintf

set_option autoImplicit false

namespace X86OS.Kprintf

open Mem Numeral

def TextAt (mem : Mem) : Nat → List UInt8 → Prop
  | _, [] => True
  | p, c :: rest => charAt mem p = c ∧ TextAt mem (p + 1) rest

structure StringAt (mem : Mem) (p : Nat) (text : List UInt8) : Prop where
  shown : TextAt mem p (text ++ [0])
  noNul : 0 ∉ text

-- A format is a sequence of characters to be copied and of directives. The letter `l` ends a
-- directive only after two others.
inductive Piece where
  | literal (c : UInt8) (plain : c ≠ 0 ∧ c ≠ '%'.toUInt8)
  | directive (longs : Nat) (letter : UInt8) (few : longs ≤ 2) (ends : letter = 'l'.toUInt8 → longs = 2)
      (some : letter ≠ 0)

def Piece.text : Piece → List UInt8
  | .literal c _ => [c]
  | .directive longs letter _ _ _ => '%'.toUInt8 :: (List.replicate longs 'l'.toUInt8 ++ [letter])

def text (pieces : List Piece) : List UInt8 := pieces.flatMap Piece.text

-- Every `%` starts a directive that is not cut off by the end.
def Complete (format : List UInt8) : Prop := ∃ pieces, format = text pieces

theorem text_append (mem : Mem) (p : Nat) (front back : List UInt8) :
    TextAt mem p (front ++ back) ↔ TextAt mem p front ∧ TextAt mem (p + front.length) back := by
  induction front generalizing p with
  | nil => simp [TextAt]
  | cons c front ih =>
      simp only [List.cons_append, TextAt, ih, and_assoc, List.length_cons, Nat.add_assoc, Nat.add_comm 1]

theorem string_append (mem : Mem) (p : Nat) (front back : List UInt8) (here : StringAt mem p (front ++ back)) :
    TextAt mem p front ∧ StringAt mem (p + front.length) back := by
  have shown := here.shown
  have noNul := here.noNul
  rw [List.append_assoc, text_append] at shown
  exact ⟨shown.1, shown.2, fun member => noNul (List.mem_append_right _ member)⟩

-- Memory repeats after 2^32, so a string is shorter.
theorem text_get (mem : Mem) (p i : Nat) (shown : List UInt8) (here : TextAt mem p shown) (inside : i < shown.length) :
    charAt mem (p + i) = shown.get ⟨i, inside⟩ := by
  induction shown generalizing p i with
  | nil => simp at inside
  | cons c rest ih =>
      cases i with
      | zero => exact here.1
      | succ i =>
          have later := ih (p + 1) i here.2 (by simpa using inside)
          rw [Nat.add_assoc, Nat.add_comm 1 i] at later
          exact later

theorem string_short (mem : Mem) (p : Nat) (shown : List UInt8) (here : StringAt mem p shown) :
    shown.length < 2 ^ 32 := by
  by_contra long
  have stop := ((text_append mem p shown [0]).mp here.shown).2.1
  have same : (p + (shown.length - 2 ^ 32)) % 2 ^ 32 = (p + shown.length) % 2 ^ 32 := by omega
  have again : charAt mem (p + (shown.length - 2 ^ 32)) = 0 := by
    rw [charAt] at stop ⊢
    rw [same, stop]
  have inside : shown.length - 2 ^ 32 < shown.length := by omega
  rw [text_get mem p _ shown ((text_append mem p shown [0]).mp here.shown).1 inside] at again
  exact here.noNul (again ▸ List.get_mem shown _)

theorem print_str_spec (mem : Mem) (fuel str count : Nat) (shown out : List UInt8) (here : StringAt mem str shown)
    (small : count < 2 ^ 32) (enough : shown.length < fuel) :
    printStr mem fuel str count out = .ok ((count + shown.length) % 2 ^ 32, out ++ shown) := by
  induction fuel generalizing str count shown out with
  | zero => omega
  | succ fuel ih =>
      rw [printStr]
      cases shown with
      | nil =>
          rw [if_pos here.shown.1, List.length_nil, Nat.add_zero, Nat.mod_eq_of_lt small, List.append_nil]
      | cons c rest =>
          obtain ⟨⟨first, -⟩, later⟩ := string_append mem str [c] rest here
          have notNul : c ≠ 0 := fun zero => here.noNul (zero ▸ List.mem_cons_self)
          have next : Word.add count 1 = (count + 1) % 2 ^ 32 := by rw [Word.add, Nat.add_comm]
          rw [first, if_neg notNul,
            ih (str + 1) _ rest _ later (by rw [next]; exact Nat.mod_lt _ (by decide)) (by simpa using enough), next,
            Nat.mod_add_mod, List.append_assoc, List.length_cons, Nat.add_assoc, Nat.add_comm 1]
          rfl

theorem print_str_returns (mem : Mem) (fuel str count stop : Nat) (out : List UInt8) (nul : charAt mem (str + stop) = 0)
    (enough : stop < fuel) : ∃ result, printStr mem fuel str count out = .ok result := by
  induction fuel generalizing str count stop out with
  | zero => omega
  | succ fuel ih =>
      rw [printStr]
      split
      · exact ⟨_, rfl⟩
      · next going =>
          cases stop with
          | zero => exact absurd nul going
          | succ stop => exact ih (str + 1) _ stop _ (by rwa [Nat.add_assoc, Nat.add_comm 1]) (by omega)

theorem scan_longs_spec (mem : Mem) (s : State) (longs : Nat) (letter : UInt8) (few : longs ≤ 2)
    (ends : letter = 'l'.toUInt8 → longs = 2)
    (here : TextAt mem (s.fmt + 1) (List.replicate longs 'l'.toUInt8 ++ [letter])) :
    ∃ seen, scanLongs mem s =
      (decide (0 < longs), decide (longs = 2), { s with fmt := s.fmt + 1 + longs, reads := seen ++ s.reads }) ∧
      ∀ p ∈ seen, p ≤ s.fmt + 1 + longs := by
  obtain rfl | rfl | rfl : longs = 0 ∨ longs = 1 ∨ longs = 2 := by omega
  · have other : letter ≠ 'l'.toUInt8 := fun same => absurd (ends same) (by decide)
    refine ⟨[s.fmt + 1], ?_, by simp⟩
    simp [scanLongs, State.next, show charAt mem (s.fmt + 1) = letter from here.1, other]
  · have other : letter ≠ 'l'.toUInt8 := fun same => absurd (ends same) (by decide)
    refine ⟨[s.fmt + 1 + 1, s.fmt + 1], ?_, by simp⟩
    simp [scanLongs, State.next, show charAt mem (s.fmt + 1) = 'l'.toUInt8 from here.1,
      show charAt mem (s.fmt + 1 + 1) = letter from here.2.1, other]
  · refine ⟨[s.fmt + 1 + 1, s.fmt + 1], ?_, by simp⟩
    simp [scanLongs, State.next, show charAt mem (s.fmt + 1) = 'l'.toUInt8 from here.1,
      show charAt mem (s.fmt + 1 + 1) = 'l'.toUInt8 from here.2.1]

theorem body_directive (mem : Mem) (s : State) (longs : Nat) (letter : UInt8) (few : longs ≤ 2)
    (ends : letter = 'l'.toUInt8 → longs = 2)
    (here : TextAt mem s.fmt ('%'.toUInt8 :: (List.replicate longs 'l'.toUInt8 ++ [letter]))) :
    ∃ seen, body mem s = convert mem (decide (0 < longs)) (decide (longs = 2))
        { s with fmt := s.fmt + 1 + longs, reads := seen ++ s.reads } ∧
      charAt mem (s.fmt + 1 + longs) = letter ∧ ∀ p ∈ seen, p ≤ s.fmt + 1 + longs := by
  obtain ⟨seen, scanned, inside⟩ := scan_longs_spec mem s longs letter few ends here.2
  refine ⟨seen, ?_, ?_, inside⟩
  · rw [body, if_pos here.1, scanned]
  · have last := ((text_append mem _ _ _).mp here.2).2.1
    rwa [List.length_replicate] at last

theorem add_spec (s s' : State) (result : Except String (Nat × List UInt8)) (done : s.add result = .ok s') :
    s'.fmt = s.fmt ∧ s'.reads = s.reads := by
  cases result with
  | error e => cases done
  | ok result =>
      cases done
      exact ⟨rfl, rfl⟩

theorem convert_frame (mem : Mem) (longCheck longFlag : Bool) (s s' : State)
    (done : convert mem longCheck longFlag s = .ok s') :
    s'.fmt = s.fmt ∧ s'.reads = s.fmt :: s.reads := by
  rw [convert] at done
  simp only at done
  split at done
  · split at done <;> exact add_spec _ _ _ done
  · split at done <;> exact add_spec _ _ _ done
  · split at done <;> exact add_spec _ _ _ done
  · cases done
    exact ⟨rfl, rfl⟩
  · exact add_spec _ _ _ done
  · cases done
    exact ⟨rfl, rfl⟩
  · cases done
    split <;> exact ⟨rfl, rfl⟩

theorem add_returns (s : State) (result : Except String (Nat × List UInt8))
    (returns : ∃ printed, result = .ok printed) :
    ∃ s', s.add result = .ok s' := by
  obtain ⟨printed, rfl⟩ := returns
  exact ⟨_, rfl⟩

-- Whatever the arguments are, the `switch` gets through: a wild string runs into the format's
-- own end at the latest.
theorem convert_returns (mem : Mem) (stop : Nat) (nul : charAt mem stop = 0) (longCheck longFlag : Bool) (s : State) :
    ∃ s', convert mem longCheck longFlag s = .ok s' := by
  have word := word_bound mem s.read
  have long := long_bound mem s.read
  rw [convert]
  simp only
  split
  · split
    · exact add_returns _ _ ⟨_, signed_prints _ 64 _ (by decide) (by decide) long⟩
    · exact add_returns _ _ ⟨_, signed_prints _ 32 _ (by decide) (by decide) word⟩
  · split
    · exact add_returns _ _ ⟨_, unsigned_prints 10 _ 64 _ (by decide) (by decide) long⟩
    · exact add_returns _ _ ⟨_, unsigned_prints 10 _ 32 _ (by decide) (by decide) word⟩
  · split
    · exact add_returns _ _ ⟨_, unsigned_prints 16 _ 64 _ (by decide) (by decide) long⟩
    · exact add_returns _ _ ⟨_, unsigned_prints 16 _ 32 _ (by decide) (by decide) word⟩
  · exact ⟨_, rfl⟩
  · apply add_returns
    refine print_str_returns mem (2 ^ 32) _ 0 ((stop + 2 ^ 32 - s.read.word mem) % 2 ^ 32) _ ?_
      (Nat.mod_lt _ (by decide))
    have same : (s.read.word mem + (stop + 2 ^ 32 - s.read.word mem) % 2 ^ 32) % 2 ^ 32 = stop % 2 ^ 32 := by omega
    rw [charAt, same]
    exact nul
  · exact ⟨_, rfl⟩
  · exact ⟨_, rfl⟩

theorem string_nul (mem : Mem) (p : Nat) (format : List UInt8) (here : StringAt mem p format) :
    charAt mem (p + format.length) = 0 :=
  ((text_append mem p format [0]).mp here.shown).2.1

theorem piece_returns (mem : Mem) (s : State) (p : Piece) (rest : List UInt8)
    (here : StringAt mem s.fmt (p.text ++ rest)) :
    ∃ s', body mem s.read = .ok s' := by
  have first := (string_append mem s.fmt p.text rest here).1
  cases p with
  | literal c plain =>
      have notPercent : charAt mem s.read.fmt ≠ '%'.toUInt8 := fun same => plain.2 (first.1.symm.trans same)
      rw [body, if_neg notPercent]
      exact ⟨_, rfl⟩
  | directive longs letter few ends some =>
      obtain ⟨seen, done, -⟩ := body_directive mem s.read longs letter few ends first
      rw [done]
      exact convert_returns mem _ (string_nul mem s.fmt _ here) _ _ _

theorem piece_step (mem : Mem) (s s' : State) (p : Piece) (rest : List UInt8)
    (here : StringAt mem s.fmt (p.text ++ rest)) (done : body mem s.read = .ok s') :
    charAt mem s.fmt ≠ 0 ∧ s'.fmt + 1 = s.fmt + p.text.length ∧
      ∃ seen, s'.reads = seen ++ s.reads ∧ ∀ q ∈ seen, q < s.fmt + p.text.length := by
  have first := (string_append mem s.fmt p.text rest here).1
  cases p with
  | literal c plain =>
      have notPercent : charAt mem s.read.fmt ≠ '%'.toUInt8 := fun same => plain.2 (first.1.symm.trans same)
      rw [body, if_neg notPercent] at done
      cases done
      exact ⟨fun zero => plain.1 (first.1.symm.trans zero), rfl, [s.fmt], rfl, by simp [Piece.text]⟩
  | directive longs letter few ends some =>
      obtain ⟨seen, scanned, -, inside⟩ := body_directive mem s.read longs letter few ends first
      rw [scanned] at done
      obtain ⟨fmt, reads⟩ := convert_frame mem _ _ _ _ done
      have length : (Piece.directive longs letter few ends some).text.length = longs + 2 := by simp [Piece.text]
      simp only [State.read] at fmt reads inside
      rw [length]
      refine ⟨by rw [first.1]; decide, by omega, (s.fmt + 1 + longs) :: seen ++ [s.fmt], by simp [reads], ?_⟩
      intro q member
      simp only [List.cons_append, List.mem_cons, List.mem_append, List.not_mem_nil, or_false] at member
      rcases member with rfl | inSeen | rfl
      · omega
      · have := inside q inSeen
        omega
      · omega

theorem loop_stops (mem : Mem) (s : State) (ended : charAt mem s.fmt = 0) (fuel : Nat) (enough : 0 < fuel) :
    kprintfLoop mem fuel s = .ok s.read := by
  cases fuel with
  | zero => omega
  | succ fuel =>
      rw [kprintfLoop]
      exact if_pos ended

theorem loop_next (mem : Mem) (fuel : Nat) (s s' : State) (going : charAt mem s.fmt ≠ 0)
    (done : body mem s.read = .ok s') :
    kprintfLoop mem (fuel + 1) s = kprintfLoop mem fuel { s' with fmt := s'.fmt + 1 } := by
  rw [kprintfLoop]
  simp only [done]
  exact if_neg going

theorem loop_goes_on (mem : Mem) (s s1 s' : State) (n : Nat) (going : charAt mem s.fmt ≠ 0)
    (done : body mem s.read = .ok s1)
    (returns : ∀ fuel, n < fuel → kprintfLoop mem fuel { s1 with fmt := s1.fmt + 1 } = .ok s') (fuel : Nat)
    (enough : n + 1 < fuel) :
    kprintfLoop mem fuel s = .ok s' := by
  cases fuel with
  | zero => omega
  | succ fuel =>
      rw [loop_next mem fuel s s1 going done]
      exact returns fuel (by omega)

theorem loop_inside (mem : Mem) (pieces : List Piece) (s : State) (format : StringAt mem s.fmt (text pieces)) :
    ∃ s' seen, (∀ fuel, pieces.length < fuel → kprintfLoop mem fuel s = .ok s') ∧ s'.reads = seen ++ s.reads ∧
      ∀ q ∈ seen, q ≤ s.fmt + (text pieces).length := by
  induction pieces generalizing s with
  | nil =>
      exact ⟨s.read, [s.fmt], loop_stops mem s format.shown.1, rfl, by simp⟩
  | cons p pieces ih =>
      rw [text, List.flatMap_cons] at format
      obtain ⟨s1, done⟩ := piece_returns mem s p _ format
      obtain ⟨going, fmt, seen1, reads1, inside1⟩ := piece_step mem s s1 p _ format done
      obtain ⟨s', seen, returns, reads, inside⟩ :=
        ih { s1 with fmt := s1.fmt + 1 } (fmt ▸ (string_append mem s.fmt _ _ format).2)
      refine ⟨s', seen ++ seen1, loop_goes_on mem s s1 s' _ going done returns, ?_, ?_⟩
      · rw [reads, reads1, List.append_assoc]
      · have length : (text (p :: pieces)).length = p.text.length + (text pieces).length := by simp [text]
        intro q member
        rw [length]
        rcases List.mem_append.mp member with later | earlier
        · have := inside q later
          simp only [fmt] at this
          omega
        · have := inside1 q earlier
          omega

theorem scan_longs_reads (mem : Mem) (s : State) : ∃ seen, (scanLongs mem s).2.2.reads = seen ++ s.reads := by
  by_cases long : charAt mem (s.fmt + 1) = 'l'.toUInt8
  · by_cases longLong : charAt mem (s.fmt + 1 + 1) = 'l'.toUInt8
    · exact ⟨[s.fmt + 1 + 1, s.fmt + 1], by simp [scanLongs, State.next, long, longLong]⟩
    · exact ⟨[s.fmt + 1 + 1, s.fmt + 1], by simp [scanLongs, State.next, long, longLong]⟩
  · exact ⟨[s.fmt + 1], by simp [scanLongs, State.next, long]⟩

theorem body_reads (mem : Mem) (s s' : State) (done : body mem s = .ok s') : ∃ seen, s'.reads = seen ++ s.reads := by
  obtain ⟨seen, scanned⟩ := scan_longs_reads mem s
  rcases scan : scanLongs mem s with ⟨longCheck, longFlag, s1⟩
  rw [body, scan] at done
  rw [scan] at scanned
  split at done
  · obtain ⟨-, reads⟩ := convert_frame mem _ _ _ _ done
    exact ⟨s1.fmt :: seen, by rw [reads, scanned, List.cons_append]⟩
  · cases done
    exact ⟨[], rfl⟩

theorem loop_reads (mem : Mem) (fuel : Nat) (s s' : State) (done : kprintfLoop mem fuel s = .ok s') :
    ∃ seen, s'.reads = seen ++ s.fmt :: s.reads := by
  induction fuel generalizing s with
  | zero => cases done
  | succ fuel ih =>
      rw [kprintfLoop] at done
      split at done
      · cases done
        exact ⟨[], rfl⟩
      · split at done
        · cases done
        · next s1 iteration =>
            obtain ⟨seen1, reads1⟩ := body_reads mem _ s1 iteration
            obtain ⟨seen, reads⟩ := ih _ done
            refine ⟨seen ++ (s1.fmt + 1) :: seen1, ?_⟩
            rw [reads, reads1]
            simp [State.read]

theorem next_piece (format : List UInt8) (noNul : 0 ∉ format) :
    format = [] ∨ (∃ (p : Piece) (rest : List UInt8), format = p.text ++ rest) ∨
      ∃ longs ≤ 2, format = '%'.toUInt8 :: List.replicate longs 'l'.toUInt8 := by
  have notNul (c : UInt8) (member : c ∈ format) : c ≠ 0 := fun zero => noNul (zero ▸ member)
  cases format with
  | nil => exact .inl rfl
  | cons c rest =>
      by_cases percent : c = '%'.toUInt8
      · subst percent
        cases rest with
        | nil => exact .inr (.inr ⟨0, by decide, rfl⟩)
        | cons c1 rest =>
            by_cases long : c1 = 'l'.toUInt8
            · subst long
              cases rest with
              | nil => exact .inr (.inr ⟨1, by decide, rfl⟩)
              | cons c2 rest =>
                  by_cases longLong : c2 = 'l'.toUInt8
                  · subst longLong
                    cases rest with
                    | nil => exact .inr (.inr ⟨2, by decide, rfl⟩)
                    | cons c3 rest =>
                        exact .inr (.inl ⟨.directive 2 c3 (by decide) (fun _ => rfl) (notNul c3 (by simp)), rest, rfl⟩)
                  · exact .inr (.inl
                      ⟨.directive 1 c2 (by decide) (fun same => absurd same longLong) (notNul c2 (by simp)), rest, rfl⟩)
            · exact .inr
                (.inl ⟨.directive 0 c1 (by decide) (fun same => absurd same long) (notNul c1 (by simp)), rest, rfl⟩)
      · exact .inr (.inl ⟨.literal c ⟨notNul c (by simp), percent⟩, rest, rfl⟩)

-- The `switch` takes the NUL for a letter, and `fmt++` steps over it.
theorem cut_off_reads (mem : Mem) (s s' : State) (longs fuel : Nat) (few : longs ≤ 2)
    (here : StringAt mem s.fmt ('%'.toUInt8 :: List.replicate longs 'l'.toUInt8))
    (done : kprintfLoop mem fuel s = .ok s') :
    s.fmt + longs + 2 ∈ s'.reads := by
  cases fuel with
  | zero => cases done
  | succ fuel =>
      have going : charAt mem s.fmt ≠ 0 := by
        rw [here.shown.1]
        decide
      obtain ⟨seen, scanned, -⟩ :=
        body_directive mem s.read longs 0 few (fun same => absurd same (by decide)) here.shown
      obtain ⟨s1, iteration⟩ :=
        convert_returns mem _ (string_nul mem s.fmt _ here) (decide (0 < longs)) (decide (longs = 2))
        { s.read with fmt := s.read.fmt + 1 + longs, reads := seen ++ s.read.reads }
      obtain ⟨fmt, -⟩ := convert_frame mem _ _ _ _ iteration
      rw [loop_next mem fuel s s1 going (scanned.trans iteration)] at done
      obtain ⟨later, reads⟩ := loop_reads mem fuel _ s' done
      have place : s.fmt + longs + 2 = s1.fmt + 1 := by
        simp only [State.read] at fmt
        omega
      rw [reads, place]
      simp

theorem incomplete_reads (mem : Mem) (format : List UInt8) (s s' : State) (fuel : Nat)
    (here : StringAt mem s.fmt format) (incomplete : ¬ Complete format) (done : kprintfLoop mem fuel s = .ok s') :
    s.fmt + format.length + 1 ∈ s'.reads := by
  induction fuel generalizing format s with
  | zero => cases done
  | succ fuel ih =>
      rcases next_piece format here.noNul with rfl | ⟨p, rest, rfl⟩ | ⟨longs, few, rfl⟩
      · exact absurd ⟨[], rfl⟩ incomplete
      · obtain ⟨s1, iteration⟩ := piece_returns mem s p rest here
        obtain ⟨going, fmt, -⟩ := piece_step mem s s1 p rest here iteration
        have later : ¬ Complete rest := by
          rintro ⟨pieces, rfl⟩
          exact incomplete ⟨p :: pieces, rfl⟩
        rw [loop_next mem fuel s s1 going iteration] at done
        have read := ih rest { s1 with fmt := s1.fmt + 1 } (fmt ▸ (string_append mem s.fmt _ _ here).2) later done
        simp only [fmt] at read
        rwa [List.length_append, ← Nat.add_assoc]
      · have read := cut_off_reads mem s s' longs (fuel + 1) few here done
        rw [List.length_cons, List.length_replicate]
        exact read

-- With enough fuel `kprintf` returns, having read nothing behind the NUL at `fmt + n`.
def StaysInside (mem : Mem) (fmt args n : Nat) : Prop :=
  ∃ s bound, (∀ fuel, bound ≤ fuel → kprintf mem fmt args fuel = .ok s) ∧ ∀ q ∈ s.reads, q ≤ fmt + n

theorem kprintf_inside_iff (mem : Mem) (fmt args : Nat) (format : List UInt8) (here : StringAt mem fmt format) :
    StaysInside mem fmt args format.length ↔ Complete format := by
  constructor
  · rintro ⟨s, bound, returns, inside⟩
    by_contra incomplete
    have past := inside _ (incomplete_reads mem format _ s bound here incomplete (returns bound (Nat.le_refl _)))
    simp only at past
    omega
  · rintro ⟨pieces, rfl⟩
    obtain ⟨s, seen, returns, reads, inside⟩ := loop_inside mem pieces ⟨fmt, args, 0, [], []⟩ here
    refine ⟨s, pieces.length + 1, fun fuel enough => returns fuel enough, ?_⟩
    rw [reads, List.append_nil]
    exact inside

-- The format `text` at 0x1000, all else being zero.
def formatMem (format : List UInt8) : Mem := fun x => if x < 0x1000 then 0 else format.getD (x - 0x1000) 0

theorem kprintf_inside_decimal : StringAt (formatMem ['%'.toUInt8, 'd'.toUInt8]) 0x1000 ['%'.toUInt8, 'd'.toUInt8] ∧
    StaysInside (formatMem ['%'.toUInt8, 'd'.toUInt8]) 0x1000 0x2000 2 := by
  have here : StringAt (formatMem ['%'.toUInt8, 'd'.toUInt8]) 0x1000 ['%'.toUInt8, 'd'.toUInt8] :=
    ⟨⟨by decide, by decide, by decide, trivial⟩, by decide⟩
  refine ⟨here, (kprintf_inside_iff _ 0x1000 0x2000 _ here).mpr ⟨[.directive 0 'd'.toUInt8 ?_ ?_ ?_], rfl⟩⟩ <;> decide

-- The format is a single `%`.
theorem kprintf_past_end : StringAt (formatMem ['%'.toUInt8]) 0x1000 ['%'.toUInt8] ∧
    (∃ s, kprintf (formatMem ['%'.toUInt8]) 0x1000 0x2000 10 = .ok s ∧ 0x1002 ∈ s.reads) ∧
    ¬ StaysInside (formatMem ['%'.toUInt8]) 0x1000 0x2000 1 := by
  have here : StringAt (formatMem ['%'.toUInt8]) 0x1000 ['%'.toUInt8] := ⟨⟨by decide, by decide, trivial⟩, by decide⟩
  refine ⟨here, ⟨_, rfl, ?_⟩, ?_⟩
  · decide
  · rintro ⟨s, bound, returns, inside⟩
    have past := inside _ (cut_off_reads _ _ s 0 bound (by decide) here (returns bound (Nat.le_refl _)))
    simp only at past
    omega

end X86OS.Kprintf
