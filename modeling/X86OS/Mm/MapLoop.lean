import X86OS.Mm.MapSteps

set_option autoImplicit false

namespace X86OS.Paging

open Mem

-- One call of `map_range` or `early_map_range` with arguments the callers may pass.
structure MapCall where
  paddr : Nat
  vaddr : Nat
  size : Nat
  flag : Nat
  alignedP : 0x1000 ∣ paddr
  alignedV : 0x1000 ∣ vaddr
  endP : paddr + 0x1000 * size ≤ 2 ^ 32
  endV : vaddr + 0x1000 * size ≤ 2 ^ 32
  flags : LeafFlags flag

namespace MapCall

variable (c : MapCall)

def first : Nat := c.vaddr / 0x1000

def frame (i : Nat) : Nat := c.paddr + 0x1000 * i

-- Iteration `i` (counted in pages) writes a 4 MiB entry.
def LargeAt (i : Nat) : Prop := 1024 ∣ c.first + i ∧ fourMb ∣ c.frame i ∧ i + 1024 ≤ c.size

-- The variables of the loop after `i` pages.
def cursor (i table : Nat) : Cursor :=
  ⟨c.frame i % 2 ^ 32, (c.vaddr + 0x1000 * i) % 2 ^ 32, c.size - i, (c.first + i) / 1024, (c.first + i) % 1024, table⟩

theorem vaddr_eq : c.vaddr = 0x1000 * c.first := (Nat.mul_div_cancel' c.alignedV).symm

theorem page_bound (i : Nat) (inside : i < c.size) : c.first + i < 2 ^ 20 ∧ (c.first + i) / 1024 < 1024 := by
  have place := c.vaddr_eq
  have bound := c.endV
  omega

theorem frame_page (i : Nat) (inside : i < c.size) : 0x1000 ∣ c.frame i ∧ c.frame i < 2 ^ 32 := by
  have aligned := c.alignedP
  have bound := c.endP
  simp only [frame]
  omega

theorem cursor_zero (nonempty : 0 < c.size) :
    (⟨c.paddr, c.vaddr, c.size, (c.vaddr >>> 22) &&& 0x3FF, (c.vaddr >>> 12) &&& 0x3FF, 0⟩ : Cursor) =
      c.cursor 0 0 := by
  have place := c.vaddr_eq
  have boundV := c.endV
  have boundP := c.endP
  have wrap (x : Nat) : x &&& 0x3FF = x % 1024 := Nat.and_two_pow_sub_one_eq_mod x 10
  simp only [cursor, frame, Cursor.mk.injEq, and_true, wrap, Nat.shiftRight_eq_div_pow]
  omega

theorem large_cond (i table : Nat) (inside : i < c.size) :
    (isAligned (c.cursor i table).vaddr fourMb = true ∧ isAligned (c.cursor i table).paddr fourMb = true ∧
      1024 ≤ (c.cursor i table).size) ↔ c.LargeAt i := by
  have place := c.vaddr_eq
  have bound := c.endV
  have frame := c.frame_page i inside
  have alignedV := is_aligned_iff ((c.vaddr + 0x1000 * i) % 2 ^ 32) 22
  have alignedP := is_aligned_iff (c.frame i % 2 ^ 32) 22
  simp only [cursor, LargeAt]
  rw [show fourMb = 2 ^ 22 from rfl, alignedV, alignedP, Nat.mod_eq_of_lt frame.2, Nat.mod_eq_of_lt (by omega)]
  omega

theorem cursor_large (i table : Nat) (large : c.LargeAt i) :
    (⟨Word.add (c.cursor i table).paddr fourMb, Word.add (c.cursor i table).vaddr fourMb,
      (c.cursor i table).size - 1024, (c.cursor i table).pde + 1, (c.cursor i table).pte,
      (c.cursor i table).pageTable⟩ : Cursor) =
        c.cursor (i + 1024) table := by
  obtain ⟨slot, -, -⟩ := large
  simp only [cursor, Word.add, fourMb, frame, Cursor.mk.injEq, and_true]
  omega

theorem cursor_small (i table : Nat) :
    (⟨Word.add (c.cursor i table).paddr 0x1000, Word.add (c.cursor i table).vaddr 0x1000, (c.cursor i table).size - 1,
      if ((c.cursor i table).pte + 1) &&& (1024 - 1) = 0 then (c.cursor i table).pde + 1 else (c.cursor i table).pde,
      ((c.cursor i table).pte + 1) &&& (1024 - 1), (c.cursor i table).pageTable⟩ : Cursor) =
        c.cursor (i + 1) table := by
  have wrap (x : Nat) : x &&& (1024 - 1) = x % 1024 := Nat.and_two_pow_sub_one_eq_mod x 10
  simp only [cursor, Word.add, frame, Cursor.mk.injEq, and_true, wrap]
  refine ⟨by omega, by omega, by omega, ?_, by omega⟩
  split <;> omega

end MapCall

section Rule

variable {S : Type} (T : TableSource S) (pd : Nat) (c : MapCall)

-- The state after the small entry of iteration `i`, when `s` is the state with its table open.
def writePage (i : Nat) (s : S) : S :=
  setEntry T s (tableOf T pd ((c.first + i) / 1024) s) ((c.first + i) % 1024) (c.frame i ||| c.flag)

-- The table kept from the last iteration is the one a fresh look would find.
def Cached (i table : Nat) (s : S) : Prop :=
  (c.first + i) % 1024 ≠ 0 → table ≠ 0 →
    isPresent (entry (T.mem s) pd ((c.first + i) / 1024)) = true ∧ table = tableOf T pd ((c.first + i) / 1024) s

theorem map_step_large (i table : Nat) (s : S) (inside : i < c.size) (large : c.LargeAt i) :
    mapStep T pd c.flag (c.cursor i table) s =
      .ok
        (c.cursor (i + 1024) table, setEntry T s pd ((c.first + i) / 1024) (c.frame i ||| pageSize4Mb ||| c.flag)) := by
  rw [mapStep, if_pos ((c.large_cond i table inside).mpr large), mapLarge, ← c.cursor_large i table large]
  simp only [MapCall.cursor, Nat.mod_eq_of_lt (c.frame_page i inside).2]

theorem open_table_present (k flag : Nat) (s : S) (present : isPresent (entry (T.mem s) pd k) = true) :
    openTable T pd k flag s = .ok s := by
  rw [openTable, if_neg]
  simpa [isPresent] using present

theorem map_step_small (i table : Nat) (s : S) (inside : i < c.size) (small : ¬ c.LargeAt i)
    (cached : Cached T pd c i table s) :
    mapStep T pd c.flag (c.cursor i table) s =
      match openTable T pd ((c.first + i) / 1024) c.flag s with
      | .error e => .error e
      | .ok s => .ok (c.cursor (i + 1) (tableOf T pd ((c.first + i) / 1024) s), writePage T pd c i s) := by
  have written (t : Nat) (s : S) : mapSmall T c.flag (c.cursor i t) s =
      (c.cursor (i + 1) t, setEntry T s t ((c.first + i) % 1024) (c.frame i ||| c.flag)) := by
    rw [mapSmall, ← c.cursor_small i t]
    simp only [MapCall.cursor, Nat.mod_eq_of_lt (c.frame_page i inside).2]
  rw [mapStep, if_neg (mt (c.large_cond i table inside).mp small)]
  by_cases look : (c.cursor i table).pte = 0 ∨ (c.cursor i table).pageTable = 0
  · rw [if_pos look]
    change (match openTable T pd ((c.first + i) / 1024) c.flag s with
      | .error e => Except.error e
      | .ok s => .ok (mapSmall T c.flag (c.cursor i (tableOf T pd ((c.first + i) / 1024) s)) s)) = _
    simp only [written]
    rfl
  · rw [if_neg look, written]
    obtain ⟨present, same⟩ := cached (fun zero => look (.inl zero)) (fun zero => look (.inr zero))
    rw [open_table_present T pd _ _ s present]
    simp only [writePage, same]

-- `P i`, with `i` counted in pages, survives each of the two kinds of iteration.
structure LoopInvariant (P : Nat → S → Prop) : Prop where
  large : ∀ i s, P i s → i < c.size → c.LargeAt i →
    P (i + 1024) (setEntry T s pd ((c.first + i) / 1024) (c.frame i ||| pageSize4Mb ||| c.flag))
  small : ∀ i s s', P i s → i < c.size → ¬ c.LargeAt i → openTable T pd ((c.first + i) / 1024) c.flag s = .ok s' →
    P (i + 1) (writePage T pd c i s') ∧ isPresent (entry (T.mem s') pd ((c.first + i) / 1024)) = true ∧
      entry (T.mem (writePage T pd c i s')) pd ((c.first + i) / 1024) = entry (T.mem s') pd ((c.first + i) / 1024)

-- The loop keeps its invariant and stops early only where a page table cannot be had.
theorem map_loop_rule (P : Nat → S → Prop) (invariant : LoopInvariant T pd c P) (fuel i table : Nat) (s : S)
    (start : P i s) (inside : i ≤ c.size) (enough : c.size ≤ i + fuel) (cached : Cached T pd c i table s) :
    (∃ s', mapLoop T pd c.flag fuel (c.cursor i table) s = .ok s' ∧ P c.size s') ∨
      ∃ j s' e, P j s' ∧ j < c.size ∧ ¬ c.LargeAt j ∧ openTable T pd ((c.first + j) / 1024) c.flag s' = .error e ∧
        mapLoop T pd c.flag fuel (c.cursor i table) s = .error e := by
  induction fuel generalizing i table s with
  | zero =>
      obtain rfl : i = c.size := by omega
      exact .inl ⟨s, rfl, start⟩
  | succ fuel ih =>
      by_cases done : i = c.size
      · subst done
        refine .inl ⟨s, ?_, start⟩
        rw [mapLoop, if_pos (by simp [MapCall.cursor])]
      · have running : (c.cursor i table).size ≠ 0 := by
          simp only [MapCall.cursor]
          omega
        rw [mapLoop, if_neg running]
        by_cases isLargeStep : c.LargeAt i
        · rw [map_step_large T pd c i table s (by omega) isLargeStep]
          have next := invariant.large i s start (by omega) isLargeStep
          obtain ⟨slot, -, room⟩ := isLargeStep
          exact ih (i + 1024) table _ next room (by omega) (fun notZero => absurd notZero (by omega))
        · rw [map_step_small T pd c i table s (by omega) isLargeStep cached]
          cases opened : openTable T pd ((c.first + i) / 1024) c.flag s with
          | error e => exact .inr ⟨i, s, e, start, by omega, isLargeStep, opened, rfl⟩
          | ok s' =>
              obtain ⟨next, present, kept⟩ := invariant.small i s s' start (by omega) isLargeStep opened
              apply ih (i + 1) _ _ next (by omega) (by omega)
              intro sameSlot _
              have slot : (c.first + (i + 1)) / 1024 = (c.first + i) / 1024 := by omega
              rw [slot, kept]
              exact ⟨present, by simp only [tableOf, kept]⟩

theorem map_pages_rule (P : Nat → S → Prop) (invariant : LoopInvariant T pd c P) (s : S) (start : P 0 s) :
    (∃ s', mapPages T pd c.paddr c.vaddr c.size c.flag s = .ok s' ∧ P c.size s') ∨
      ∃ j s' e, P j s' ∧ j < c.size ∧ ¬ c.LargeAt j ∧ openTable T pd ((c.first + j) / 1024) c.flag s' = .error e ∧
        mapPages T pd c.paddr c.vaddr c.size c.flag s = .error e := by
  by_cases nonempty : 0 < c.size
  · rw [mapPages, c.cursor_zero nonempty]
    exact map_loop_rule T pd c P invariant c.size 0 0 s start (by omega) (by omega)
      (fun _ notNull => absurd rfl notNull)
  · have empty : c.size = 0 := by omega
    refine .inl ⟨s, ?_, empty ▸ start⟩
    rw [mapPages, empty]
    rfl

end Rule

end X86OS.Paging
