import X86OS.Mm.MapLoop
import Mathlib.Data.Nat.Count

set_option autoImplicit false

namespace X86OS.Paging

open Mem

namespace MapCall

variable (c : MapCall)

def Covers (page : Nat) : Prop := c.first ≤ page ∧ page < c.first + c.size

def Disjoint (d : MapCall) : Prop := ∀ page, ¬ (c.Covers page ∧ d.Covers page)

-- Some page of the range is in the slot.
def Meets (k : Nat) : Prop := 0 < c.size ∧ 1024 * k < c.first + c.size ∧ c.first < 1024 * k + 1024

-- The slot is mapped by one 4 MiB entry.
def LargeSlot (k : Nat) : Prop :=
  c.first ≤ 1024 * k ∧ 1024 * k + 1024 ≤ c.first + c.size ∧ fourMb ∣ c.frame (1024 * k - c.first)

-- The slot gets a new page table.
def Need (mem : Mem) (pd k : Nat) : Prop := c.Meets k ∧ ¬ c.LargeSlot k ∧ isPresent (entry mem pd k) = false

-- Some page of the range in this slot or a later one is among the first `i`.
def Reached (i k : Nat) : Prop := 0 < i ∧ 1024 * k < c.first + i

def bound (i : Nat) : Nat := if i = 0 then c.first / 1024 else (c.first + i + 1023) / 1024

instance (page : Nat) : Decidable (c.Covers page) := inferInstanceAs (Decidable (_ ∧ _))
instance (k : Nat) : Decidable (c.Meets k) := inferInstanceAs (Decidable (_ ∧ _ ∧ _))
instance (k : Nat) : Decidable (c.LargeSlot k) := inferInstanceAs (Decidable (_ ∧ _ ∧ _))
instance (i k : Nat) : Decidable (c.Reached i k) := inferInstanceAs (Decidable (_ ∧ _))
instance (mem : Mem) (pd : Nat) : DecidablePred (c.Need mem pd) := fun _ => inferInstanceAs (Decidable (_ ∧ _ ∧ _))

theorem large_at_iff (i : Nat) : c.LargeAt i ↔ 1024 ∣ c.first + i ∧ c.LargeSlot ((c.first + i) / 1024) := by
  constructor
  · rintro ⟨slot, aligned, room⟩
    have start : 1024 * ((c.first + i) / 1024) = c.first + i := Nat.mul_div_cancel' slot
    exact ⟨slot, by omega, by omega, by rw [start, Nat.add_sub_cancel_left]; exact aligned⟩
  · rintro ⟨slot, -, room, aligned⟩
    have start : 1024 * ((c.first + i) / 1024) = c.first + i := Nat.mul_div_cancel' slot
    rw [start, Nat.add_sub_cancel_left] at aligned
    exact ⟨slot, aligned, by omega⟩

theorem meets_at (i : Nat) (inside : i < c.size) : c.Meets ((c.first + i) / 1024) := by
  simp only [Meets]
  omega

theorem count_zero (mem : Mem) (pd : Nat) : Nat.count (c.Need mem pd) (c.first / 1024) = 0 := by
  rw [Nat.count_iff_forall_not]
  intro k below need
  have meets := need.1.2.2
  omega

theorem count_frames (mem : Mem) (pd k : Nat) (smallK : k < 1024) (need : c.Need mem pd k) :
    Nat.count (c.Need mem pd) k < Nat.count (c.Need mem pd) 1024 :=
  Nat.count_strict_mono need smallK

end MapCall

-- The 4 KiB part of the range meets no 4 MiB entry.
def ClearOfLarge (mem : Mem) (pd : Nat) (c : MapCall) : Prop :=
  ∀ k, k < 1024 → c.Meets k → ¬ c.LargeSlot k → isPresent (entry mem pd k) = true → isLarge (entry mem pd k) = false

section Effect

variable {S : Type} {T : TableSource S} {F : Frames} (supply : Supply T F) (pd : Nat) (c : MapCall) (n : Nat) (s : S)

def newWord (page : Nat) : Nat := supply.content (n + Nat.count (c.Need (T.mem s) pd) (page / 1024)) (page % 1024)

-- Directory and translation when the slots of the first `r` pages are open and the first
-- `i` pages are mapped.
def dirAfter (r k : Nat) : Nat :=
  if c.Reached r k ∧ c.Meets k then
    if c.LargeSlot k then c.frame (1024 * k - c.first) ||| pageSize4Mb ||| c.flag
    else if c.Need (T.mem s) pd k then
      F.addr (n + Nat.count (c.Need (T.mem s) pd) k) ||| (pagePresent ||| pageRw ||| c.flag)
    else entry (T.mem s) pd k
  else entry (T.mem s) pd k

def pagesAfter (i r page : Nat) : Option (Nat × Nat) :=
  if c.first ≤ page ∧ page < c.first + i then some (c.frame (page - c.first), c.flag)
  else if c.Need (T.mem s) pd (page / 1024) ∧ c.Reached r (page / 1024) then leaf (newWord supply pd c n s page)
  else translate (T.mem s) pd page

-- Bytes no mapping call touches: outside the directory, the tables and the new frames.
def Untouched (x : Nat) : Prop :=
  ¬ InPage pd x ∧ (∀ k, k < 1024 → Small (T.mem s) pd k → c.Meets k → ¬ InPage (p2v (frameOf (T.mem s) pd k)) x) ∧
    ∀ k, k < 1024 → c.Need (T.mem s) pd k → ¬ InPage (p2v (F.addr (n + Nat.count (c.Need (T.mem s) pd) k))) x

structure Progress (i r : Nat) (s' : S) : Prop where
  sound : Sound supply pd (n + Nat.count (c.Need (T.mem s) pd) (c.bound r)) s'
  dir : ∀ k, k < 1024 → entry (T.mem s') pd k = dirAfter (T := T) (F := F) pd c n s r k
  pages : ∀ page, page < 2 ^ 20 → translate (T.mem s') pd page = pagesAfter supply pd c n s i r page
  bytes : ∀ x, Untouched (T := T) (F := F) pd c n s x → T.mem s' x = T.mem s x

theorem reached_next (i k : Nat) (meets : c.Meets k) (other : k ≠ (c.first + i) / 1024) : c.Reached (i + 1) k ↔
    c.Reached i k := by
  simp only [MapCall.Reached, MapCall.Meets] at *
  omega

theorem dir_after_next (i k : Nat) (other : k ≠ (c.first + i) / 1024) :
    dirAfter (T := T) (F := F) pd c n s (i + 1) k = dirAfter (T := T) (F := F) pd c n s i k := by
  rw [dirAfter, dirAfter]
  by_cases meets : c.Meets k
  · simp only [reached_next c i k meets other]
  · simp only [meets, and_false, if_false]

theorem pages_after_next (i page : Nat) (other : page / 1024 ≠ (c.first + i) / 1024) :
    pagesAfter supply pd c n s i (i + 1) page = pagesAfter supply pd c n s i i page := by
  rw [pagesAfter, pagesAfter]
  by_cases need : c.Need (T.mem s) pd (page / 1024)
  · simp only [reached_next c i _ need.1 other]
  · simp only [need, false_and, if_false]

variable {supply pd c n s}

theorem progress_start (sound : Sound supply pd n s) : Progress supply pd c n s 0 0 s := by
  refine ⟨?_, ?_, ?_, fun _ _ => rfl⟩
  · rw [MapCall.bound, if_pos rfl, c.count_zero]
    exact sound
  · intro k _
    simp [dirAfter, MapCall.Reached]
  · intro page _
    rw [pagesAfter, if_neg (by omega), if_neg (by simp [MapCall.Reached])]

variable (alignedPd : 0x1000 ∣ pd)

include alignedPd

theorem progress_large (i : Nat) (s' : S) (inside : i < c.size) (large : c.LargeAt i)
    (progress : Progress supply pd c n s i i s') :
    Progress supply pd c n s (i + 1024) (i + 1024)
      (setEntry T s' pd ((c.first + i) / 1024) (c.frame i ||| pageSize4Mb ||| c.flag)) := by
  obtain ⟨slot, isSlot⟩ := (c.large_at_iff i).mp large
  obtain ⟨-, alignedFrame, roomLeft⟩ := large
  obtain ⟨smallPage, smallK⟩ := c.page_bound i inside
  obtain ⟨alignedPage, boundFrame⟩ := c.frame_page i inside
  obtain ⟨lowFlags, -, largeBit, -⟩ := large_flags c.flag c.flags
  have boundValue : c.frame i ||| pageSize4Mb ||| c.flag < 2 ^ 32 := by
    rw [Nat.or_assoc]
    exact entry_bound _ _ alignedPage boundFrame lowFlags
  have largeValue : isLarge (c.frame i ||| pageSize4Mb ||| c.flag) = true := by
    rw [Nat.or_assoc, entry_large _ _ alignedPage]
    exact largeBit
  generalize hk : (c.first + i) / 1024 = k at *
  have start : c.first + i = 1024 * k := by omega
  have place : 1024 * k - c.first = i := by omega
  have sameReached (k' : Nat) (meets : c.Meets k') (other : k' ≠ k) : c.Reached (i + 1024) k' ↔ c.Reached i k' := by
    simp only [MapCall.Reached, MapCall.Meets] at *
    omega
  have countSame :
      Nat.count (c.Need (T.mem s) pd) (c.bound (i + 1024)) = Nat.count (c.Need (T.mem s) pd) (c.bound i) := by
    have upper : c.bound (i + 1024) = k + 1 := by
      rw [MapCall.bound, if_neg (by omega)]
      omega
    have lower : c.bound i = k := by
      rw [MapCall.bound]
      split <;> omega
    rw [upper, lower, Nat.count_succ_eq_count_iff]
    exact fun need => need.2.1 isSlot
  refine ⟨?_, ?_, ?_, ?_⟩
  · rw [countSame]
    exact sound_large alignedPd progress.sound k _ smallK boundValue largeValue
  · intro k' bound'
    rw [set_entry_mem]
    by_cases here : k' = k
    · have reached : c.Reached (i + 1024) k ∧ c.Meets k := by
        simp only [MapCall.Reached, MapCall.Meets]
        omega
      rw [here, entry_here _ _ _ _ boundValue, dirAfter, if_pos reached, if_pos isSlot, place]
    · rw [entry_other _ _ _ _ _ (Ne.symm here), progress.dir k' bound', dirAfter, dirAfter]
      by_cases meets : c.Meets k'
      · simp only [sameReached k' meets here]
      · simp only [meets, and_false, if_false]
  · intro page insidePage
    rw [translate_set_large alignedPd progress.sound k (c.frame i) c.flag page smallK boundFrame alignedFrame
      c.flags insidePage]
    by_cases here : page / 1024 = k
    · rw [if_pos here, pagesAfter, if_pos (by omega)]
      simp only [MapCall.frame, Option.some.injEq, Prod.mk.injEq, and_true]
      omega
    · have range : (c.first ≤ page ∧ page < c.first + (i + 1024)) ↔ (c.first ≤ page ∧ page < c.first + i) := by omega
      rw [if_neg here, progress.pages page insidePage, pagesAfter, pagesAfter]
      by_cases need : c.Need (T.mem s) pd (page / 1024)
      · simp only [range, sameReached _ need.1 here]
      · simp only [range, need, false_and, if_false]
  · intro x untouched
    rw [set_entry_mem, write_frame _ _ _ _ _ smallK untouched.1, progress.bytes x untouched]

variable (noLarge : ClearOfLarge (T.mem s) pd c) (room : n + Nat.count (c.Need (T.mem s) pd) 1024 ≤ F.count)

include noLarge room

theorem progress_open (i : Nat) (s' : S) (inside : i < c.size) (notLarge : ¬ c.LargeSlot ((c.first + i) / 1024))
    (progress : Progress supply pd c n s i i s') :
    ∃ s1, openTable T pd ((c.first + i) / 1024) c.flag s' = .ok s1 ∧ Progress supply pd c n s i (i + 1) s1 ∧
      Small (T.mem s1) pd ((c.first + i) / 1024) := by
  obtain ⟨smallPage, smallK⟩ := c.page_bound i inside
  have meets := c.meets_at i inside
  have dirHere := progress.dir _ smallK
  have otherDir (k : Nat) (other : k ≠ (c.first + i) / 1024) := dir_after_next (T := T) (F := F) pd c n s i k other
  have otherPages (page : Nat) (other : page / 1024 ≠ (c.first + i) / 1024) :=
    pages_after_next supply pd c n s i page other
  obtain ⟨lowFlags, presentFlags, smallFlags⟩ := table_flags c.flag c.flags
  generalize hk : (c.first + i) / 1024 = k at *
  have upper : c.bound (i + 1) = k + 1 := by
    rw [MapCall.bound, if_neg (by omega)]
    omega
  have framed (need : c.Need (T.mem s) pd k) : n + Nat.count (c.Need (T.mem s) pd) k < F.count := by
    have := c.count_frames (T.mem s) pd k smallK need
    omega
  -- A slot that is already open keeps everything as it is.
  have stays (small : Small (T.mem s') pd k)
      (counted : Nat.count (c.Need (T.mem s) pd) (k + 1) = Nat.count (c.Need (T.mem s) pd) (c.bound i))
      (sameDir : dirAfter (T := T) (F := F) pd c n s (i + 1) k = dirAfter (T := T) (F := F) pd c n s i k)
      (samePages : ∀ page, page / 1024 = k →
        pagesAfter supply pd c n s i (i + 1) page = pagesAfter supply pd c n s i i page) :
      ∃ s1, openTable T pd k c.flag s' = .ok s1 ∧ Progress supply pd c n s i (i + 1) s1 ∧ Small (T.mem s1) pd k := by
    refine ⟨s', open_table_present T pd k c.flag s' small.1, ⟨?_, ?_, ?_, progress.bytes⟩, small⟩
    · rw [upper, counted]
      exact progress.sound
    · intro k' bound'
      rw [progress.dir k' bound']
      by_cases same : k' = k
      · rw [same, sameDir]
      · exact (otherDir k' same).symm
    · intro page insidePage
      rw [progress.pages page insidePage]
      by_cases same : page / 1024 = k
      · exact (samePages page same).symm
      · exact (otherPages page same).symm
  by_cases reached : c.Reached i k
  · have next : c.Reached (i + 1) k := ⟨by omega, by have := reached.2; omega⟩
    have word : entry (T.mem s') pd k = if c.Need (T.mem s) pd k
        then F.addr (n + Nat.count (c.Need (T.mem s) pd) k) ||| (pagePresent ||| pageRw ||| c.flag)
        else entry (T.mem s) pd k := by
      rw [dirHere, dirAfter, if_pos ⟨reached, meets⟩, if_neg notLarge]
    have lower : c.bound i = k + 1 := by
      obtain ⟨positive, before⟩ := reached
      rw [MapCall.bound, if_neg (by omega)]
      omega
    apply stays
    · by_cases need : c.Need (T.mem s) pd k
      · rw [Small, word, if_pos need, entry_present _ _ (F.aligned _ (framed need)),
          entry_large _ _ (F.aligned _ (framed need))]
        exact ⟨presentFlags, smallFlags⟩
      · have present : isPresent (entry (T.mem s) pd k) = true := by
          by_contra absent
          exact need ⟨meets, notLarge, by simpa using absent⟩
        rw [Small, word, if_neg need]
        exact ⟨present, noLarge k smallK meets notLarge present⟩
    · rw [lower]
    · simp only [dirAfter, reached, next]
    · intro page slot
      simp only [pagesAfter, slot, reached, next]
  · have word : entry (T.mem s') pd k = entry (T.mem s) pd k := by
      rw [dirHere, dirAfter, if_neg (fun both => reached both.1)]
    have next : c.Reached (i + 1) k := ⟨by omega, by omega⟩
    have lower : c.bound i = k := by
      simp only [MapCall.Reached] at reached
      rw [MapCall.bound]
      split <;> omega
    have later (page : Nat) (slot : page / 1024 = k) : ¬ (c.first ≤ page ∧ page < c.first + i) := by
      simp only [MapCall.Reached] at reached
      omega
    by_cases need : c.Need (T.mem s) pd k
    · have absent : isPresent (entry (T.mem s') pd k) = false := by
        rw [word]
        exact need.2.2
      have sound := progress.sound
      rw [lower] at sound
      obtain ⟨s1, opened, sound1, here1, other1, pages1, bytes1⟩ :=
        open_table_spec alignedPd sound k c.flag smallK c.flags absent (framed need)
      have counted : Nat.count (c.Need (T.mem s) pd) (k + 1) = Nat.count (c.Need (T.mem s) pd) k + 1 :=
        Nat.count_succ_eq_succ_count_iff.mpr need
      refine ⟨s1, opened, ⟨?_, ?_, ?_, ?_⟩, ?_⟩
      · rw [upper, counted]
        exact sound1
      · intro k' bound'
        by_cases same : k' = k
        · rw [same, here1, dirAfter, if_pos ⟨next, meets⟩, if_neg notLarge, if_pos need]
        · rw [other1 k' same bound', progress.dir k' bound', otherDir k' same]
      · intro page insidePage
        rw [pages1 page insidePage]
        by_cases slot : page / 1024 = k
        · rw [if_pos slot, pagesAfter, if_neg (later page slot), slot, if_pos ⟨need, next⟩, newWord, slot]
        · rw [if_neg slot, progress.pages page insidePage, otherPages page slot]
      · intro x untouched
        rw [bytes1 x untouched.1 (untouched.2.2 k smallK need), progress.bytes x untouched]
      · rw [Small, here1, entry_present _ _ (F.aligned _ (framed need)), entry_large _ _ (F.aligned _ (framed need))]
        exact ⟨presentFlags, smallFlags⟩
    · have present : isPresent (entry (T.mem s) pd k) = true := by
        by_contra absent
        exact need ⟨meets, notLarge, by simpa using absent⟩
      apply stays
      · rw [Small, word]
        exact ⟨present, noLarge k smallK meets notLarge present⟩
      · rw [lower, Nat.count_succ_eq_count_iff]
        exact need
      · rw [dirAfter, dirAfter, if_pos ⟨next, meets⟩, if_neg notLarge, if_neg need, if_neg (fun both => reached both.1)]
      · intro page slot
        simp only [pagesAfter, slot, need, false_and, if_false]

theorem progress_write (i : Nat) (s' : S) (inside : i < c.size) (notLarge : ¬ c.LargeSlot ((c.first + i) / 1024))
    (progress : Progress supply pd c n s i (i + 1) s') (small : Small (T.mem s') pd ((c.first + i) / 1024)) :
    Progress supply pd c n s (i + 1) (i + 1) (writePage T pd c i s') ∧
      entry (T.mem (writePage T pd c i s')) pd ((c.first + i) / 1024) = entry (T.mem s') pd ((c.first + i) / 1024) := by
  obtain ⟨smallPage, smallK⟩ := c.page_bound i inside
  have smallJ : (c.first + i) % 1024 < 1024 := Nat.mod_lt _ (by decide)
  obtain ⟨alignedPage, boundFrame⟩ := c.frame_page i inside
  have boundValue := entry_bound _ _ alignedPage boundFrame c.flags.low
  have dirSame (k : Nat) (bound' : k < 1024) : entry (T.mem (writePage T pd c i s')) pd k = entry (T.mem s') pd k :=
    dir_set_small alignedPd progress.sound _ _ _ k smallK smallJ small bound'
  refine ⟨⟨?_, ?_, ?_, ?_⟩, dirSame _ smallK⟩
  · exact sound_write alignedPd progress.sound _ _ _ smallK smallJ small
  · intro k bound'
    rw [dirSame k bound', progress.dir k bound']
  · intro page insidePage
    have written := translate_set_small alignedPd progress.sound _ _ (c.frame i ||| c.flag) page smallK smallJ small
      boundValue insidePage
    rw [show T.mem (writePage T pd c i s') = T.mem (setEntry T s' (p2v (frameOf (T.mem s') pd ((c.first + i) / 1024)))
      ((c.first + i) % 1024) (c.frame i ||| c.flag)) from rfl, written, Nat.div_add_mod]
    by_cases here : page = c.first + i
    · rw [if_pos here, entry_leaf _ _ alignedPage boundFrame c.flags.low c.flags.present, pagesAfter,
        if_pos (by omega), here, Nat.add_sub_cancel_left]
    · have range : (c.first ≤ page ∧ page < c.first + (i + 1)) ↔ (c.first ≤ page ∧ page < c.first + i) := by omega
      rw [if_neg here, progress.pages page insidePage]
      simp only [pagesAfter, range]
  · intro x untouched
    rw [← progress.bytes x untouched]
    apply (congrFun (set_entry_mem s' _ _ _) x).trans
    apply write_frame _ _ _ _ _ smallJ
    have meets := c.meets_at i inside
    have reached : c.Reached (i + 1) ((c.first + i) / 1024) := ⟨by omega, by omega⟩
    have word := progress.dir _ smallK
    rw [dirAfter, if_pos ⟨reached, meets⟩, if_neg notLarge] at word
    simp only [tableOf, word]
    by_cases need : c.Need (T.mem s) pd ((c.first + i) / 1024)
    · have framed : n + Nat.count (c.Need (T.mem s) pd) ((c.first + i) / 1024) < F.count := by
        have := c.count_frames (T.mem s) pd _ smallK need
        omega
      rw [if_pos need, entry_frame _ _ (F.aligned _ framed) (F.bounded _ framed) (table_flags c.flag c.flags).1]
      exact untouched.2.2 _ smallK need
    · have present : isPresent (entry (T.mem s) pd ((c.first + i) / 1024)) = true := by
        by_contra absent
        exact need ⟨meets, notLarge, by simpa using absent⟩
      rw [if_neg need]
      exact untouched.2.1 _ smallK ⟨present, noLarge _ smallK meets notLarge present⟩ meets

theorem map_pages_effect (sound : Sound supply pd n s) :
    ∃ s', mapPages T pd c.paddr c.vaddr c.size c.flag s = .ok s' ∧ Progress supply pd c n s c.size c.size s' := by
  -- Large entries are written whole, so the loop never stands inside a large slot.
  let P (i : Nat) (s' : S) : Prop := Progress supply pd c n s i i s' ∧
    ∀ k, c.LargeSlot k → ¬ (1024 * k < c.first + i ∧ c.first + i < 1024 * k + 1024)
  have slotSmall (i : Nat) (s' : S) (stage : P i s') (small : ¬ c.LargeAt i) :
      ¬ c.LargeSlot ((c.first + i) / 1024) := by
    intro isSlot
    have boundary := stage.2 _ isSlot
    exact small ((c.large_at_iff i).mpr ⟨by omega, isSlot⟩)
  have invariant : LoopInvariant T pd c P := by
    constructor
    · intro i s' stage inside large
      refine ⟨progress_large alignedPd i s' inside large stage.1, ?_⟩
      intro k isSlot
      have slot := large.1
      omega
    · intro i s' s1 stage inside small opened
      have notLarge := slotSmall i s' stage small
      obtain ⟨s2, opened2, progress2, small2⟩ := progress_open alignedPd noLarge room i s' inside notLarge stage.1
      cases opened2.symm.trans opened
      obtain ⟨progress3, kept⟩ := progress_write alignedPd noLarge room i s1 inside notLarge progress2 small2
      refine ⟨⟨progress3, ?_⟩, small2.1, kept⟩
      intro k isSlot range
      by_cases same : k = (c.first + i) / 1024
      · exact notLarge (same ▸ isSlot)
      · exact stage.2 k isSlot (by omega)
  rcases map_pages_rule T pd c P invariant s ⟨progress_start sound, by
    intro k isSlot
    have := isSlot.1
    omega⟩ with ⟨s', done, stage⟩ | ⟨j, s', e, stage, inside, small, failed, -⟩
  · exact ⟨s', done, stage.1⟩
  · obtain ⟨s1, opened, -⟩ := progress_open alignedPd noLarge room j s' inside (slotSmall j s' stage small) stage.1
    cases opened.symm.trans failed

end Effect

end X86OS.Paging
