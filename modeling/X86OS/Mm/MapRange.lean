import X86OS.Mm.MapEffect
import X86OS.Mm.Pmm

set_option autoImplicit false

namespace X86OS.Paging

open Mem

variable {σ : Type}

-- `pmm_alloc(0)` hands out the frames of `F` one after the other, starting from the state
-- `states 0`.
structure Handed (A : PageAllocator σ) (F : Frames) (states : Nat → σ) : Prop where
  next : ∀ m, m < F.count → A.alloc 0 (states m) = .ok (F.addr m, states (m + 1))

-- Frames come as they are: `pmm_alloc` clears nothing.
def pmmSupply (A : PageAllocator σ) (F : Frames) (states : Nat → σ) (handed : Handed A F states) (mem : Mem) :
    Supply (pmmTables A) F where
  Ready n h := h.pages = states n ∧ ∀ m, n ≤ m → m < F.count → ∀ x, InPage (p2v (F.addr m)) x → h.mem x = mem x
  content n j := entry mem (p2v (F.addr n)) j
  alloc := by
    rintro n h ⟨pages, kept⟩ inside
    refine ⟨{ h with pages := states (n + 1) }, ?_, ⟨rfl, ?_⟩, fun _ _ => rfl, ?_⟩
    · simp only [pmmTables, pages, handed.next n inside]
    · exact fun m reached => kept m (by omega)
    · exact fun j small => entry_congr _ _ _ _ small (kept n (Nat.le_refl n) inside)
  write := by
    rintro n h a v ⟨pages, kept⟩ aligned outside
    refine ⟨pages, ?_⟩
    intro m reached inside x inPage
    rw [← kept m reached inside x inPage]
    apply write_word_frame
    have alignedFrame := p2v_aligned _ (F.aligned m inside)
    have notHere := outside m reached inside
    simp only [InPage] at inPage notHere
    omega

-- A directory whose tables are pages of their own, and frames that are none of them.
structure FreshFrames (mem : Mem) (pd : Nat) (F : Frames) : Prop extends OwnTables mem pd where
  freshDir : ∀ m, m < F.count → p2v (F.addr m) ≠ pd
  fresh : ∀ m k, m < F.count → k < 1024 → Small mem pd k → frameOf mem pd k ≠ F.addr m

-- Every frame that becomes a page table has no PRESENT bit outside the range.
def CleanFrames (mem : Mem) (pd : Nat) (F : Frames) (c : MapCall) : Prop :=
  ∀ k, k < 1024 → c.Need mem pd k → ∀ j, j < 1024 → ¬ c.Covers (1024 * k + j) →
    isPresent (entry mem (p2v (F.addr (Nat.count (c.Need mem pd) k))) j) = false

section MapRange

variable (A : PageAllocator σ) (h : Heap.State σ) (pd : Nat) (c : MapCall) (F : Frames) (states : Nat → σ)
  (alignedPd : 0x1000 ∣ pd) (tables : FreshFrames h.mem pd F) (clear : ClearOfLarge h.mem pd c)
  (start : states 0 = h.pages) (handed : Handed A F states) (enough : Nat.count (c.Need h.mem pd) 1024 ≤ F.count)

theorem need_reached (k : Nat) (need : c.Need h.mem pd k) : c.Reached c.size k := ⟨need.1.1, need.1.2.1⟩

theorem map_range_pages (page : Nat) : pagesAfter (pmmSupply A F states handed h.mem) pd c 0 h c.size c.size page =
    if c.Covers page then some (c.frame (page - c.first), c.flag)
    else if c.Need h.mem pd (page / 1024)
      then leaf (entry h.mem (p2v (F.addr (Nat.count (c.Need h.mem pd) (page / 1024)))) (page % 1024))
    else translate h.mem pd page := by
  rw [pagesAfter, newWord, Nat.zero_add]
  by_cases covered : c.first ≤ page ∧ page < c.first + c.size
  · rw [if_pos covered, if_pos (show c.Covers page from covered)]
  · rw [if_neg covered, if_neg (show ¬ c.Covers page from covered)]
    by_cases need : c.Need h.mem pd (page / 1024)
    · rw [if_pos need, if_pos ⟨need, need_reached h pd c _ need⟩]
      rfl
    · rw [if_neg need, if_neg (fun both => need both.1)]
      rfl

include alignedPd tables clear start enough

theorem map_range_effect :
    ∃ h', mapRange A pd c.paddr c.vaddr c.size c.flag h = .ok h' ∧
      Progress (pmmSupply A F states handed h.mem) pd c 0 h c.size c.size h' := by
  have sound : Sound (pmmSupply A F states handed h.mem) pd 0 h :=
    ⟨tables.toOwnTables, ⟨start.symm, fun _ _ _ _ _ => rfl⟩, fun m _ => tables.freshDir m,
      fun m k _ => tables.fresh m k⟩
  exact map_pages_effect alignedPd clear (by rw [Nat.zero_add]; exact enough) sound

include handed

-- The call maps its range, and it leaves every other page alone exactly when the frames
-- it makes page tables of are clean.
theorem map_range_frame :
    ∃ h', mapRange A pd c.paddr c.vaddr c.size c.flag h = .ok h' ∧
      (((∀ i, i < c.size → translate h'.mem pd (c.first + i) = some (c.frame i, c.flag)) ∧
        ∀ page, page < 2 ^ 20 → ¬ c.Covers page → translate h'.mem pd page = translate h.mem pd page) ↔
        CleanFrames h.mem pd F c) := by
  obtain ⟨h', done, progress⟩ := map_range_effect A h pd c F states alignedPd tables clear start handed enough
  have pages (page : Nat) (inside : page < 2 ^ 20) :=
    (progress.pages page inside).trans (map_range_pages A h pd c F states handed page)
  simp only [show (pmmTables A).mem h' = h'.mem from rfl] at pages
  refine ⟨h', done, ?_, ?_⟩
  · rintro ⟨-, frame⟩ k smallK need j smallJ outside
    have slot : (1024 * k + j) / 1024 = k := by omega
    have index : (1024 * k + j) % 1024 = j := by omega
    have after := pages (1024 * k + j) (by omega)
    rw [frame _ (by omega) outside, translate_absent _ _ _ (by rw [slot]; exact need.2.2), if_neg outside, slot,
      if_pos need, index, leaf] at after
    by_contra present
    rw [if_pos (by simpa using present)] at after
    cases after
  · intro clean
    constructor
    · intro i inside
      rw [pages _ (c.page_bound i inside).1, if_pos ⟨by omega, by omega⟩, Nat.add_sub_cancel_left]
    · intro page insidePage outside
      rw [pages page insidePage, if_neg outside]
      by_cases need : c.Need h.mem pd (page / 1024)
      · have absent := clean (page / 1024) (by omega) need (page % 1024) (Nat.mod_lt _ (by decide))
          (by rw [Nat.div_add_mod]; exact outside)
        rw [if_pos need, translate_absent _ _ _ need.2.2, leaf, if_neg (by simpa using absent)]
      · rw [if_neg need]

end MapRange

-- The small machine with an empty directory at 0xC0001000 and the same byte everywhere else.
def filledHeap (byte : UInt8) : Heap.State Buddy.State :=
  ⟨fun x => if 0xC0001000 ≤ x ∧ x < 0xC0002000 then 0 else byte,
    (Buddy.boot Buddy.smallMap (fun _ => Buddy.zeroPage) Buddy.smallBump).state, fun _ => none, none, none, 0, 0, 0⟩

def onePage : MapCall :=
  ⟨0x5000, 0x400000, 1, 7, by decide, by decide, by decide, by decide, ⟨by decide, by decide, by decide⟩⟩

def neighbourAfter (byte : UInt8) : Option (Nat × Nat) :=
  match mapRange pmm 0xC0001000 0x5000 0x400000 1 7 (filledHeap byte) with
  | .ok h => translate h.mem 0xC0001000 0x401
  | .error _ => none

-- A recycled frame full of ones becomes the table, and a page nobody asked for is mapped.
theorem map_range_stale :
    ∃ h', mapRange pmm 0xC0001000 0x5000 0x400000 1 7 (filledHeap 1) = .ok h' ∧ ¬ onePage.Covers 0x401 ∧
      translate (filledHeap 1).mem 0xC0001000 0x401 = none ∧
        translate h'.mem 0xC0001000 0x401 = some (0x1010000, 0x101) := by
  have after : neighbourAfter 1 = some (0x1010000, 0x101) := by decide +kernel
  have before : translate (filledHeap 1).mem 0xC0001000 0x401 = none := by decide +kernel
  unfold neighbourAfter at after
  split at after
  · next h' done => exact ⟨h', done, by decide, before, after⟩
  · cases after

theorem map_range_frame_zero :
    ∃ h', mapRange pmm 0xC0001000 0x5000 0x400000 1 7 (filledHeap 0) = .ok h' ∧
      translate h'.mem 0xC0001000 0x400 = some (0x5000, 7) ∧ translate h'.mem 0xC0001000 0x401 = none := by
  obtain ⟨s', done⟩ := Buddy.small_alloc
  have zero (a k : Nat) : entry (filledHeap 0).mem a k = 0 := by simp [entry, readWord, filledHeap]
  have noTable (k : Nat) : ¬ Small (filledHeap 0).mem 0xC0001000 k := by
    rw [Small, zero]
    exact fun small => absurd small.1 (by decide)
  let F : Frames := ⟨1, fun _ => 0x2000, fun _ _ => by decide, fun _ _ => by decide, fun m n _ _ _ => by omega⟩
  let states : Nat → Buddy.State := fun m => if m = 0 then (filledHeap 0).pages else s'
  have dirApart : p2v 0x2000 ≠ 0xC0001000 := by decide +kernel
  have handed : Handed pmm F states := by
    constructor
    intro m inside
    obtain rfl : m = 0 := by simpa [F] using inside
    exact done
  have tables : FreshFrames (filledHeap 0).mem 0xC0001000 F :=
    ⟨⟨fun k _ small => absurd small (noTable k), fun k _ _ _ small => absurd small (noTable k)⟩, fun _ _ => dirApart,
      fun _ k _ _ small => absurd small (noTable k)⟩
  have clear : ClearOfLarge (filledHeap 0).mem 0xC0001000 onePage := by
    intro k _ _ _ _
    rw [zero]
    decide
  obtain ⟨h', mapped, exactly⟩ :=
    map_range_frame pmm (filledHeap 0) 0xC0001000 onePage F states (by decide) tables clear rfl handed
    (by decide +kernel)
  obtain ⟨inside, outside⟩ := exactly.mpr (fun k _ _ j _ _ => by rw [zero]; decide)
  refine ⟨h', mapped, inside 0 (by decide), ?_⟩
  rw [outside 0x401 (by decide) (by decide)]
  decide +kernel

end X86OS.Paging
