import X86OS.Mm.MapEffect

set_option autoImplicit false

namespace X86OS.Paging

open Mem

-- The boot-time calls of `early_map_range`, one after the other.
def earlyMapAll (pd : Nat) : List MapCall → Bump → Except String Bump
  | [], bump => .ok bump
  | c :: rest, bump =>
      match earlyMapRange pd c.paddr c.vaddr c.size c.flag bump with
      | .error e => .error e
      | .ok bump => earlyMapAll pd rest bump

-- The 1024 pages from the placement address on: as many tables as a directory can need.
def bumpFrames (placement : Nat) (aligned : 0x1000 ∣ placement) (room : placement + 0x400000 ≤ 2 ^ 32) : Frames where
  count := 1024
  addr m := placement + 0x1000 * m
  aligned m _ := Nat.dvd_add aligned (Nat.dvd_mul_right _ _)
  bounded m inside := by omega
  distinct m n _ _ same := by omega

def bumpSupply (placement : Nat) (aligned : 0x1000 ∣ placement) (room : placement + 0x400000 ≤ 2 ^ 32) :
    Supply bumpTables (bumpFrames placement aligned room) where
  Ready n bump := bump.placementAddr = (placement + 0x1000 * n) % 2 ^ 32
  content _ _ := 0
  alloc := by
    intro n bump ready inside
    simp only [bumpFrames] at inside ⊢
    have place : bump.placementAddr = placement + 0x1000 * n := by omega
    have cleared : (bumpAlloc 1 bump).2.mem = bump.mem.fill (p2v (placement + 0x1000 * n)) 0x1000 0 := by
      simp only [bumpAlloc, place, kmemset_eq_fill]
    refine ⟨(bumpAlloc 1 bump).2, ?_, ?_, ?_, ?_⟩
    · simp only [bumpTables, ← place]
      rfl
    · simp only [bumpAlloc, place]
      omega
    · intro x outside
      simp only [bumpTables, cleared]
      apply fill_frame
      simp only [InPage] at outside
      omega
    · intro j small
      simp only [bumpTables, entry, cleared]
      exact fill_zero_word _ _ _ _ (by omega) (by omega)
  write _ _ _ _ ready _ _ := ready

theorem leaf_zero : leaf 0 = none := rfl

theorem count_add_le (p q r : Nat → Prop) [DecidablePred p] [DecidablePred q] [DecidablePred r] (n : Nat)
    (first : ∀ k, k < n → p k → r k ∧ ¬ q k) (second : ∀ k, k < n → q k → r k) :
    Nat.count p n + Nat.count q n ≤ Nat.count r n := by
  induction n with
  | zero => simp
  | succ n ih =>
      have step := ih (fun k below => first k (by omega)) (fun k below => second k (by omega))
      have firstHere := first n (by omega)
      have secondHere := second n (by omega)
      rw [Nat.count_succ, Nat.count_succ, Nat.count_succ]
      split <;> split <;> split <;> first | omega | tauto

section Boot

variable {placement pd : Nat} {aligned : 0x1000 ∣ placement} {room : placement + 0x400000 ≤ 2 ^ 32}

-- The directory after the calls `done`.
structure Booted (aligned : 0x1000 ∣ placement) (room : placement + 0x400000 ≤ 2 ^ 32) (pd : Nat)
    (done : List MapCall) (n : Nat) (bump : Bump) : Prop where
  sound : Sound (bumpSupply placement aligned room) pd n bump
  spare : n + Nat.count (fun k => isPresent (entry bump.mem pd k) = false) 1024 ≤ 1024
  mapped : ∀ c ∈ done, ∀ i, i < c.size → translate bump.mem pd (c.first + i) = some (c.frame i, c.flag)
  unmapped : ∀ page, page < 2 ^ 20 → (∀ c ∈ done, ¬ c.Covers page) → translate bump.mem pd page = none
  large : ∀ k, k < 1024 → isPresent (entry bump.mem pd k) = true → isLarge (entry bump.mem pd k) = true →
    ∀ j, j < 1024 → ∃ c ∈ done, c.Covers (1024 * k + j)

theorem booted_clear (done : List MapCall) (c : MapCall) (n : Nat) (bump : Bump)
    (booted : Booted aligned room pd done n bump) (apart : ∀ d ∈ done, d.Disjoint c) : ClearOfLarge bump.mem pd c := by
  intro k smallK meets _ present
  by_contra large
  obtain ⟨page, inSlot, covers⟩ : ∃ page, (1024 * k ≤ page ∧ page < 1024 * k + 1024) ∧ c.Covers page := by
    obtain ⟨positive, before, after⟩ := meets
    exact ⟨max c.first (1024 * k), by omega, by omega, by omega⟩
  obtain ⟨d, member, coversD⟩ := booted.large k smallK present (by simpa using large) (page - 1024 * k) (by omega)
  rw [show 1024 * k + (page - 1024 * k) = page by omega] at coversD
  exact apart d member page ⟨coversD, covers⟩

-- New tables are empty, so a call changes its own pages only.
theorem boot_pages (c : MapCall) (n : Nat) (bump bump' : Bump)
    (progress : Progress (bumpSupply placement aligned room) pd c n bump c.size c.size bump') (page : Nat)
    (inside : page < 2 ^ 20) :
    translate bump'.mem pd page = if c.Covers page then some (c.frame (page - c.first), c.flag)
      else translate bump.mem pd page := by
  refine (progress.pages page inside).trans ?_
  rw [pagesAfter]
  by_cases covered : c.first ≤ page ∧ page < c.first + c.size
  · rw [if_pos covered, if_pos (show c.Covers page from covered)]
  · rw [if_neg covered, if_neg (show ¬ c.Covers page from covered)]
    by_cases need : c.Need (bumpTables.mem bump) pd (page / 1024) ∧ c.Reached c.size (page / 1024)
    · rw [if_pos need]
      exact leaf_zero.trans (translate_absent _ _ _ need.1.2.2).symm
    · rw [if_neg need]
      rfl

theorem boot_slots (c : MapCall) (n : Nat) (bump bump' : Bump) (enough : n + Nat.count (c.Need bump.mem pd) 1024 ≤ 1024)
    (progress : Progress (bumpSupply placement aligned room) pd c n bump c.size c.size bump') (k : Nat)
    (smallK : k < 1024) :
    (c.LargeSlot k ∧ isPresent (entry bump'.mem pd k) = true ∧ isLarge (entry bump'.mem pd k) = true) ∨
      (c.Need bump.mem pd k ∧ isPresent (entry bump'.mem pd k) = true ∧ isLarge (entry bump'.mem pd k) = false ∧
        (entry bump'.mem pd k).testBit 1 = true) ∨
      (¬ c.Need bump.mem pd k ∧ entry bump'.mem pd k = entry bump.mem pd k) := by
  have word : entry bump'.mem pd k = _ := progress.dir k smallK
  rw [dirAfter] at word
  by_cases reached : c.Reached c.size k ∧ c.Meets k
  · rw [if_pos reached] at word
    by_cases large : c.LargeSlot k
    · rw [if_pos large] at word
      obtain ⟨-, present, isLarge, -⟩ := large_flags c.flag c.flags
      have frame := c.frame_page (1024 * k - c.first) (by have := large.1; have := large.2.1; omega)
      refine .inl ⟨large, ?_⟩
      rw [word, Nat.or_assoc, entry_present _ _ frame.1, entry_large _ _ frame.1]
      exact ⟨present, isLarge⟩
    · rw [if_neg large] at word
      by_cases need : c.Need (bumpTables.mem bump) pd k
      · rw [if_pos need] at word
        obtain ⟨lowFlags, present, small⟩ := table_flags c.flag c.flags
        have framed := c.count_frames bump.mem pd k smallK need
        have alignedFrame := (bumpFrames placement aligned room).aligned (n + Nat.count (c.Need bump.mem pd) k)
          (show _ < 1024 by omega)
        refine .inr (.inl ⟨need, ?_⟩)
        rw [word]
        exact ⟨(entry_present _ _ alignedFrame).trans present, (entry_large _ _ alignedFrame).trans small,
          (entry_bit _ _ alignedFrame 1 (by decide)).trans (by rw [Nat.testBit_or]; rfl)⟩
      · rw [if_neg need] at word
        exact .inr (.inr ⟨need, word⟩)
  · rw [if_neg reached] at word
    exact .inr (.inr ⟨fun need => reached ⟨⟨need.1.1, need.1.2.1⟩, need.1⟩, word⟩)

-- Every page table can be written through: the slot's entry has the RW bit.
def TablesRw (mem : Mem) (pd : Nat) : Prop := ∀ k, k < 1024 → Small mem pd k → (entry mem pd k).testBit 1 = true

theorem bound_le (c : MapCall) : c.bound c.size ≤ 1024 := by
  have place := c.vaddr_eq
  have bound := c.endV
  rw [MapCall.bound]
  split <;> omega

-- A call whose physical and virtual address are at the same place of a 4 MiB slot needs a table
-- for its first slot and one for its last, at most.
theorem need_two (c : MapCall) (mem : Mem) (level : c.paddr % fourMb = c.vaddr % fourMb) (n : Nat) :
    Nat.count (c.Need mem pd) n ≤ 2 := by
  have place := c.vaddr_eq
  have ends (k : Nat) (need : c.Need mem pd k) : k = c.first / 1024 ∨ k = (c.first + c.size - 1) / 1024 := by
    by_contra inner
    obtain ⟨⟨nonempty, before, after⟩, small, -⟩ := need
    apply small
    simp only [fourMb] at level
    refine ⟨by omega, by omega, ?_⟩
    simp only [fourMb, MapCall.frame]
    omega
  rw [Nat.count_eq_card_filter_range]
  calc ((Finset.range n).filter (c.Need mem pd)).card
      ≤ ({c.first / 1024, (c.first + c.size - 1) / 1024} : Finset Nat).card := by
        apply Finset.card_le_card
        intro k member
        rw [Finset.mem_insert, Finset.mem_singleton]
        exact ends k (Finset.mem_filter.mp member).2
    _ ≤ 2 := Finset.card_le_two

theorem booted_call (alignedPd : 0x1000 ∣ pd) (done : List MapCall) (c : MapCall) (n : Nat) (bump : Bump)
    (booted : Booted aligned room pd done n bump) (apart : ∀ d ∈ done, d.Disjoint c) :
    ∃ n' bump', earlyMapRange pd c.paddr c.vaddr c.size c.flag bump = .ok bump' ∧
      Booted aligned room pd (done ++ [c]) n' bump' ∧
      (TablesRw bump.mem pd → TablesRw bump'.mem pd) ∧ (c.paddr % fourMb = c.vaddr % fourMb → n' ≤ n + 2) := by
  have clear := booted_clear done c n bump booted apart
  have counted :
      Nat.count (c.Need bump.mem pd) 1024 ≤ Nat.count (fun k => isPresent (entry bump.mem pd k) = false) 1024 :=
    Nat.count_mono_left (fun k _ need => need.2.2)
  have spare := booted.spare
  have enough : n + Nat.count (c.Need bump.mem pd) 1024 ≤ 1024 := by omega
  have effect : ∃ bump', earlyMapRange pd c.paddr c.vaddr c.size c.flag bump = .ok bump' ∧
      Progress (bumpSupply placement aligned room) pd c n bump c.size c.size bump' :=
    map_pages_effect alignedPd clear enough booted.sound
  obtain ⟨bump', result, progress⟩ := effect
  have pages := boot_pages c n bump bump' progress
  have slots := boot_slots c n bump bump' enough progress
  refine ⟨_, bump', result, ⟨progress.sound, ?_, ?_, ?_, ?_⟩, ?_,
    fun level => Nat.add_le_add_left (need_two c bump.mem level _) n⟩
  · have taken : Nat.count (c.Need bump.mem pd) (c.bound c.size) ≤ Nat.count (c.Need bump.mem pd) 1024 :=
      Nat.count_monotone _ (bound_le c)
    have left := count_add_le (fun k => isPresent (entry bump'.mem pd k) = false) (c.Need bump.mem pd)
      (fun k => isPresent (entry bump.mem pd k) = false) 1024 (by
        intro k smallK absent
        rcases slots k smallK with ⟨-, present, -⟩ | ⟨-, present, -⟩ | ⟨noNeed, same⟩
        · rw [present] at absent
          cases absent
        · rw [present] at absent
          cases absent
        · exact ⟨same ▸ absent, noNeed⟩) (fun k _ need => need.2.2)
    change n + Nat.count (c.Need bump.mem pd) (c.bound c.size) + _ ≤ 1024
    omega
  · intro d member i inside
    rcases List.mem_append.mp member with old | new
    · have covered : d.Covers (d.first + i) := ⟨by omega, by omega⟩
      rw [pages _ (d.page_bound i inside).1, if_neg (fun here => apart d old _ ⟨covered, here⟩)]
      exact booted.mapped d old i inside
    · rw [List.mem_singleton] at new
      subst new
      rw [pages _ (d.page_bound i inside).1, if_pos ⟨by omega, by omega⟩, Nat.add_sub_cancel_left]
  · intro page inside uncovered
    rw [pages page inside, if_neg (uncovered c (by simp))]
    exact booted.unmapped page inside (fun d member => uncovered d (by simp [member]))
  · intro k smallK present large j smallJ
    rcases slots k smallK with ⟨isSlot, -⟩ | ⟨-, -, small, -⟩ | ⟨-, same⟩
    · obtain ⟨low, high, -⟩ := isSlot
      exact ⟨c, by simp, by omega, by omega⟩
    · rw [small] at large
      cases large
    · rw [same] at present large
      obtain ⟨d, member, covers⟩ := booted.large k smallK present large j smallJ
      exact ⟨d, by simp [member], covers⟩
  · intro rw k smallK small
    rcases slots k smallK with ⟨-, -, large⟩ | ⟨-, -, -, writable⟩ | ⟨-, same⟩
    · exact absurd (small.2.symm.trans large) (by decide)
    · exact writable
    · rw [same]
      exact rw k smallK ((small_congr _ _ pd k same).mp small)

theorem booted_all (alignedPd : 0x1000 ∣ pd) (done calls : List MapCall) (n : Nat) (bump : Bump)
    (booted : Booted aligned room pd done n bump) (disjoint : (done ++ calls).Pairwise MapCall.Disjoint) :
    ∃ n' bump', earlyMapAll pd calls bump = .ok bump' ∧ Booted aligned room pd (done ++ calls) n' bump' ∧
      (TablesRw bump.mem pd → TablesRw bump'.mem pd) ∧
      ((∀ c ∈ calls, c.paddr % fourMb = c.vaddr % fourMb) → n' ≤ n + 2 * calls.length) := by
  induction calls generalizing done n bump with
  | nil => exact ⟨n, bump, rfl, by simpa using booted, id, fun _ => Nat.le_refl _⟩
  | cons c calls ih =>
      have apart (d : MapCall) (member : d ∈ done) : d.Disjoint c :=
        (List.pairwise_append.mp disjoint).2.2 d member c (by simp)
      obtain ⟨n1, bump1, result, booted1, rw1, few1⟩ := booted_call alignedPd done c n bump booted apart
      obtain ⟨n', bump', rest, booted', rw', few'⟩ := ih (done ++ [c]) n1 bump1 booted1 (by simpa using disjoint)
      rw [earlyMapAll, result]
      refine ⟨n', bump', rest, by simpa using booted', fun rw => rw' (rw1 rw), ?_⟩
      intro level
      have := few1 (level c List.mem_cons_self)
      have := few' (fun d member => level d (List.mem_cons_of_mem _ member))
      rw [List.length_cons]
      omega

theorem booted_start (bump : Bump) (zeroed : ∀ x, InPage pd x → bump.mem x = 0)
    (roomLeft : bump.placementAddr + 0x400000 ≤ 2 ^ 32)
    (apart : ∀ m, m < 1024 → p2v (bump.placementAddr + 0x1000 * m) ≠ pd) :
    Booted bump.aligned roomLeft pd [] 0 bump := by
  have zero (k : Nat) (smallK : k < 1024) : entry bump.mem pd k = 0 :=
    (entry_congr (fun _ => 0) pd k bump.mem smallK zeroed).trans rfl
  have absent (k : Nat) (smallK : k < 1024) : isPresent (entry bump.mem pd k) = false := by
    rw [zero k smallK]
    rfl
  have noTable (k : Nat) (smallK : k < 1024) : ¬ Small bump.mem pd k := fun small =>
    absurd (small.1.symm.trans (absent k smallK)) (by decide)
  refine ⟨⟨⟨?_, ?_⟩, ?_, ?_, ?_⟩, ?_, by simp, ?_, ?_⟩
  · exact fun k smallK small => absurd small (noTable k smallK)
  · exact fun k _ smallK _ small => absurd small (noTable k smallK)
  · change bump.placementAddr = (bump.placementAddr + 0x1000 * 0) % 2 ^ 32
    have := bump.bounded
    omega
  · exact fun m _ inside => apart m inside
  · exact fun _ k _ _ smallK small => absurd small (noTable k smallK)
  · rw [Nat.zero_add]
    exact Nat.count_le _
  · exact fun page inside _ => translate_absent _ _ _ (absent _ (by omega))
  · exact fun k smallK present => absurd (present.symm.trans (absent k smallK)) (by decide)

end Boot

-- The calls ask for the virtual page `page` to be mapped to this frame with these flags.
def Asks (calls : List MapCall) (page : Nat) (target : Nat × Nat) : Prop :=
  ∃ c ∈ calls, ∃ i, i < c.size ∧ page = c.first + i ∧ target = (c.frame i, c.flag)

theorem booted_translate {placement pd n : Nat} {aligned : 0x1000 ∣ placement} {room : placement + 0x400000 ≤ 2 ^ 32}
    (calls : List MapCall) (bump : Bump) (booted : Booted aligned room pd calls n bump) (page : Nat)
    (inside : page < 2 ^ 20) (target : Nat × Nat) :
    translate bump.mem pd page = some target ↔ Asks calls page target := by
  constructor
  · intro found
    by_contra unasked
    have uncovered (c : MapCall) (member : c ∈ calls) : ¬ c.Covers page := by
      intro covers
      have mapped := booted.mapped c member (page - c.first) (by have := covers.2; have := covers.1; omega)
      rw [Nat.add_sub_cancel' covers.1, found] at mapped
      exact unasked
        ⟨c, member, page - c.first, by have := covers.2; have := covers.1; omega, (Nat.add_sub_cancel' covers.1).symm,
        Option.some.inj mapped⟩
    rw [booted.unmapped page inside uncovered] at found
    cases found
  · rintro ⟨c, member, i, below, rfl, rfl⟩
    exact booted.mapped c member i below

-- Boot-time page tables realise exactly the requested mappings, whatever the order of the
-- calls and whatever the entries they are made of.
theorem boot_mappings (pd : Nat) (bump : Bump) (calls : List MapCall) (alignedPd : 0x1000 ∣ pd)
    (zeroed : ∀ x, InPage pd x → bump.mem x = 0) (room : bump.placementAddr + 0x400000 ≤ 2 ^ 32)
    (apart : ∀ m, m < 1024 → p2v (bump.placementAddr + 0x1000 * m) ≠ pd) (disjoint : calls.Pairwise MapCall.Disjoint) :
    ∃ bump', earlyMapAll pd calls bump = .ok bump' ∧
      (∀ c ∈ calls, ∀ i, i < c.size → translate bump'.mem pd (c.first + i) = some (c.frame i, c.flag)) ∧
      (∀ page, page < 2 ^ 20 → (∀ c ∈ calls, ¬ c.Covers page) → translate bump'.mem pd page = none) ∧
      ∀ calls', calls'.Pairwise MapCall.Disjoint → (∀ page target, Asks calls' page target ↔ Asks calls page target) →
        ∃ bump'', earlyMapAll pd calls' bump = .ok bump'' ∧
          ∀ page, page < 2 ^ 20 → translate bump''.mem pd page = translate bump'.mem pd page := by
  have start := booted_start bump zeroed room apart
  obtain ⟨n, bump', result, booted, -⟩ := booted_all alignedPd [] calls 0 bump start disjoint
  refine ⟨bump', result, booted.mapped, booted.unmapped, ?_⟩
  intro calls' disjoint' same
  obtain ⟨n', bump'', result', booted', -⟩ := booted_all alignedPd [] calls' 0 bump start disjoint'
  refine ⟨bump'', result', ?_⟩
  intro page inside
  apply Option.ext
  intro target
  exact (booted_translate calls' bump'' booted' page inside target).trans
    ((same page target).trans (booted_translate calls bump' booted page inside target).symm)

def largeCall : MapCall :=
  ⟨0, 0xC0000000, 1025, 3, by decide, by decide, by decide, by decide, ⟨by decide, by decide, by decide⟩⟩

def smallCall : MapCall :=
  ⟨0x9000, 0x7000, 2, 1, by decide, by decide, by decide, by decide, ⟨by decide, by decide, by decide⟩⟩

def emptyBump : Bump := ⟨fun _ => 0, 0x100000, by decide, by decide⟩

theorem boot_mappings_two :
    ∃ bump', earlyMapAll 0xC0001000 [largeCall, smallCall] emptyBump = .ok bump' ∧
      translate bump'.mem 0xC0001000 (largeCall.first + 1024) = some (0x400000, 3) ∧
        translate bump'.mem 0xC0001000 9 = none := by
  have apart (m : Nat) (small : m < 1024) : p2v (emptyBump.placementAddr + 0x1000 * m) ≠ 0xC0001000 := by
    simp only [emptyBump]
    rw [p2v_low _ (by omega)]
    simp only [kernelVirtualBase]
    omega
  have disjoint : [largeCall, smallCall].Pairwise MapCall.Disjoint := by
    refine List.pairwise_pair.mpr ?_
    rintro page ⟨first, second⟩
    simp only [MapCall.Covers, MapCall.first, largeCall, smallCall] at first second
    omega
  obtain ⟨bump', result, mapped, unmapped, -⟩ :=
    boot_mappings 0xC0001000 emptyBump [largeCall, smallCall] (by decide) (fun _ _ => rfl) (by decide) apart disjoint
  exact ⟨bump', result, mapped largeCall (by simp) 1024 (by decide), unmapped 9 (by decide) (by decide)⟩

end X86OS.Paging
