import X86OS.Mm.PagingInit

set_option autoImplicit false

namespace X86OS.Paging

section Trace

variable {S : Type} (T : TableSource S)

-- Whether the iteration at `c` writes `pd[pde]`: a 4 MiB entry, or the entry of a new page table.
def writesDirectory (pd : Nat) (c : Cursor) (s : S) : Bool :=
  if isAligned c.vaddr fourMb = true ∧ isAligned c.paddr fourMb = true ∧ 1024 ≤ c.size then true
  else if c.pte = 0 ∨ c.pageTable = 0 then entry (T.mem s) pd c.pde &&& pagePresent = 0
  else false

-- The iterations of the mapping loop: its variables at the start of each one, and whether it
-- writes the directory.
def mapTrace (pd flag : Nat) : Nat → Cursor → S → List (Cursor × Bool)
  | 0, _, _ => []
  | fuel + 1, c, s =>
      if c.size = 0 then []
      else
        (c, writesDirectory T pd c s) ::
          match mapStep T pd flag c s with
          | .error _ => []
          | .ok (c, s) => mapTrace pd flag fuel c s

end Trace

def startCursor (paddr size : Nat) : Cursor :=
  ⟨paddr, p2v paddr, size, (p2v paddr >>> 22) &&& 0x3FF, (p2v paddr >>> 12) &&& 0x3FF, 0⟩

-- The iterations of a sequence of `early_map_range` calls.
def rangesTrace (pd : Nat) : List Range → Bump → List (Cursor × Bool)
  | [], _ => []
  | r :: rest, bump =>
      mapTrace bumpTables pd r.flag r.size (startCursor r.paddr r.size) bump ++
        match earlyMapRange pd r.paddr (p2v r.paddr) r.size r.flag bump with
        | .error _ => []
        | .ok bump => rangesTrace pd rest bump

def pagingTrace (sections : Sections) (memoryMap : MemoryMap) (bump : Bump) : List (Cursor × Bool) :=
  rangesTrace sections.kernelPageDirectory (bootRanges sections memoryMap) (clearDirectory sections bump)

-- The directory is written below its end, and the page goes to the kernel half.
def Inside (iteration : Cursor × Bool) : Prop :=
  (iteration.2 = true → iteration.1.pde < 1024) ∧ kernelVirtualBase ≤ iteration.1.vaddr

-- The page of the loop's variables as a number that does not wrap.
def Cursor.page (c : Cursor) : Nat := 1024 * c.pde + c.pte

structure Unwrapped (c : Cursor) : Prop where
  small : c.pte < 1024
  vaddr : c.vaddr = 0x1000 * c.page % 2 ^ 32
  direct : c.vaddr = p2v c.paddr

theorem map_small_page {S : Type} (T : TableSource S) (flag : Nat) (c c' : Cursor) (s s' : S) (unwrapped : Unwrapped c)
    (running : c.size ≠ 0) (step : mapSmall T flag c s = (c', s')) :
    Unwrapped c' ∧ c'.page = c.page + 1 ∧ c'.size + 1 = c.size := by
  have wrap (x : Nat) : x &&& (1024 - 1) = x % 1024 := Nat.and_two_pow_sub_one_eq_mod x 10
  obtain ⟨small, vaddr, direct⟩ := unwrapped
  simp only [mapSmall, wrap, Prod.mk.injEq] at step
  obtain ⟨rfl, -⟩ := step
  simp only [Cursor.page, p2v, Word.add] at vaddr direct ⊢
  refine ⟨⟨by simp only; omega, ?_, ?_⟩, ?_, by omega⟩
  · simp only [Cursor.page]
    split <;> omega
  · simp only [Word.add, p2v]
    omega
  · split <;> omega

-- An iteration goes on by one page, or by 1024 from the start of a 4 MiB slot.
theorem map_step_page {S : Type} (T : TableSource S) (pd flag : Nat) (c c' : Cursor) (s s' : S)
    (unwrapped : Unwrapped c) (running : c.size ≠ 0) (step : mapStep T pd flag c s = .ok (c', s')) :
    Unwrapped c' ∧ ∃ n, c'.page = c.page + n ∧ c'.size + n = c.size ∧ (n = 1 ∨ n = 1024 ∧ 1024 ∣ c.page) := by
  rw [mapStep] at step
  split at step
  · rename_i large
    obtain ⟨small, vaddr, direct⟩ := unwrapped
    have aligned := (is_aligned_iff c.vaddr 22).mp large.1
    cases step
    simp only [Cursor.page, p2v, Word.add] at vaddr direct ⊢
    refine ⟨⟨small, ?_, ?_⟩, 1024, by omega, by omega, .inr ⟨rfl, by omega⟩⟩
    · simp only [Cursor.page, fourMb]
      omega
    · simp only [Word.add, p2v, fourMb]
      omega
  · split at step
    · split at step
      · cases step
      · rename_i s1 opened
        have opening : Unwrapped { c with pageTable := tableOf T pd c.pde s1 } :=
          ⟨unwrapped.small, unwrapped.vaddr, unwrapped.direct⟩
        have next := map_small_page T flag _ c' s1 s' opening running (Except.ok.inj step)
        exact ⟨next.1, 1, next.2.1, next.2.2, .inl rfl⟩
    · have next := map_small_page T flag c c' s s' unwrapped running (Except.ok.inj step)
      exact ⟨next.1, 1, next.2.1, next.2.2, .inl rfl⟩

theorem map_step_bump (pd flag : Nat) (c : Cursor) (bump : Bump) :
    ∃ next, mapStep bumpTables pd flag c bump = .ok next := by
  have opens : ∃ bump', openTable bumpTables pd c.pde flag bump = .ok bump' := by
    rw [openTable]
    split
    · exact ⟨_, rfl⟩
    · exact ⟨_, rfl⟩
  obtain ⟨bump', opened⟩ := opens
  rw [mapStep, opened]
  split
  · exact ⟨_, rfl⟩
  · split
    · exact ⟨_, rfl⟩
    · exact ⟨_, rfl⟩

theorem map_loop_bump (pd flag fuel : Nat) (c : Cursor) (bump : Bump) :
    ∃ bump', mapLoop bumpTables pd flag fuel c bump = .ok bump' := by
  induction fuel generalizing c bump with
  | zero => exact ⟨bump, rfl⟩
  | succ fuel ih =>
      rw [mapLoop]
      by_cases done : c.size = 0
      · exact ⟨bump, if_pos done⟩
      · obtain ⟨next, step⟩ := map_step_bump pd flag c bump
        rw [if_neg done, step]
        exact ih next.1 next.2

section Loop

variable (pd flag : Nat)

theorem trace_pages (fuel : Nat) (c : Cursor) (bump : Bump) (unwrapped : Unwrapped c) :
    ∀ iteration ∈ mapTrace bumpTables pd flag fuel c bump,
      Unwrapped iteration.1 ∧ c.page ≤ iteration.1.page ∧ iteration.1.page < c.page + c.size := by
  induction fuel generalizing c bump with
  | zero =>
      intro iteration member
      cases member
  | succ fuel ih =>
      intro iteration member
      rw [mapTrace] at member
      by_cases done : c.size = 0
      · rw [if_pos done] at member
        cases member
      · obtain ⟨⟨c', bump'⟩, step⟩ := map_step_bump pd flag c bump
        obtain ⟨next, n, pages, sizes, -⟩ := map_step_page bumpTables pd flag c c' bump bump' unwrapped done step
        rw [if_neg done, step] at member
        cases List.mem_cons.mp member with
        | inl here =>
            subst here
            exact ⟨unwrapped, Nat.le_refl _, by simp only; omega⟩
        | inr later =>
            obtain ⟨inner, low, high⟩ := ih c' bump' next iteration later
            exact ⟨inner, by omega, by omega⟩

-- No iteration jumps over the first page of a slot, so a range that goes past it starts one there.
theorem trace_meets (fuel : Nat) (c : Cursor) (bump : Bump) (unwrapped : Unwrapped c) (enough : c.size ≤ fuel)
    (slot : Nat) (before : c.page ≤ 1024 * slot) (past : 1024 * slot < c.page + c.size) :
    ∃ c' bump', (c', writesDirectory bumpTables pd c' bump') ∈ mapTrace bumpTables pd flag fuel c bump ∧
      Unwrapped c' ∧ c'.page = 1024 * slot ∧ c'.page + c'.size = c.page + c.size := by
  induction fuel generalizing c bump with
  | zero => omega
  | succ fuel ih =>
      have running : c.size ≠ 0 := by omega
      rw [mapTrace, if_neg running]
      by_cases here : c.page = 1024 * slot
      · exact ⟨c, bump, List.mem_cons_self, unwrapped, here, rfl⟩
      · obtain ⟨⟨c1, bump1⟩, step⟩ := map_step_bump pd flag c bump
        obtain ⟨next, n, pages, sizes, stride⟩ :=
          map_step_page bumpTables pd flag c c1 bump bump1 unwrapped running step
        obtain ⟨c', bump', member, found, first, rest⟩ := ih c1 bump1 next (by omega) (by omega) (by omega)
        rw [step]
        exact ⟨c', bump', List.mem_cons_of_mem _ member, found, first, by omega⟩

end Loop

theorem start_unwrapped (paddr size : Nat) (aligned : 0x1000 ∣ paddr) :
    Unwrapped (startCursor paddr size) ∧ (startCursor paddr size).page = p2v paddr / 0x1000 := by
  have wrap (x : Nat) : x &&& 0x3FF = x % 1024 := Nat.and_two_pow_sub_one_eq_mod x 10
  have bound : p2v paddr < 2 ^ 32 := by
    simp only [p2v, Word.add]
    omega
  have whole := p2v_aligned paddr aligned
  have page : (startCursor paddr size).page = p2v paddr / 0x1000 := by
    simp only [Cursor.page, startCursor, wrap, Nat.shiftRight_eq_div_pow]
    omega
  refine ⟨⟨?_, ?_, rfl⟩, page⟩
  · simp only [startCursor, wrap]
    omega
  · rw [page]
    simp only [startCursor]
    omega

theorem range_inside_iff (pd flag paddr size : Nat) (bump : Bump) (aligned : 0x1000 ∣ paddr)
    (bounded : paddr < 2 ^ 32) :
    (∀ iteration ∈ mapTrace bumpTables pd flag size (startCursor paddr size) bump, Inside iteration) ↔
      size = 0 ∨ paddr + 0x1000 * size ≤ 2 ^ 30 := by
  obtain ⟨unwrapped, page⟩ := start_unwrapped paddr size aligned
  constructor
  · intro inside
    by_contra outside
    rw [not_or] at outside
    by_cases low : paddr < 2 ^ 30
    · rw [p2v_low paddr low, kernelVirtualBase] at page
      obtain ⟨c, _, member, unwrapped, here, -⟩ := trace_meets pd flag size (startCursor paddr size) bump unwrapped
        (Nat.le_refl _) 1024 (by omega) (by rw [page]; simp only [startCursor]; omega)
      have high := (inside _ member).2
      rw [unwrapped.vaddr, here, kernelVirtualBase] at high
      omega
    · have first : (startCursor paddr size, writesDirectory bumpTables pd (startCursor paddr size) bump) ∈
          mapTrace bumpTables pd flag size (startCursor paddr size) bump := by
        obtain ⟨fuel, rfl⟩ := Nat.exists_eq_succ_of_ne_zero outside.1
        rw [mapTrace, if_neg (by simp [startCursor])]
        exact List.mem_cons_self
      have high := (inside _ first).2
      simp only [startCursor, p2v, Word.add, kernelVirtualBase] at high
      omega
  · intro fits iteration member
    obtain ⟨⟨small, vaddr, -⟩, low, high⟩ := trace_pages pd flag size _ bump unwrapped iteration member
    rw [page] at low high
    change iteration.1.page < _ + size at high
    have nonempty : 0 < size := by omega
    have ends : paddr + 0x1000 * size ≤ 2 ^ 30 := by
      cases fits with
      | inl empty => omega
      | inr ends => exact ends
    rw [p2v_low paddr (by omega), kernelVirtualBase] at low high
    refine ⟨?_, ?_⟩
    · intro _
      simp only [Cursor.page] at high
      omega
    · rw [vaddr, kernelVirtualBase]
      omega

theorem ranges_inside_iff (pd : Nat) (ranges : List Range) (bump : Bump)
    (aligned : ∀ r ∈ ranges, 0x1000 ∣ r.paddr ∧ r.paddr < 2 ^ 32) :
    (∀ iteration ∈ rangesTrace pd ranges bump, Inside iteration) ↔
      ∀ r ∈ ranges, r.size = 0 ∨ r.paddr + 0x1000 * r.size ≤ 2 ^ 30 := by
  induction ranges generalizing bump with
  | nil =>
      constructor
      · intro _ r member
        cases member
      · intro _ iteration member
        cases member
  | cons r rest ih =>
      obtain ⟨bump', mapped⟩ : ∃ bump', earlyMapRange pd r.paddr (p2v r.paddr) r.size r.flag bump = .ok bump' :=
        map_loop_bump pd r.flag r.size _ bump
      have here :=
        range_inside_iff pd r.flag r.paddr r.size bump (aligned r List.mem_cons_self).1 (aligned r List.mem_cons_self).2
      rw [rangesTrace, mapped, List.forall_mem_append, List.forall_mem_cons, here,
        ih bump' (fun r member => aligned r (List.mem_cons_of_mem _ member))]

-- RAM: the kernel ends in region 3, which ends by 1 GiB, and region 4, unless it is less
-- than a page, ends by 1 GiB too. Only whole pages count.
structure BelowGib (sections : Sections) (memoryMap : MemoryMap) : Prop where
  kernel : v2p sections.kernelEnd ≤ 0x100000 + (memoryMap 3).size
  ram : 0x100000 + (memoryMap 3).size < 2 ^ 30 + 0x1000
  acpi : (memoryMap 4).size / 0x1000 % 2 ^ 32 = 0 ∨
    (memoryMap 4).addr % 2 ^ 32 + 0x1000 * ((memoryMap 4).size / 0x1000 % 2 ^ 32) ≤ 2 ^ 30

theorem boot_mapping_inside (sections : Sections) (memoryMap : MemoryMap) (bump : Bump)
    (addressable : 0x100000 + (memoryMap 3).size ≤ 2 ^ 32) (aligned : 0x1000 ∣ (memoryMap 4).addr) :
    (∀ iteration ∈ pagingTrace sections memoryMap bump, Inside iteration) ↔ BelowGib sections memoryMap := by
  obtain ⟨roStart, roEnd, -, kernelEnd, alignedRo, alignedEnd⟩ := sections_physical sections
  have pages : ∀ r ∈ bootRanges sections memoryMap, 0x1000 ∣ r.paddr ∧ r.paddr < 2 ^ 32 := by
    rw [bootRanges, roStart]
    simp only [List.forall_mem_cons]
    refine ⟨⟨?_, ?_⟩, ⟨?_, ?_⟩, ⟨?_, ?_⟩, ⟨?_, ?_⟩, ⟨?_, ?_⟩, ⟨?_, ?_⟩, ⟨?_, ?_⟩, ⟨?_, ?_⟩, ⟨?_, ?_⟩,
      List.forall_mem_nil _⟩ <;> omega
  have sizes : Word.sub (v2p sections.roEnd) 0x100000 = v2p sections.roEnd - 0x100000 ∧
      Word.sub (v2p sections.kernelEnd) (v2p sections.roEnd) = v2p sections.kernelEnd - v2p sections.roEnd :=
    ⟨Word.sub_exact _ _ (by omega) roEnd.1, Word.sub_exact _ _ (by omega) roEnd.2⟩
  rw [pagingTrace, ranges_inside_iff _ _ _ pages, bootRanges, roStart, sizes.1, sizes.2]
  simp only [List.forall_mem_cons]
  constructor
  · rintro ⟨-, -, -, -, -, -, -, ram, acpi, -⟩
    simp only [Word.sub] at ram
    exact ⟨by omega, by omega, acpi⟩
  · rintro ⟨kernel, ram, acpi⟩
    rw [Nat.mod_eq_of_lt (show 0x100000 + (memoryMap 3).size < 2 ^ 32 by omega), Word.sub_exact _ _ (by omega) kernel]
    exact ⟨.inr (by omega), .inr (by omega), .inr (by omega), .inr (by omega), .inr (by omega),
      .inr (by omega), .inr (by omega), .inr (by omega), acpi, List.forall_mem_nil _⟩

theorem boot_mapping_inside_tiny : BelowGib tinySections tinyMap ∧
    ∀ iteration ∈ pagingTrace tinySections tinyMap tinyBump, Inside iteration := by
  have below : BelowGib tinySections tinyMap := ⟨by decide +kernel, by decide, by decide⟩
  exact ⟨below, (boot_mapping_inside tinySections tinyMap tinyBump (by decide) (by decide)).mpr below⟩

-- Two GiB of RAM, with the ACPI tables behind them.
def twoGibMap : MemoryMap :=
  fun i => if i = 3 then ⟨0x100000, 0x7FEE0000⟩ else if i = 4 then ⟨0x7FFE0000, 0x20000⟩ else ⟨0, 0⟩

theorem range_trace_mem (pd : Nat) (ranges : List Range) (bump : Bump) (r : Range) (member : r ∈ ranges) :
    ∃ bump', ∀ iteration ∈ mapTrace bumpTables pd r.flag r.size (startCursor r.paddr r.size) bump',
      iteration ∈ rangesTrace pd ranges bump := by
  induction ranges generalizing bump with
  | nil => cases member
  | cons first rest ih =>
      obtain ⟨bump1, mapped⟩ :
          ∃ bump1, earlyMapRange pd first.paddr (p2v first.paddr) first.size first.flag bump = .ok bump1 :=
        map_loop_bump pd first.flag first.size _ bump
      rw [rangesTrace, mapped]
      cases List.mem_cons.mp member with
      | inl here =>
          subst here
          exact ⟨bump, fun iteration inTrace => List.mem_append_left _ inTrace⟩
      | inr later =>
          obtain ⟨bump', traced⟩ := ih bump1 later
          exact ⟨bump', fun iteration inTrace => List.mem_append_right _ (traced iteration inTrace)⟩

-- The slot behind the last one gets a 4 MiB entry, at the address 0.
theorem boot_mapping_past_end : 0x100000 + (twoGibMap 3).size ≤ 2 ^ 32 ∧ 0x1000 ∣ (twoGibMap 4).addr ∧
    (∃ iteration ∈ pagingTrace tinySections twoGibMap tinyBump,
      iteration.2 = true ∧ iteration.1.pde = 1024 ∧ iteration.1.vaddr = 0) ∧
    ¬ ∀ iteration ∈ pagingTrace tinySections twoGibMap tinyBump, Inside iteration := by
  have ram : (⟨0x101000, 0x7FEDF, 3⟩ : Range) ∈ bootRanges tinySections twoGibMap := by
    have start : v2p tinySections.kernelEnd = 0x101000 := by decide +kernel
    have free : Word.sub ((0x100000 + (twoGibMap 3).size) % 2 ^ 32) 0x101000 / 0x1000 = 0x7FEDF := by decide +kernel
    rw [bootRanges, start, free]
    simp
  obtain ⟨bump, traced⟩ :=
    range_trace_mem tinySections.kernelPageDirectory _ (clearDirectory tinySections tinyBump) _ ram
  obtain ⟨unwrapped, page⟩ := start_unwrapped 0x101000 0x7FEDF (by decide)
  have first : (startCursor 0x101000 0x7FEDF).page = 0xC0101 := by
    rw [page]
    decide +kernel
  have size : (startCursor 0x101000 0x7FEDF).size = 0x7FEDF := rfl
  obtain ⟨c, bump', member, ⟨small, vaddr, direct⟩, here, rest⟩ :=
    trace_meets tinySections.kernelPageDirectory 3 0x7FEDF
    (startCursor 0x101000 0x7FEDF) bump unwrapped (Nat.le_refl _) 1024 (by omega) (by omega)
  have atEnd : c.pde = 1024 ∧ c.pte = 0 := by
    simp only [Cursor.page] at here
    omega
  have zero : c.vaddr = 0 := by omega
  have large : isAligned c.vaddr fourMb = true ∧ isAligned c.paddr fourMb = true ∧ 1024 ≤ c.size := by
    rw [show fourMb = 2 ^ 22 from rfl, is_aligned_iff, is_aligned_iff]
    simp only [p2v, Word.add, kernelVirtualBase] at direct
    omega
  have written : writesDirectory bumpTables tinySections.kernelPageDirectory c bump' = true := by
    rw [writesDirectory, if_pos large]
  refine ⟨by decide, by decide, ⟨_, traced _ member, written, atEnd.1, zero⟩, ?_⟩
  intro inside
  have index : c.pde < 1024 := (inside _ (traced _ member)).1 written
  omega

end X86OS.Paging
