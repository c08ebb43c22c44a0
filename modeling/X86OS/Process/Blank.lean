import X86OS.Process.Image

set_option autoImplicit false

namespace X86OS.Process

open Function Mem Paging

variable {σ : Type}

-- The next `n` frames that the page allocator hands out hold zeros. `map_range` clears no page
-- table, so what stands in a frame counts when it becomes one.
def Zeroed (A : PageAllocator σ) (mem : Mem) : Nat → σ → Prop
  | 0, _ => True
  | n + 1, s => ∀ f s', A.alloc 0 s = .ok (f, s') → (∀ x, InPage (p2v f) x → mem x = 0) ∧ Zeroed A mem n s'

theorem zeroed_mono (A : PageAllocator σ) (mem : Mem) (m n : Nat) (s : σ) (few : m ≤ n) (zeroed : Zeroed A mem n s) :
    Zeroed A mem m s := by
  induction m generalizing n s with
  | zero => trivial
  | succ m ih =>
      obtain ⟨n, rfl⟩ := Nat.exists_eq_succ_of_ne_zero (show n ≠ 0 by omega)
      intro f s' alloc
      obtain ⟨zeros, rest⟩ := zeroed f s' alloc
      exact ⟨zeros, ih n s' (by omega) rest⟩

section Unmapped

variable {A : PageAllocator σ} {Live : σ → List (Nat × Nat) → Prop} (lawful : A.Lawful Live) {setting : Setting Live}
  {live foreign big : List (Nat × Nat)} {dir : Nat} {taken : List Nat} {image : Nat → Option Mapping}
  {pages : List Heap.HeapPage} {h : Heap.State σ}

include lawful

theorem zeroed_write (mem mem' : Mem) (blocks : List (Nat × Nat)) (n : Nat) (s : σ) (held : Live s blocks)
    (used : ∀ f ∈ taken, (f, 0) ∈ blocks) (same : ∀ x, (∀ f ∈ taken, ¬ InPage (p2v f) x) → mem' x = mem x)
    (zeroed : Zeroed A mem n s) :
    Zeroed A mem' n s := by
  induction n generalizing s blocks with
  | zero => trivial
  | succ n ih =>
      intro g s' alloc
      obtain ⟨zeros, rest⟩ := zeroed g s' alloc
      have held' := lawful.allocated _ _ _ _ _ held alloc
      refine ⟨?_, ih _ s' held' (fun f member => List.mem_cons_of_mem _ (used f member)) rest⟩
      intro x inG
      rw [same x, zeros x inG]
      intro f member inF
      obtain ⟨alignedF, boundF⟩ := lawful.inRam _ _ held (f, 0) (used f member)
      obtain ⟨alignedG, boundG⟩ := lawful.inRam _ _ held' (g, 0) List.mem_cons_self
      have fresh := fresh_of_apart g 0 _ (lawful.apart _ _ held')
      have other : f ≠ g := by
        rintro rfl
        exact fresh (List.mem_map.mpr ⟨(f, 0), used f member, rfl⟩)
      simp only at boundF boundG
      exact frames_apart f g x alignedF alignedG (by omega) (by omega) other inF inG

theorem loading_zeroed (loading : Loading setting live foreign dir taken image pages big h) (mem' : Mem) (n : Nat)
    (same : ∀ x, (∀ f ∈ taken, ¬ InPage (p2v f) x) → mem' x = h.mem x) (zeroed : Zeroed A h.mem n h.pages) :
    Zeroed A mem' n h.pages :=
  zeroed_write lawful h.mem mem' _ n h.pages loading.sound.owned.owner
    (fun _ member => List.mem_append_right _
      (List.mem_append_right _ (List.mem_append_left _ (List.mem_map_of_mem member)))) same zeroed

theorem own_table (loading : Loading setting live foreign dir taken image pages big h) (k : Nat) (smallK : k < 1024)
    (absent : isPresent (entry setting.mem setting.kpd k) = false)
    (present : isPresent (entry h.mem (p2v dir) k) = true) :
    Paging.Small h.mem (p2v dir) k ∧ frameOf h.mem (p2v dir) k ∈ taken := by
  rcases loading.slots k smallK with same | ⟨-, -, t, member, -, -, flag, user, word⟩
  · rw [same] at present
    exact absurd (present.symm.trans absent) (by decide)
  · obtain ⟨aligned, bound, -⟩ := taken_page lawful setting loading.sound t member
    obtain ⟨low, -, small⟩ := table_flags flag (user_flags flag user).1
    refine ⟨⟨present, by rw [word, entry_large _ _ aligned]; exact small⟩, ?_⟩
    rw [frameOf, word, entry_frame t _ aligned bound low]
    exact member

theorem enter_unmapped (loading : Loading setting live foreign dir taken image pages big h) (page q value n : Nat)
    (other : page ≠ q) (inside : page < 2 ^ 20) (insideQ : q < 2 ^ 20) (bound : value < 2 ^ 32)
    (small : Paging.Small h.mem (p2v dir) (q / 1024)) (member : frameOf h.mem (p2v dir) (q / 1024) ∈ taken)
    (unmapped : translate h.mem (p2v dir) page = none) (zeroed : Zeroed A h.mem n h.pages) :
    translate (h.mem.writeWord (p2v (frameOf h.mem (p2v dir) (q / 1024)) + 4 * (q % 1024)) value)
      (p2v dir) page = none ∧
      Zeroed A (h.mem.writeWord (p2v (frameOf h.mem (p2v dir) (q / 1024)) + 4 * (q % 1024)) value) n h.pages := by
  have alignedPd := p2v_aligned dir (taken_page lawful setting loading.sound dir loading.dirTaken).1
  have smallJ : q % 1024 < 1024 := Nat.mod_lt _ (by decide)
  constructor
  · rw [translate_write_table alignedPd (loading_own lawful loading) _ _ _ page (by omega) smallJ small bound inside,
      if_neg (by omega), unmapped]
  · exact loading_zeroed lawful loading _ n (fun x outside => write_frame _ _ _ _ _ smallJ (outside _ member)) zeroed

theorem map_one_unmapped (loading : Loading setting live foreign dir taken image pages big h)
    (f vaddr flag page n : Nat) (member : f ∈ taken) (bound : vaddr < 2 ^ 32)
    (opened : setting.Open (vaddr / 0x1000 / 1024)) (user : UserFlags flag)
    (absent : isPresent (entry setting.mem setting.kpd (vaddr / 0x1000 / 1024)) = false) (h' : Heap.State σ)
    (done : mapRange A (p2v dir) f vaddr 1 flag h = .ok h') (inside : page < 2 ^ 20) (other : page ≠ vaddr / 0x1000)
    (unmapped : translate h.mem (p2v dir) page = none) (zeroed : Zeroed A h.mem (n + 1) h.pages) :
    translate h'.mem (p2v dir) page = none ∧ Zeroed A h'.mem n h'.pages := by
  have smallK : vaddr / 0x1000 / 1024 < 1024 := by omega
  obtain ⟨alignedF, boundF, -⟩ := taken_page lawful setting loading.sound f member
  have value := entry_bound f flag alignedF boundF (user_flags flag user).1.low
  rw [map_one A _ _ _ _ _ bound] at done
  by_cases present : isPresent (entry h.mem (p2v dir) (vaddr / 0x1000 / 1024)) = true
  · rw [if_pos present, Except.ok.injEq] at done
    subst done
    obtain ⟨small, table⟩ := own_table lawful loading _ smallK absent present
    exact enter_unmapped lawful loading page _ _ n other inside (by omega) value small table unmapped
      (zeroed_mono A _ n (n + 1) _ (by omega) zeroed)
  · rw [if_neg present] at done
    cases alloc : A.alloc 0 h.pages with
    | error e =>
        rw [alloc] at done
        cases done
    | ok result =>
        obtain ⟨t, s'⟩ := result
        rw [alloc, Except.ok.injEq] at done
        subst done
        have notPresent : isPresent (entry h.mem (p2v dir) (vaddr / 0x1000 / 1024)) = false := by simpa using present
        obtain ⟨zeros, rest⟩ := zeroed t s' alloc
        obtain ⟨took, idle⟩ := loading_take lawful loading s' t alloc
        obtain ⟨aligned, boundT, -⟩ := taken_page lawful setting took.sound t List.mem_cons_self
        obtain ⟨alignedD, boundD, -⟩ := taken_page lawful setting loading.sound dir loading.dirTaken
        obtain ⟨low, presentT, smallT⟩ := table_flags flag (user_flags flag user).1
        have tabled := loading_new_table lawful took t _ flag List.mem_cons_self idle smallK opened user notPresent
        have word := entry_here h.mem (p2v dir) (vaddr / 0x1000 / 1024) _ (entry_bound t _ aligned boundT low)
        have apart : p2v t ≠ p2v dir := fun same => idle.notDir (p2v_inj _ _ boundT boundD same)
        -- The new table is blank, so the slot it serves shows nothing.
        have stillUnmapped : translate
            (h.mem.writeWord (p2v dir + 4 * (vaddr / 0x1000 / 1024)) (t ||| (pagePresent ||| pageRw ||| flag)))
            (p2v dir) page = none := by
          rw [translate_new_table (p2v_aligned dir alignedD) (loading_own lawful loading) _ t _ page smallK aligned
            boundT low presentT smallT apart inside]
          split
          · have blank : entry h.mem (p2v t) (page % 1024) = 0 := by
              have byte (o : Nat) (few : o < 0x1000) : h.mem (p2v t + o) = 0 := zeros _ ⟨by omega, by omega⟩
              simp only [entry, readWord, Nat.add_assoc]
              rw [byte _ (by omega), byte _ (by omega), byte _ (by omega), byte _ (by omega)]
              rfl
            rw [blank]
            rfl
          · exact unmapped
        have stillZeroed := loading_zeroed lawful took _ n
          (fun x outside => write_frame h.mem (p2v dir) _ (t ||| (pagePresent ||| pageRw ||| flag)) x smallK
            (outside dir (List.mem_cons_of_mem _ loading.dirTaken))) rest
        obtain ⟨small, table⟩ :=
          own_table lawful tabled _ smallK absent (by rw [word, entry_present _ _ aligned]; exact presentT)
        exact enter_unmapped lawful tabled page _ _ n other inside (by omega) value small table
          stillUnmapped stillZeroed

theorem load_page_unmapped (loading : Loading setting live foreign dir taken image pages big h)
    (flags vaddr src i filesz page n : Nat) (user : UserFlags flags) (opened : setting.Open (pageAt vaddr i / 1024))
    (absent : isPresent (entry setting.mem setting.kpd (pageAt vaddr i / 1024)) = false) (rest : Nat)
    (h' : Heap.State σ) (done : loadPage A (p2v dir) flags vaddr src i (filesz - 0x1000 * i) h = .ok (rest, h'))
    (inside : page < 2 ^ 20) (other : page ≠ pageAt vaddr i) (unmapped : translate h.mem (p2v dir) page = none)
    (zeroed : Zeroed A h.mem (n + 2) h.pages) :
    translate h'.mem (p2v dir) page = none ∧ Zeroed A h'.mem n h'.pages := by
  obtain ⟨-, f, s', mem', alloc, ready, -, mapped, framed, -⟩ :=
    load_page_parts lawful loading flags vaddr src i filesz rest h' done
  obtain ⟨took, idle⟩ := loading_take lawful loading s' f alloc
  obtain ⟨alignedD, boundD, -⟩ := taken_page lawful setting took.sound dir took.dirTaken
  obtain ⟨alignedF, boundF, -⟩ := taken_page lawful setting took.sound f List.mem_cons_self
  have bound : Word.add vaddr (i <<< 12) < 2 ^ 32 := by
    rw [Word.add]
    exact Nat.mod_lt _ (by decide)
  have filled : translate mem' (p2v dir) page = none := by
    rw [← unmapped]
    apply translate_congr
    · exact entry_congr _ _ _ _ (by omega) (fun x inDir =>
        framed x (frames_apart dir f x alignedD alignedF boundD boundF idle.notDir.symm inDir))
    · intro small
      exact entry_congr _ _ _ _ (Nat.mod_lt _ (by decide))
        (fun x inTable => framed x (frames_apart _ f x (frame_of_page _ _ _).1 alignedF
        (frame_of_page _ _ _).2 boundF (idle.noTable _ (by omega) small) inTable))
  have stillZeroed := loading_zeroed lawful took mem' (n + 1) (fun x outside => framed x (outside f List.mem_cons_self))
    (zeroed f s' alloc).2
  exact map_one_unmapped lawful ready f _ flags page n List.mem_cons_self bound opened user absent h' mapped inside
    other filled stillZeroed

-- Induction on the rounds left, as for the image.
theorem load_pages_unmapped (flags vaddr src filesz n i page m : Nat) (image : Nat → Option Mapping) (taken : List Nat)
    (h : Heap.State σ) (loading : Loading setting live foreign dir taken image pages big h) (user : UserFlags flags)
    (opened : ∀ j, i ≤ j → j < i + n → setting.Open (pageAt vaddr j / 1024))
    (absent : ∀ j, i ≤ j → j < i + n → isPresent (entry setting.mem setting.kpd (pageAt vaddr j / 1024)) = false)
    (h' : Heap.State σ) (done : loadPages A (p2v dir) flags vaddr src n i (filesz - 0x1000 * i) h = .ok h')
    (inside : page < 2 ^ 20) (other : ∀ j, i ≤ j → j < i + n → page ≠ pageAt vaddr j)
    (unmapped : translate h.mem (p2v dir) page = none) (zeroed : Zeroed A h.mem (m + 2 * n) h.pages) :
    translate h'.mem (p2v dir) page = none ∧ Zeroed A h'.mem m h'.pages := by
  induction n generalizing i image taken h with
  | zero =>
      rw [loadPages, Except.ok.injEq] at done
      subst done
      exact ⟨unmapped, zeroed⟩
  | succ n ih =>
      rw [loadPages] at done
      cases round : loadPage A (p2v dir) flags vaddr src i (filesz - 0x1000 * i) h with
      | error e =>
          rw [round] at done
          cases done
      | ok result =>
          obtain ⟨rest, h1⟩ := result
          rw [round] at done
          simp only at done
          obtain ⟨remaining, taken1, image1, loading1, -⟩ :=
            load_page_loading lawful loading flags vaddr src i filesz user
              (opened i (by omega) (by omega)) rest h1 round
          obtain ⟨unmapped1, zeroed1⟩ :=
            load_page_unmapped lawful loading flags vaddr src i filesz page (m + 2 * n) user
            (opened i (by omega) (by omega)) (absent i (by omega) (by omega)) rest h1 round inside
              (other i (by omega) (by omega)) unmapped zeroed
          rw [remaining] at done
          exact ih (i + 1) image1 taken1 h1 loading1 (fun j low high => opened j (by omega) (by omega))
            (fun j low high => absent j (by omega) (by omega)) done
              (fun j low high => other j (by omega) (by omega)) unmapped1 zeroed1

theorem load_segment_unmapped (loading : Loading setting live foreign dir taken image pages big h) (elf i page m : Nat)
    (safe : HeadersSafe setting elf) (header : i < ePhnum setting.mem elf)
    (opened : ∀ page, Covers setting.mem elf i page → setting.Open (page / 1024))
    (absent : ∀ page, Covers setting.mem elf i page → isPresent (entry setting.mem setting.kpd (page / 1024)) = false)
    (endsAt : Nat) (h' : Heap.State σ)
    (done : loadSegment A (Word.add (Word.add elf (ePhoff setting.mem elf)) (sizeofPhdr * i)) (p2v dir) elf
      h = .ok (endsAt, h'))
    (inside : page < 2 ^ 20) (uncovered : ¬ Covers setting.mem elf i page)
    (unmapped : translate h.mem (p2v dir) page = none)
    (zeroed : Zeroed A h.mem (m + 2 * segmentPages (segmentAt setting.mem elf i)) h.pages) :
    translate h'.mem (p2v dir) page = none ∧ Zeroed A h'.mem m h'.pages := by
  rw [loadSegment] at done
  simp only [loading_header loading elf i safe header] at done
  rw [segmentPages] at zeroed
  by_cases load : (segmentAt setting.mem elf i).pType = ptLoad
  · rw [if_neg (not_not.mpr load)] at done
    rw [if_pos load] at zeroed
    cases run : loadPages A (p2v dir) (segmentFlags (segmentAt setting.mem elf i)) (segmentAt setting.mem elf i).pVaddr
        (Word.add elf (segmentAt setting.mem elf i).pOffset) (pagesNeeded (segmentAt setting.mem elf i)) 0
        (segmentAt setting.mem elf i).pFilesz h with
    | error e =>
        rw [run] at done
        cases done
    | ok h1 =>
        rw [run] at done
        simp only [Except.ok.injEq, Prod.mk.injEq] at done
        obtain ⟨-, rfl⟩ := done
        exact load_pages_unmapped lawful _ _ _ (segmentAt setting.mem elf i).pFilesz _ 0 page m image taken h loading
          (segment_flags_user _) (fun j _ high => opened _ ⟨load, j, by omega, rfl⟩)
            (fun j _ high => absent _ ⟨load, j, by omega, rfl⟩)
          h1 run inside (fun j _ high same => uncovered ⟨load, j, by omega, same⟩) unmapped zeroed
  · rw [if_pos load, Except.ok.injEq, Prod.mk.injEq] at done
    obtain ⟨-, rfl⟩ := done
    exact ⟨unmapped, zeroed_mono A _ m _ _ (by omega) zeroed⟩

theorem load_segments_unmapped (elf n i page m lastAddr : Nat) (image : Nat → Option Mapping) (taken : List Nat)
    (h : Heap.State σ) (loading : Loading setting live foreign dir taken image pages big h)
    (safe : HeadersSafe setting elf) (header : i + n = ePhnum setting.mem elf)
    (opened : ∀ k page, k < ePhnum setting.mem elf → Covers setting.mem elf k page → setting.Open (page / 1024))
    (absent : ∀ k page, k < ePhnum setting.mem elf → Covers setting.mem elf k page →
      isPresent (entry setting.mem setting.kpd (page / 1024)) = false)
    (loaded : Loaded setting elf i image) (result : Nat) (h' : Heap.State σ)
    (done : loadSegments A (Word.add elf (ePhoff setting.mem elf)) (p2v dir) elf n i lastAddr h = .ok (result, h'))
    (inside : page < 2 ^ 20) (uncovered : ∀ k < ePhnum setting.mem elf, ¬ Covers setting.mem elf k page)
    (unmapped : translate h.mem (p2v dir) page = none)
    (zeroed : Zeroed A h.mem (m + 2 * pagesFrom setting.mem elf n i) h.pages) :
    translate h'.mem (p2v dir) page = none ∧ Zeroed A h'.mem m h'.pages := by
  induction n generalizing i lastAddr image taken h with
  | zero =>
      rw [loadSegments, Except.ok.injEq, Prod.mk.injEq] at done
      obtain ⟨-, rfl⟩ := done
      exact ⟨unmapped, zeroed⟩
  | succ n ih =>
      rw [loadSegments] at done
      cases run : loadSegment A (Word.add (Word.add elf (ePhoff setting.mem elf)) (sizeofPhdr * i)) (p2v dir) elf h with
      | error e =>
          rw [run] at done
          cases done
      | ok segment =>
          obtain ⟨endsAt, h1⟩ := segment
          rw [run] at done
          obtain ⟨-, taken1, image1, loading1, -, loaded1⟩ :=
            load_segment_loading lawful loading elf i safe (by omega) (fun page => opened i page (by omega))
              loaded endsAt h1 run
          rw [pagesFrom] at zeroed
          obtain ⟨unmapped1, zeroed1⟩ :=
            load_segment_unmapped lawful loading elf i page (m + 2 * pagesFrom setting.mem elf n (i + 1)) safe
            (by omega) (fun page => opened i page (by omega)) (fun page => absent i page (by omega))
              endsAt h1 run inside
            (uncovered i (by omega)) unmapped (zeroed_mono A _ _ _ _ (by omega) zeroed)
          exact ih (i + 1) _ image1 taken1 h1 loading1 (by omega) loaded1 done unmapped1 zeroed1

theorem load_elf_unmapped (loading : Loading setting live foreign dir taken (fun _ => none) pages big h)
    (elf page : Nat) (safe : HeadersSafe setting elf) (magic : hasMagic setting.mem elf = true)
    (opened : ∀ k page, k < ePhnum setting.mem elf → Covers setting.mem elf k page → setting.Open (page / 1024))
    (absent : ∀ k page, k < ePhnum setting.mem elf → Covers setting.mem elf k page →
      isPresent (entry setting.mem setting.kpd (page / 1024)) = false)
    (result : Nat) (h' : Heap.State σ) (done : loadElf A (p2v dir) elf h = .ok (result, h')) (inside : page < 2 ^ 20)
    (uncovered : ∀ k < ePhnum setting.mem elf, ¬ Covers setting.mem elf k page)
    (unmapped : translate h.mem (p2v dir) page = none)
    (zeroed : Zeroed A h.mem (2 * pagesFrom setting.mem elf (ePhnum setting.mem elf) 0) h.pages) :
    translate h'.mem (p2v dir) page = none := by
  obtain ⟨magic', offset, count⟩ := loading_elf_header loading elf safe
  rw [loadElf, magic', offset, count, if_pos magic] at done
  rw [← Nat.zero_add (2 * _)] at zeroed
  exact (load_segments_unmapped lawful elf _ 0 page 0 0 _ taken h loading safe (Nat.zero_add _) opened absent
    (nothing_loaded setting elf) result h' done inside uncovered unmapped zeroed).1

end Unmapped

end X86OS.Process
