import X86OS.Mm.HeapRuns
import X86OS.Mm.MapLoop
import X86OS.Mm.PageLog
import X86OS.Process.Process

set_option autoImplicit false

namespace X86OS.Process

open Function Mem Paging

variable {σ : Type}

-- PRESENT | USER, with or without RW.
def UserFlags (flag : Nat) : Prop := flag = 5 ∨ flag = 7

theorem user_flags (flag : Nat) (user : UserFlags flag) : LeafFlags flag ∧ flag.testBit 2 = true := by
  rcases user with rfl | rfl <;> exact ⟨⟨by decide, by decide, by decide⟩, by decide⟩

theorem map_one (A : PageAllocator σ) (pd paddr vaddr flag : Nat) (h : Heap.State σ) (bound : vaddr < 2 ^ 32) :
    mapRange A pd paddr vaddr 1 flag h =
      if isPresent (entry h.mem pd (vaddr / 0x1000 / 1024)) = true then
        .ok { h with
          mem := h.mem.writeWord (p2v (frameOf h.mem pd (vaddr / 0x1000 / 1024)) + 4 * (vaddr / 0x1000 % 1024))
            (paddr ||| flag) }
      else
        match A.alloc 0 h.pages with
        | .error e => .error e
        | .ok (t, pages) =>
            let mem := h.mem.writeWord (pd + 4 * (vaddr / 0x1000 / 1024)) (t ||| (pagePresent ||| pageRw ||| flag))
            .ok { h with
              mem := mem.writeWord
                (p2v (frameOf mem pd (vaddr / 0x1000 / 1024)) + 4 * (vaddr / 0x1000 % 1024)) (paddr ||| flag)
              pages := pages } := by
  have wrap (x : Nat) : x &&& 0x3FF = x % 1024 := Nat.and_two_pow_sub_one_eq_mod x 10
  have slot : (vaddr >>> 22) &&& 0x3FF = vaddr / 0x1000 / 1024 := by
    rw [wrap, Nat.shiftRight_eq_div_pow]
    omega
  have index : (vaddr >>> 12) &&& 0x3FF = vaddr / 0x1000 % 1024 := by
    rw [wrap, Nat.shiftRight_eq_div_pow]
  rw [mapRange, mapPages, slot, index, mapLoop, if_neg (by simp), mapStep, if_neg (by simp), if_pos (.inr rfl)]
  by_cases present : isPresent (entry h.mem pd (vaddr / 0x1000 / 1024)) = true
  · have opened : openTable (pmmTables A) pd (vaddr / 0x1000 / 1024) flag h = .ok h :=
      open_table_present _ _ _ _ _ present
    rw [if_pos present, opened]
    rfl
  · have clear : entry h.mem pd (vaddr / 0x1000 / 1024) &&& pagePresent = 0 := by simpa [isPresent] using present
    have opened : openTable (pmmTables A) pd (vaddr / 0x1000 / 1024) flag h = _ := if_pos clear
    rw [if_neg present, opened]
    simp only [pmmTables]
    cases A.alloc 0 h.pages with
    | error e => rfl
    | ok result =>
        simp only [setEntry, Nat.or_assoc]
        rfl

-- The page allocator hands out no `Reserved` byte.
def KeptOut (Live : σ → List (Nat × Nat) → Prop) (Reserved : Nat → Prop) : Prop :=
  ∀ s live, Live s live → ∀ block ∈ live, ∀ x, p2v block.1 ≤ x → x < p2v block.1 + 0x1000 * 2 ^ block.2 → ¬ Reserved x

-- What surrounds a call of `create_process`: memory and kernel directory when it starts,
-- the bytes the page allocator never hands out, those of them the loader may write, and
-- the slots it maps pages in.
structure Setting (Live : σ → List (Nat × Nat) → Prop) where
  mem : Mem
  kpd : Nat
  Reserved : Nat → Prop
  Writable : Nat → Prop
  Open : Nat → Prop
  aligned : 0x1000 ∣ kpd
  kept : KeptOut Live Reserved
  within : ∀ x, Writable x → Reserved x
  directory : ∀ x, InPage kpd x → Reserved x
  tables : ∀ k, k < 1024 → Small mem kpd k → ∀ x, InPage (p2v (frameOf mem kpd k)) x → Reserved x
  own : OwnTables mem kpd
  openSlots :
    ∀ k, k < 1024 → Open k → isPresent (entry mem kpd k) = true → ∀ x, InPage (p2v (frameOf mem kpd k)) x → Writable x
  openLarge :
    ∀ k k', k < 1024 → k' < 1024 → Open k → isPresent (entry mem kpd k) = true → isLarge (entry mem kpd k) = true →
    Small mem kpd k' → frameOf mem kpd k' ≠ frameOf mem kpd k

-- A page of a 4 MiB mapping of the kernel.
def Setting.Large {Live : σ → List (Nat × Nat) → Prop} (setting : Setting Live) (page : Nat) : Prop :=
  isPresent (entry setting.mem setting.kpd (page / 1024)) = true ∧
    isLarge (entry setting.mem setting.kpd (page / 1024)) = true

-- A mapped page: its frame, the flags of its entry and what stands in the frame.
structure Mapping where
  frame : Nat
  flag : Nat
  bytes : Nat → UInt8

def pageBlocks (taken : List Nat) : List (Nat × Nat) := taken.map (fun f => (f, 0))

section Pages

variable {A : PageAllocator σ} {Live : σ → List (Nat × Nat) → Prop} (lawful : A.Lawful Live)
  {h : Heap.State σ} {live foreign big : List (Nat × Nat)} {taken : List Nat} {pages : List Heap.HeapPage}

theorem sound_mem (mem' : Mem) (sound : Heap.Sound Live ⟨h, live, foreign⟩ pages big)
    (same : ∀ x, Heap.InPages pages x → mem' x = h.mem x) :
    Heap.Sound Live ⟨{ h with mem := mem' }, live, foreign⟩ pages big := by
  refine ⟨⟨⟨(Heap.rep_mem h pages mem' sound.owned.toRep ?_).1, sound.owned.noHand, sound.owned.spread⟩,
    sound.owned.owner, sound.owned.grown⟩, sound.backed, sound.distinct⟩
  exact fun x isMeta => same x (Heap.meta_in_pages pages x isMeta)

theorem kept_not_heap (Reserved : Nat → Prop) (kept : KeptOut Live Reserved)
    (sound : Heap.Sound Live ⟨h, live, foreign⟩ pages big) (x : Nat) (reserved : Reserved x) :
    ¬ Heap.InPages pages x := by
  rintro ⟨p, member, low, high⟩
  have fits := p.fits
  have block : Heap.pageBlock p ∈ pages.map Heap.pageBlock ++ (big ++ foreign) :=
    List.mem_append_left _ (List.mem_map_of_mem member)
  have base : p2v (Heap.pageBlock p).1 = p.base := p2v_v2p p.base (by simp only [Heap.pageSize] at fits; omega)
  refine kept _ _ sound.owned.owner _ block x (by omega) ?_ reserved
  rw [base]
  exact high

theorem reserved_not_heap (setting : Setting Live) (sound : Heap.Sound Live ⟨h, live, foreign⟩ pages big) (x : Nat)
    (reserved : setting.Reserved x) :
    ¬ Heap.InPages pages x := kept_not_heap setting.Reserved setting.kept sound x reserved

include lawful

theorem sound_take (s' : σ) (order addr : Nat) (sound : Heap.Sound Live ⟨h, live, foreign⟩ pages big)
    (done : A.alloc order h.pages = .ok (addr, s')) :
    Heap.Sound Live ⟨{ h with pages := s' }, live, (addr, order) :: foreign⟩ pages big := by
  have live' := lawful.allocated _ _ _ _ _ sound.owned.owner done
  refine ⟨Heap.owned_pages h pages _ _ s' sound.owned ?_, sound.backed, sound.distinct⟩
  apply lawful.reorder _ _ _ _ live'
  simp only [← List.append_assoc]
  exact List.perm_middle.symm

theorem taken_page (setting : Setting Live) (sound : Heap.Sound Live ⟨h, live, pageBlocks taken ++ foreign⟩ pages big)
    (f : Nat) (member : f ∈ taken) :
    0x1000 ∣ f ∧ f < 2 ^ 32 ∧ ∀ x, InPage (p2v f) x → ¬ setting.Reserved x ∧ ¬ Heap.InPages pages x := by
  have inTaken : (f, 0) ∈ pageBlocks taken ++ foreign := List.mem_append_left _ (List.mem_map_of_mem member)
  have inRest : (f, 0) ∈ big ++ (pageBlocks taken ++ foreign) := List.mem_append_right _ inTaken
  have block : (f, 0) ∈ pages.map Heap.pageBlock ++ (big ++ (pageBlocks taken ++ foreign)) :=
    List.mem_append_right _ inRest
  obtain ⟨aligned, low⟩ := lawful.inRam _ _ sound.owned.owner _ block
  refine ⟨aligned, by simp only at low; omega, ?_⟩
  intro x inPage
  exact ⟨setting.kept _ _ sound.owned.owner _ block x inPage.1 inPage.2,
    Heap.block_outside lawful h pages _ sound.owned f 0 x inRest inPage.1 inPage.2⟩

theorem taken_fresh (s' : σ) (f : Nat) (sound : Heap.Sound Live ⟨h, live, pageBlocks taken ++ foreign⟩ pages big)
    (done : A.alloc 0 h.pages = .ok (f, s')) : f ∉ taken := by
  have live' := lawful.allocated _ _ _ _ _ sound.owned.owner done
  have fresh := fresh_of_apart f 0 _ (lawful.apart _ _ live')
  intro member
  apply fresh
  have inTaken : (f, 0) ∈ pageBlocks taken := List.mem_map_of_mem member
  exact List.mem_map.mpr ⟨(f, 0), by simp [inTaken], rfl⟩

end Pages

-- `taken` are the frames obtained so far, `dir` the one that holds the new directory, and
-- `image` what has been mapped.
structure Loading {Live : σ → List (Nat × Nat) → Prop} (setting : Setting Live)
    (live foreign : List (Nat × Nat)) (dir : Nat) (taken : List Nat) (image : Nat → Option Mapping)
    (pages : List Heap.HeapPage) (big : List (Nat × Nat))
    (h : Heap.State σ) :
    Prop where
  sound : Heap.Sound Live ⟨h, live, pageBlocks taken ++ foreign⟩ pages big
  dirTaken : dir ∈ taken
  reserved : ∀ x, setting.Reserved x → ¬ setting.Writable x → h.mem x = setting.mem x
  slots : ∀ k, k < 1024 → entry h.mem (p2v dir) k = entry setting.mem setting.kpd k ∨
    (setting.Open k ∧ isPresent (entry setting.mem setting.kpd k) = false ∧
      ∃ t ∈ taken, t ≠ dir ∧ (∀ page m, image page = some m → m.frame ≠ t) ∧
        ∃ flag, UserFlags flag ∧ entry h.mem (p2v dir) k = t ||| (pagePresent ||| pageRw ||| flag))
  distinct : ∀ k k', k < 1024 → k' < 1024 → Small h.mem (p2v dir) k → Small h.mem (p2v dir) k' →
    frameOf h.mem (p2v dir) k = frameOf h.mem (p2v dir) k' → k = k'
  mapped : ∀ page m, image page = some m → page < 2 ^ 20 ∧ translate h.mem (p2v dir) page = some (m.frame, m.flag) ∧
    UserFlags m.flag ∧ m.frame ∈ taken ∧ m.frame ≠ dir ∧ ∀ off, off < 0x1000 → h.mem (p2v m.frame + off) = m.bytes off
  separate : ∀ page page' m m', image page = some m → image page' = some m' → m.frame = m'.frame → page = page'

-- A frame that serves no purpose yet.
structure Idle (dir : Nat) (image : Nat → Option Mapping) (h : Heap.State σ) (f : Nat) : Prop where
  notDir : f ≠ dir
  noTable : ∀ k, k < 1024 → Small h.mem (p2v dir) k → frameOf h.mem (p2v dir) k ≠ f
  unmapped : ∀ page m, image page = some m → m.frame ≠ f

section Steps

variable {A : PageAllocator σ} {Live : σ → List (Nat × Nat) → Prop} (lawful : A.Lawful Live) {setting : Setting Live}
  {live foreign big : List (Nat × Nat)} {dir : Nat} {taken : List Nat} {image : Nat → Option Mapping}
  {pages : List Heap.HeapPage} {h : Heap.State σ}

include lawful

-- Where the table of a small slot is: a frame of our own or a table of the kernel.
theorem loading_table (loading : Loading setting live foreign dir taken image pages big h) (k : Nat) (smallK : k < 1024)
    (small : Small h.mem (p2v dir) k) :
    (frameOf h.mem (p2v dir) k = frameOf setting.mem setting.kpd k ∧ Small setting.mem setting.kpd k) ∨
      (setting.Open k ∧ isPresent (entry setting.mem setting.kpd k) = false ∧ frameOf h.mem (p2v dir) k ∈ taken ∧
        frameOf h.mem (p2v dir) k ≠ dir ∧ ∀ page m, image page = some m → m.frame ≠ frameOf h.mem (p2v dir) k) := by
  rcases loading.slots k smallK with same | ⟨opened, absent, t, member, notDir, unmapped, flag, user, word⟩
  · exact .inl ⟨congrArg (· &&& pageMask) same, by rwa [Paging.Small, same] at small⟩
  · obtain ⟨aligned, bound, -⟩ := taken_page lawful setting loading.sound t member
    have frame : frameOf h.mem (p2v dir) k = t := by
      rw [frameOf, word, entry_frame t _ aligned bound (table_flags flag (user_flags flag user).1).1]
    exact .inr ⟨opened, absent, by rwa [frame], by rwa [frame], by rwa [frame]⟩

theorem taken_not_table (loading : Loading setting live foreign dir taken image pages big h) (f k : Nat)
    (member : f ∈ taken) (smallK : k < 1024) (small : Small setting.mem setting.kpd k) :
    frameOf setting.mem setting.kpd k ≠ f := by
  rintro rfl
  have inPage : InPage (p2v (frameOf setting.mem setting.kpd k)) (p2v (frameOf setting.mem setting.kpd k)) :=
    ⟨Nat.le_refl _, by omega⟩
  exact ((taken_page lawful setting loading.sound _ member).2.2 _ inPage).1 (setting.tables k smallK small _ inPage)

theorem loading_own (loading : Loading setting live foreign dir taken image pages big h) :
    OwnTables h.mem (p2v dir) := by
  refine ⟨?_, loading.distinct⟩
  intro k smallK small same
  have frame := p2v_inj _ _ (frame_of_page h.mem (p2v dir) k).2
    (taken_page lawful setting loading.sound dir loading.dirTaken).2.1 same
  rcases loading_table lawful loading k smallK small with ⟨word, kernel⟩ | ⟨-, -, -, notDir, -⟩
  · exact taken_not_table lawful loading dir k loading.dirTaken smallK kernel (word.symm.trans frame)
  · exact notDir frame

theorem loading_take (loading : Loading setting live foreign dir taken image pages big h) (s' : σ) (f : Nat)
    (done : A.alloc 0 h.pages = .ok (f, s')) :
    Loading setting live foreign dir (f :: taken) image pages big { h with pages := s' } ∧
      Idle dir image { h with pages := s' } f := by
  have fresh := taken_fresh lawful s' f loading.sound done
  have sound : Heap.Sound Live ⟨{ h with pages := s' }, live, pageBlocks (f :: taken) ++ foreign⟩ pages big :=
    sound_take lawful s' 0 f loading.sound done
  have grown : Loading setting live foreign dir (f :: taken) image pages big { h with pages := s' } := by
    refine ⟨sound, List.mem_cons_of_mem _ loading.dirTaken, loading.reserved, ?_, loading.distinct,
      ?_, loading.separate⟩
    · intro k smallK
      exact (loading.slots k smallK).imp_right (fun ⟨opened, absent, t, member, rest⟩ =>
        ⟨opened, absent, t, List.mem_cons_of_mem _ member, rest⟩)
    · intro page m found
      obtain ⟨inside, mapped, user, member, rest⟩ := loading.mapped page m found
      exact ⟨inside, mapped, user, List.mem_cons_of_mem _ member, rest⟩
  refine ⟨grown, ?_, ?_, ?_⟩
  · rintro rfl
    exact fresh loading.dirTaken
  · intro k smallK small same
    rcases loading_table lawful loading k smallK small with ⟨word, kernel⟩ | ⟨-, -, member, -⟩
    · exact taken_not_table lawful grown f k List.mem_cons_self smallK kernel (word.symm.trans same)
    · exact fresh (same ▸ member)
  · intro page m found same
    exact fresh (same ▸ (loading.mapped page m found).2.2.2.1)

-- What counts is the directory, its tables and the mapped frames.
omit lawful in
theorem loading_keep (loading : Loading setting live foreign dir taken image pages big h)
    (live' big' : List (Nat × Nat)) (pages' : List Heap.HeapPage) (h' : Heap.State σ)
    (sound : Heap.Sound Live ⟨h', live', pageBlocks taken ++ foreign⟩ pages' big')
    (reserved : ∀ x, setting.Reserved x → ¬ setting.Writable x → h'.mem x = setting.mem x)
    (inDir : ∀ x, InPage (p2v dir) x → h'.mem x = h.mem x)
    (inTables : ∀ k, k < 1024 → Small h.mem (p2v dir) k → ∀ x, InPage (p2v (frameOf h.mem (p2v dir) k)) x →
      h'.mem x = h.mem x)
    (inFrames : ∀ page m, image page = some m → ∀ x, InPage (p2v m.frame) x → h'.mem x = h.mem x) :
    Loading setting live' foreign dir taken image pages' big' h' := by
  have word (k : Nat) (smallK : k < 1024) : entry h'.mem (p2v dir) k = entry h.mem (p2v dir) k :=
    entry_congr _ _ _ _ smallK inDir
  refine ⟨sound, loading.dirTaken, reserved, ?_, ?_, ?_, loading.separate⟩
  · intro k smallK
    rw [word k smallK]
    exact loading.slots k smallK
  · intro k k' smallK smallK' small small' same
    rw [frame_of_congr _ _ _ _ (word k smallK), frame_of_congr _ _ _ _ (word k' smallK')] at same
    exact loading.distinct k k' smallK smallK' ((small_congr _ _ _ _ (word k smallK)).mp small)
      ((small_congr _ _ _ _ (word k' smallK')).mp small') same
  · intro page m found
    obtain ⟨inside, mapped, user, member, notDir, bytes⟩ := loading.mapped page m found
    refine ⟨inside, ?_, user, member, notDir, ?_⟩
    · rw [translate_frame _ _ _ _ inside inDir (inTables _ (by omega)), mapped]
    · intro off small
      rw [inFrames page m found _ ⟨by omega, by omega⟩]
      exact bytes off small

theorem loading_other (loading : Loading setting live foreign dir taken image pages big h)
    (live' big' : List (Nat × Nat)) (pages' : List Heap.HeapPage) (h' : Heap.State σ)
    (sound : Heap.Sound Live ⟨h', live', pageBlocks taken ++ foreign⟩ pages' big')
    (same : ∀ x, setting.Reserved x ∨ (∃ f ∈ taken, InPage (p2v f) x) → h'.mem x = h.mem x) :
    Loading setting live' foreign dir taken image pages' big' h' := by
  apply loading_keep loading live' big' pages' h' sound
  · exact fun x reserved fixed => (same x (.inl reserved)).trans (loading.reserved x reserved fixed)
  · exact fun x inDir => same x (.inr ⟨dir, loading.dirTaken, inDir⟩)
  · intro k smallK small x inTable
    rcases loading_table lawful loading k smallK small with ⟨word, kernel⟩ | ⟨-, -, member, -⟩
    · exact same x (.inl (setting.tables k smallK kernel x (word ▸ inTable)))
    · exact same x (.inr ⟨_, member, inTable⟩)
  · exact fun page m found x inFrame => same x (.inr ⟨_, (loading.mapped page m found).2.2.2.1, inFrame⟩)

omit lawful in
theorem frames_apart (f g x : Nat) (alignedF : 0x1000 ∣ f) (alignedG : 0x1000 ∣ g) (boundF : f < 2 ^ 32)
    (boundG : g < 2 ^ 32) (other : f ≠ g) (inF : InPage (p2v f) x) : ¬ InPage (p2v g) x :=
  pages_apart _ _ x (p2v_aligned _ alignedF) (p2v_aligned _ alignedG)
    (fun same => other (p2v_inj _ _ boundF boundG same)) inF

theorem loading_fill (loading : Loading setting live foreign dir taken image pages big h) (f : Nat) (member : f ∈ taken)
    (idle : Idle dir image h f) (mem' : Mem) (same : ∀ x, ¬ InPage (p2v f) x → mem' x = h.mem x) :
    Loading setting live foreign dir taken image pages big { h with mem := mem' } := by
  obtain ⟨aligned, bound, outside⟩ := taken_page lawful setting loading.sound f member
  have apart (g : Nat) (alignedG : 0x1000 ∣ g) (boundG : g < 2 ^ 32) (other : g ≠ f) (x : Nat)
      (inG : InPage (p2v g) x) :
      mem' x = h.mem x := same x (frames_apart g f x alignedG aligned boundG bound other inG)
  apply loading_keep loading live big pages _ (sound_mem mem' loading.sound ?_)
  · exact fun x reserved fixed =>
      (same x (fun inF => (outside x inF).1 reserved)).trans (loading.reserved x reserved fixed)
  · obtain ⟨alignedD, boundD, -⟩ := taken_page lawful setting loading.sound dir loading.dirTaken
    exact apart dir alignedD boundD idle.notDir.symm
  · exact fun k smallK small => apart _ (frame_of_page _ _ _).1 (frame_of_page _ _ _).2 (idle.noTable k smallK small)
  · intro page m found
    obtain ⟨alignedM, boundM, -⟩ :=
      taken_page lawful setting loading.sound m.frame (loading.mapped page m found).2.2.2.1
    exact apart _ alignedM boundM (idle.unmapped page m found)
  · exact fun x inHeap => same x (fun inF => (outside x inF).2 inHeap)

-- Mapping into a 4 MiB slot writes a word of its first page instead.
theorem loading_large (loading : Loading setting live foreign dir taken image pages big h) (k : Nat) (smallK : k < 1024)
    (opened : setting.Open k) (present : isPresent (entry setting.mem setting.kpd k) = true)
    (large : isLarge (entry setting.mem setting.kpd k) = true) (mem' : Mem)
    (same : ∀ x, ¬ InPage (p2v (frameOf setting.mem setting.kpd k)) x → mem' x = h.mem x) :
    Loading setting live foreign dir taken image pages big { h with mem := mem' } := by
  have writable := setting.openSlots k smallK opened present
  have inTaken (f : Nat) (member : f ∈ taken) (x : Nat) (inF : InPage (p2v f) x) : mem' x = h.mem x :=
    same x (fun inBase =>
      ((taken_page lawful setting loading.sound f member).2.2 x inF).1 (setting.within x (writable x inBase)))
  apply loading_keep loading live big pages _ (sound_mem mem' loading.sound ?_)
  · exact fun x reserved fixed =>
      (same x (fun inBase => fixed (writable x inBase))).trans (loading.reserved x reserved fixed)
  · exact inTaken dir loading.dirTaken
  · intro k' smallK' small x inTable
    rcases loading_table lawful loading k' smallK' small with ⟨word, kernel⟩ | ⟨-, -, member, -⟩
    · have other := setting.openLarge k k' smallK smallK' opened present large kernel
      rw [word] at inTable
      exact same x (frames_apart _ _ x (frame_of_page _ _ _).1 (frame_of_page _ _ _).1 (frame_of_page _ _ _).2
        (frame_of_page _ _ _).2 other inTable)
    · exact inTaken _ member x inTable
  · exact fun page m found => inTaken _ (loading.mapped page m found).2.2.2.1
  · exact fun x inHeap =>
      same x (fun inBase => reserved_not_heap setting loading.sound x (setting.within x (writable x inBase)) inHeap)

theorem loading_new_table (loading : Loading setting live foreign dir taken image pages big h) (t k flag : Nat)
    (member : t ∈ taken) (idle : Idle dir image h t) (smallK : k < 1024) (opened : setting.Open k)
    (user : UserFlags flag) (absent : isPresent (entry h.mem (p2v dir) k) = false) :
    Loading setting live foreign dir taken image pages big
      { h with mem := h.mem.writeWord (p2v dir + 4 * k) (t ||| (pagePresent ||| pageRw ||| flag)) } := by
  obtain ⟨aligned, bound, -⟩ := taken_page lawful setting loading.sound t member
  obtain ⟨alignedD, boundD, outside⟩ := taken_page lawful setting loading.sound dir loading.dirTaken
  obtain ⟨low, present, small⟩ := table_flags flag (user_flags flag user).1
  have own := loading_own lawful loading
  have alignedPd := p2v_aligned dir alignedD
  have here := entry_here h.mem (p2v dir) k _ (entry_bound t _ aligned bound low)
  have other (k' : Nat) (differs : k' ≠ k) :=
    entry_other h.mem (p2v dir) k k' (t ||| (pagePresent ||| pageRw ||| flag)) (Ne.symm differs)
  have same (x : Nat) (notDir : ¬ InPage (p2v dir) x) :=
    write_frame h.mem (p2v dir) k (t ||| (pagePresent ||| pageRw ||| flag)) x smallK notDir
  have kernelAbsent : isPresent (entry setting.mem setting.kpd k) = false := by
    rcases loading.slots k smallK with word | ⟨-, none, -⟩
    · rwa [← word]
    · exact none
  have apartT : p2v t ≠ p2v dir := fun equal => idle.notDir (p2v_inj _ _ bound boundD equal)
  have own' := own_new_table own k t _ aligned bound low apartT idle.noTable
  refine ⟨sound_mem _ loading.sound ?_, loading.dirTaken, ?_, ?_, own'.distinct, ?_, loading.separate⟩
  · exact fun x inHeap => same x (fun inDir => (outside x inDir).2 inHeap)
  · exact fun x reserved fixed =>
      (same x (fun inDir => (outside x inDir).1 reserved)).trans (loading.reserved x reserved fixed)
  · intro k' smallK'
    by_cases slot : k' = k
    · subst slot
      exact .inr ⟨opened, kernelAbsent, t, member, idle.notDir, idle.unmapped, flag, user, here⟩
    · rw [other k' slot]
      exact loading.slots k' smallK'
  · intro page m found
    obtain ⟨inside, mapped, userM, memberM, notDir, bytes⟩ := loading.mapped page m found
    obtain ⟨alignedM, boundM, -⟩ := taken_page lawful setting loading.sound m.frame memberM
    refine ⟨inside, ?_, userM, memberM, notDir, ?_⟩
    · have notHere : page / 1024 ≠ k := by
        intro slot
        rw [translate_absent _ _ _ (slot ▸ absent)] at mapped
        cases mapped
      simp only
      rw [translate_new_table alignedPd own k t _ page smallK aligned bound low present small apartT inside,
        if_neg notHere, mapped]
    · intro off inPage
      simp only
      rw [same _ (frames_apart m.frame dir _ alignedM alignedD boundM boundD notDir ⟨by omega, by omega⟩)]
      exact bytes off inPage

theorem loading_enter (loading : Loading setting live foreign dir taken image pages big h) (f page flag : Nat)
    (member : f ∈ taken) (idle : Idle dir image h f) (inside : page < 2 ^ 20) (opened : setting.Open (page / 1024))
    (user : UserFlags flag) (small : Small h.mem (p2v dir) (page / 1024)) :
    Loading setting live foreign dir taken
      (update image page (some ⟨f, flag, fun off => h.mem (p2v f + off)⟩)) pages big
      { h with
        mem := h.mem.writeWord (p2v (frameOf h.mem (p2v dir) (page / 1024)) + 4 * (page % 1024)) (f ||| flag) } := by
  obtain ⟨aligned, bound, -⟩ := taken_page lawful setting loading.sound f member
  obtain ⟨alignedD, boundD, -⟩ := taken_page lawful setting loading.sound dir loading.dirTaken
  obtain ⟨⟨low, present, -⟩, -⟩ := user_flags flag user
  have own := loading_own lawful loading
  have alignedPd := p2v_aligned dir alignedD
  have smallK : page / 1024 < 1024 := by omega
  have smallJ : page % 1024 < 1024 := Nat.mod_lt _ (by decide)
  have value := entry_bound f flag aligned bound low
  have table := loading_table lawful loading (page / 1024) smallK small
  have word (k : Nat) (smallK' : k < 1024) :=
    dir_write_table alignedPd own (page / 1024) (page % 1024) (f ||| flag) k smallK smallJ small smallK'
  have same (x : Nat) (outside : ¬ InPage (p2v (frameOf h.mem (p2v dir) (page / 1024))) x) :=
    write_frame h.mem _ (page % 1024) (f ||| flag) x smallJ outside
  have tableOut (x : Nat) (inTable : InPage (p2v (frameOf h.mem (p2v dir) (page / 1024))) x) :
      (setting.Reserved x → setting.Writable x) ∧ ¬ Heap.InPages pages x := by
    rcases table with ⟨equal, kernel⟩ | ⟨-, -, inTaken, -⟩
    · rw [equal] at inTable
      have writable := setting.openSlots _ smallK opened kernel.1 x inTable
      exact ⟨fun _ => writable, reserved_not_heap setting loading.sound x (setting.within x writable)⟩
    · obtain ⟨notReserved, notHeap⟩ := (taken_page lawful setting loading.sound _ inTaken).2.2 x inTable
      exact ⟨fun reserved => absurd reserved notReserved, notHeap⟩
  have frameKept (g off : Nat) (inTaken : g ∈ taken) (notTable : frameOf h.mem (p2v dir) (page / 1024) ≠ g)
      (inPage : off < 0x1000) :
      h.mem.writeWord (p2v (frameOf h.mem (p2v dir) (page / 1024)) + 4 * (page % 1024)) (f ||| flag) (p2v g + off) =
        h.mem (p2v g + off) := by
    obtain ⟨alignedG, boundG, -⟩ := taken_page lawful setting loading.sound g inTaken
    exact same _ (frames_apart g _ _ alignedG (frame_of_page _ _ _).1 boundG (frame_of_page _ _ _).2 (Ne.symm notTable)
      ⟨by omega, by omega⟩)
  refine ⟨sound_mem _ loading.sound ?_, loading.dirTaken, ?_, ?_, (own_congr _ _ _ own word).distinct, ?_, ?_⟩
  · exact fun x inHeap => same x (fun inTable => (tableOut x inTable).2 inHeap)
  · exact fun x reserved fixed =>
      (same x (fun inTable => fixed ((tableOut x inTable).1 reserved))).trans (loading.reserved x reserved fixed)
  · intro k smallK'
    simp only
    rw [word k smallK']
    refine (loading.slots k smallK').imp_right ?_
    rintro ⟨openK, absent, t, inTaken, notDir, unmapped, flagT, userT, entryT⟩
    refine ⟨openK, absent, t, inTaken, notDir, ?_, flagT, userT, entryT⟩
    intro page' m found
    by_cases here : page' = page
    · rw [here, update_self, Option.some.injEq] at found
      subst found
      obtain ⟨alignedT, boundT, -⟩ := taken_page lawful setting loading.sound t inTaken
      obtain ⟨lowT, presentT, smallT⟩ := table_flags flagT (user_flags flagT userT).1
      have isSmall : Small h.mem (p2v dir) k := by
        rw [Paging.Small, entryT, entry_present _ _ alignedT, entry_large _ _ alignedT]
        exact ⟨presentT, smallT⟩
      have frameT : frameOf h.mem (p2v dir) k = t := by rw [frameOf, entryT, entry_frame t _ alignedT boundT lowT]
      exact fun equal => idle.noTable k smallK' isSmall (frameT.trans equal.symm)
    · rw [update_of_ne here] at found
      exact unmapped page' m found
  · intro page' m found
    by_cases here : page' = page
    · rw [here, update_self, Option.some.injEq] at found
      subst found
      refine ⟨here ▸ inside, ?_, user, member, idle.notDir,
        fun off inPage => frameKept f off member (idle.noTable _ smallK small) inPage⟩
      rw [here]
      simp only
      rw [translate_write_table alignedPd own _ _ _ page smallK smallJ small value inside,
        if_pos (Nat.div_add_mod page 1024).symm, entry_leaf f flag aligned bound low present]
    · rw [update_of_ne here] at found
      obtain ⟨inside', mapped, userM, memberM, notDir, bytes⟩ := loading.mapped page' m found
      refine ⟨inside', ?_, userM, memberM, notDir, ?_⟩
      · simp only
        rw [translate_write_table alignedPd own _ _ _ page' smallK smallJ small value inside',
          if_neg (by rw [Nat.div_add_mod]; exact here), mapped]
      · intro off inPage
        refine (frameKept m.frame off memberM ?_ inPage).trans (bytes off inPage)
        rcases table with ⟨equal, kernel⟩ | ⟨-, -, -, -, unmapped⟩
        · rw [equal]
          exact taken_not_table lawful loading m.frame _ memberM smallK kernel
        · exact Ne.symm (unmapped page' m found)
  · intro page1 page2 m1 m2 found1 found2 equal
    by_cases here1 : page1 = page
    · by_cases here2 : page2 = page
      · rw [here1, here2]
      · rw [here1, update_self, Option.some.injEq] at found1
        rw [update_of_ne here2] at found2
        subst found1
        exact absurd equal.symm (idle.unmapped page2 m2 found2)
    · rw [update_of_ne here1] at found1
      by_cases here2 : page2 = page
      · rw [here2, update_self, Option.some.injEq] at found2
        subst found2
        exact absurd equal (idle.unmapped page1 m1 found1)
      · rw [update_of_ne here2] at found2
        exact loading.separate page1 page2 m1 m2 found1 found2 equal

-- What a single-page `map_range` does to the image: nothing for a page of a 4 MiB slot.
def Entered (setting : Setting Live) (image image' : Nat → Option Mapping) (page f flag : Nat) (mem : Mem) : Prop :=
  (setting.Large page ∧ image' = image) ∨
    (¬ setting.Large page ∧ ∃ m : Mapping, image' = update image page (some m) ∧ m.frame = f ∧ m.flag = flag ∧
      ∀ off, off < 0x1000 → m.bytes off = mem (p2v f + off))

theorem loading_map (loading : Loading setting live foreign dir taken image pages big h) (f vaddr flag : Nat)
    (member : f ∈ taken) (idle : Idle dir image h f) (bound : vaddr < 2 ^ 32)
    (opened : setting.Open (vaddr / 0x1000 / 1024)) (user : UserFlags flag) (h' : Heap.State σ)
    (done : mapRange A (p2v dir) f vaddr 1 flag h = .ok h') :
    ∃ taken' image', Loading setting live foreign dir taken' image' pages big h' ∧ taken ⊆ taken' ∧
      Entered setting image image' (vaddr / 0x1000) f flag h.mem := by
  have smallK : vaddr / 0x1000 / 1024 < 1024 := by omega
  rw [map_one A _ _ _ _ _ bound] at done
  by_cases present : isPresent (entry h.mem (p2v dir) (vaddr / 0x1000 / 1024)) = true
  · rw [if_pos present, Except.ok.injEq] at done
    subst done
    by_cases large : setting.Large (vaddr / 0x1000)
    · have word :
          entry h.mem (p2v dir) (vaddr / 0x1000 / 1024) = entry setting.mem setting.kpd (vaddr / 0x1000 / 1024) := by
        rcases loading.slots _ smallK with word | ⟨-, absent, -⟩
        · exact word
        · exact absurd (large.1.symm.trans absent) (by decide)
      refine ⟨taken, image, ?_, List.Subset.refl _, .inl ⟨large, rfl⟩⟩
      apply loading_large lawful loading _ smallK opened large.1 large.2
      intro x outside
      apply write_frame _ _ _ _ _ (Nat.mod_lt _ (by decide))
      rwa [frameOf, word]
    · have small : Small h.mem (p2v dir) (vaddr / 0x1000 / 1024) := by
        refine ⟨present, ?_⟩
        rcases loading.slots _ smallK with word | ⟨-, -, t, inTaken, -, -, flagT, userT, word⟩
        · by_contra isLargeHere
          rw [word] at present isLargeHere
          exact large ⟨present, by simpa using isLargeHere⟩
        · rw [word, entry_large _ _ (taken_page lawful setting loading.sound t inTaken).1]
          exact (table_flags flagT (user_flags flagT userT).1).2.2
      refine ⟨taken, _, loading_enter lawful loading f _ flag member idle (by omega) opened user small,
        List.Subset.refl _, .inr ⟨large, ?_⟩⟩
      exact ⟨_, rfl, rfl, rfl, fun _ _ => rfl⟩
  · rw [if_neg present] at done
    cases alloc : A.alloc 0 h.pages with
    | error e =>
        rw [alloc] at done
        cases done
    | ok result =>
        obtain ⟨t, s'⟩ := result
        rw [alloc, Except.ok.injEq] at done
        subst done
        have absent : isPresent (entry h.mem (p2v dir) (vaddr / 0x1000 / 1024)) = false := by simpa using present
        have other : f ≠ t := fun same => taken_fresh lawful s' t loading.sound alloc (same ▸ member)
        obtain ⟨took, idleT⟩ := loading_take lawful loading s' t alloc
        obtain ⟨aligned, boundT, -⟩ := taken_page lawful setting took.sound t List.mem_cons_self
        obtain ⟨low, presentT, smallT⟩ := table_flags flag (user_flags flag user).1
        have tabled := loading_new_table lawful took t _ flag List.mem_cons_self idleT smallK opened user absent
        have word := entry_here h.mem (p2v dir) (vaddr / 0x1000 / 1024) _ (entry_bound t _ aligned boundT low)
        have frame : frameOf (h.mem.writeWord (p2v dir + 4 * (vaddr / 0x1000 / 1024))
            (t ||| (pagePresent ||| pageRw ||| flag))) (p2v dir) (vaddr / 0x1000 / 1024) = t := by
          rw [frameOf, word, entry_frame t _ aligned boundT low]
        have small : Small (h.mem.writeWord (p2v dir + 4 * (vaddr / 0x1000 / 1024))
            (t ||| (pagePresent ||| pageRw ||| flag))) (p2v dir) (vaddr / 0x1000 / 1024) := by
          rw [Paging.Small, word, entry_present _ _ aligned, entry_large _ _ aligned]
          exact ⟨presentT, smallT⟩
        have idleF : Idle dir image { { h with pages := s' } with
            mem := h.mem.writeWord (p2v dir + 4 * (vaddr / 0x1000 / 1024)) (t ||| (pagePresent ||| pageRw ||| flag)) }
              f := by
          refine ⟨idle.notDir, ?_, idle.unmapped⟩
          intro k small' isSmall same
          by_cases slot : k = vaddr / 0x1000 / 1024
          · rw [slot, frame] at same
            exact other same.symm
          · have kept := entry_other h.mem (p2v dir) _ k (t ||| (pagePresent ||| pageRw ||| flag)) (Ne.symm slot)
            exact idle.noTable k small' ((small_congr _ _ _ _ kept).mp isSmall)
              ((frame_of_congr _ _ _ _ kept).symm.trans same)
        have entered := loading_enter lawful tabled f (vaddr / 0x1000) flag (List.mem_cons_of_mem _ member) idleF
          (by omega) opened user small
        refine ⟨t :: taken, _, entered, List.subset_cons_self _ _, .inr ⟨?_, _, rfl, rfl, rfl, ?_⟩⟩
        · rintro ⟨kernelPresent, -⟩
          rcases loading.slots _ smallK with same | ⟨-, none, -⟩
          · rw [same] at absent
            exact absurd (kernelPresent.symm.trans absent) (by decide)
          · exact absurd (kernelPresent.symm.trans none) (by decide)
        · intro off inPage
          obtain ⟨alignedF, boundF, -⟩ := taken_page lawful setting loading.sound f member
          obtain ⟨alignedD, boundD, -⟩ := taken_page lawful setting loading.sound dir loading.dirTaken
          exact write_frame _ _ _ _ _ smallK
            (frames_apart f dir _ alignedF alignedD boundF boundD idle.notDir ⟨by omega, by omega⟩)

end Steps

end X86OS.Process
