import X86OS.Mm.HeapKfree
import Mathlib.Logic.Relation

set_option autoImplicit false

namespace X86OS.Heap

open Function Dll Mem Relation

variable {σ : Type}

-- The heap, the allocations its clients hold as (pointer, requested size), and the page
-- blocks others hold directly from the page allocator, as (address, order).
structure Config (σ : Type) where
  heap : State σ
  live : List (Nat × Nat)
  foreign : List (Nat × Nat)

def writeByte (h : State σ) (x : Nat) (v : UInt8) : State σ := { h with mem := h.mem.writeByte x v }

-- Clients write inside the bytes they asked for, holders of page blocks inside their blocks.
inductive Step (A : PageAllocator σ) : Config σ → Config σ → Prop
  | kmalloc (h h' : State σ) (live foreign : List (Nat × Nat)) (size ptr : Nat)
      (done : kmalloc A size h = .ok (some ptr, h')) : Step A ⟨h, live, foreign⟩ ⟨h', (ptr, size) :: live, foreign⟩
  | kmallocNull (h h' : State σ) (live foreign : List (Nat × Nat)) (size : Nat)
      (done : kmalloc A size h = .ok (none, h')) : Step A ⟨h, live, foreign⟩ ⟨h', live, foreign⟩
  | kfree (h h' : State σ) (front back foreign : List (Nat × Nat)) (ptr size : Nat)
      (done : kfree A ptr h = .ok h') : Step A ⟨h, front ++ (ptr, size) :: back, foreign⟩ ⟨h', front ++ back, foreign⟩
  | write (h : State σ) (live foreign : List (Nat × Nat)) (ptr size x : Nat) (v : UInt8) (member : (ptr, size) ∈ live)
      (low : ptr ≤ x) (high : x < ptr + size) : Step A ⟨h, live, foreign⟩ ⟨writeByte h x v, live, foreign⟩
  | pageAlloc (h : State σ) (s' : σ) (live foreign : List (Nat × Nat)) (order addr : Nat)
      (done : A.alloc order h.pages = .ok (addr, s')) :
      Step A ⟨h, live, foreign⟩ ⟨{ h with pages := s' }, live, (addr, order) :: foreign⟩
  | pageFree (h : State σ) (live front back : List (Nat × Nat)) (order addr : Nat) :
      Step A ⟨h, live, front ++ (addr, order) :: back⟩ ⟨{ h with pages := A.free addr h.pages }, live, front ++ back⟩
  | pageWrite (h : State σ) (live foreign : List (Nat × Nat)) (order addr x : Nat) (v : UInt8)
      (member : (addr, order) ∈ foreign) (low : p2v addr ≤ x) (high : x < p2v addr + 0x1000 * 2 ^ order) :
      Step A ⟨h, live, foreign⟩ ⟨writeByte h x v, live, foreign⟩

-- Where an allocation lives: a used chunk of the heap pages, or a block of its own.
def Backed (pages : List HeapPage) (big : List (Nat × Nat)) (alloc : Nat × Nat) : Prop :=
  (alloc.2 < 0x1000 ∧ ∃ c ∈ chunks pages, c.status = .used ∧ alloc.1 = c.addr + headerSize ∧ alloc.2 ≤ c.size) ∨
    (0x1000 ≤ alloc.2 ∧ ∃ addr k, (addr, k) ∈ big ∧ alloc.1 = p2v addr ∧ alloc.2 ≤ 0x1000 * 2 ^ k)

structure Sound (Live : σ → List (Nat × Nat) → Prop) (config : Config σ) (pages : List HeapPage)
    (big : List (Nat × Nat)) : Prop where
  owned : Owned Live config.heap pages (big ++ config.foreign)
  backed : ∀ alloc ∈ config.live, Backed pages big alloc
  distinct : (config.live.map Prod.fst).Nodup

theorem chunk_not_aligned (pages : List HeapPage) (c : Chunk) (member : c ∈ chunks pages) :
    ¬ 0x1000 ∣ c.addr + headerSize := by
  obtain ⟨p, inPages, inP⟩ := List.mem_flatMap.mp member
  have aligned := p.aligned
  have bounds := laid_bounds _ _ _ p.laid c inP
  simp only [headerSize, sizeofChunk, pageSize, minSize] at *
  omega

theorem chunk_unaligned (pages : List HeapPage) (c : Chunk) (member : c ∈ chunks pages) :
    ¬ isAligned (c.addr + headerSize) pageSize = true := by
  rw [show pageSize = 2 ^ 12 from rfl, is_aligned_iff]
  exact chunk_not_aligned pages c member

section Blocks

variable {A : PageAllocator σ} {Live : σ → List (Nat × Nat) → Prop} (lawful : A.Lawful Live)

include lawful

theorem live_high (s : σ) (live : List (Nat × Nat)) (addr k : Nat) (held : Live s live) (member : (addr, k) ∈ live) :
    p2v addr = addr + kernelVirtualBase ∧ 0x1000 ∣ p2v addr ∧ p2v addr + 0x1000 * 2 ^ k ≤ 2 ^ 32 := by
  obtain ⟨aligned, low⟩ := lawful.inRam s live held (addr, k) member
  have positive := Nat.two_pow_pos k
  simp only at aligned low
  have high : p2v addr = addr + kernelVirtualBase := p2v_low addr (by omega)
  refine ⟨high, ?_, ?_⟩
  · rw [high]
    exact Nat.dvd_add aligned (by decide)
  · simp only [high, kernelVirtualBase]
    omega

theorem block_outside (h : State σ) (pages : List HeapPage) (rest : List (Nat × Nat)) (owned : Owned Live h pages rest)
    (addr k x : Nat) (member : (addr, k) ∈ rest) (low : p2v addr ≤ x) (high : x < p2v addr + 0x1000 * 2 ^ k) :
    ¬ InPages pages x := by
  rintro ⟨p, inPages, lowP, highP⟩
  have inBlocks : pageBlock p ∈ pages.map pageBlock := List.mem_map_of_mem inPages
  have apart := (List.pairwise_append.mp (lawful.apart _ _ owned.owner)).2.2 _ inBlocks _ member
  have place := (live_high lawful _ _ addr k owned.owner (List.mem_append_right _ member)).1
  have highBase := p.high
  have fits := p.fits
  simp only [Apart, pageBlock, v2p, Word.sub, kernelVirtualBase, pageSize] at *
  omega

theorem blocks_apart (s : σ) (live : List (Nat × Nat)) (held : Live s live) (a b k m x : Nat) (memberA : (a, k) ∈ live)
    (memberB : (b, m) ∈ live) (other : p2v a ≠ p2v b) (lowA : p2v a ≤ x) (highA : x < p2v a + 0x1000 * 2 ^ k)
    (lowB : p2v b ≤ x) (highB : x < p2v b + 0x1000 * 2 ^ m) : False := by
  have unequal : (a, k) ≠ (b, m) := fun same => other (by rw [(Prod.mk.inj same).1])
  have apart := (lawful.apart s live held).forall memberA memberB unequal
  have placeA := (live_high lawful s live a k held memberA).1
  have placeB := (live_high lawful s live b m held memberB).1
  simp only [Apart] at apart
  omega

end Blocks

theorem extent_in_pages (pages : List HeapPage) (e : Nat × Nat) (x : Nat) (extent : e ∈ extents pages) (low : e.1 ≤ x)
    (high : x < e.1 + e.2) : InPages pages x := by
  obtain ⟨p, inPages, inP⟩ := List.mem_flatMap.mp extent
  have inside := p.extent_inside e inP
  exact ⟨p, inPages, by omega, by omega⟩

theorem chunk_in_pages (pages : List HeapPage) (c : Chunk) (x : Nat) (member : c ∈ chunks pages) (low : c.addr ≤ x)
    (high : x < c.addr + headerSize + c.size) : InPages pages x :=
  extent_in_pages pages _ x (chunk_extent pages c member) low (by simp only; omega)

theorem meta_in_pages (pages : List HeapPage) (x : Nat) (isMeta : MetaByte pages x) : InPages pages x := by
  rcases isMeta with ⟨a, cell, low, high⟩ | ⟨c, member, -, low, high⟩
  · obtain ⟨n, extent⟩ := (mem_cells pages a).mp cell
    have bounds := extent_bounds pages _ extent
    exact extent_in_pages pages _ x extent low (by simp only [sizeofChunk, headerSize] at *; omega)
  · have least := chunk_least pages c member
    exact chunk_in_pages pages c x member (by omega) (by omega)

theorem owned_write {Live : σ → List (Nat × Nat) → Prop} (h : State σ) (pages : List HeapPage) (rest : List (Nat × Nat))
    (x : Nat) (v : UInt8) (owned : Owned Live h pages rest) (harmless : ¬ MetaByte pages x) :
    Owned Live (writeByte h x v) pages rest := by
  refine ⟨⟨(rep_mem h pages _ owned.toRep ?_).1, owned.noHand, owned.spread⟩, owned.owner, owned.grown⟩
  intro y isMeta
  apply write_byte_frame
  rintro rfl
  exact harmless isMeta

theorem owned_pages {Live : σ → List (Nat × Nat) → Prop} (h : State σ) (pages : List HeapPage)
    (rest rest' : List (Nat × Nat)) (s' : σ) (owned : Owned Live h pages rest)
    (owner : Live s' (pages.map pageBlock ++ rest')) :
    Owned Live { h with pages := s' } pages rest' :=
  ⟨⟨rep_owner h pages s' owned.toRep, owned.noHand, owned.spread⟩, owner, owned.grown⟩

section Runs

variable {A : PageAllocator σ} {Live : σ → List (Nat × Nat) → Prop} (lawful : A.Lawful Live)

include lawful

theorem kfree_block_spec (h : State σ) (pages : List HeapPage) (rest rest' : List (Nat × Nat)) (addr k : Nat)
    (owned : Owned Live h pages rest) (same : rest.Perm ((addr, k) :: rest')) :
    ∃ h', kfree A (p2v addr) h = .ok h' ∧ Owned Live h' pages rest' ∧ h'.mem = h.mem ∧
      counters h' + count (0x1000 * 2 ^ k) 0 0 = counters h := by
  have live : Live h.pages ((addr, k) :: (pages.map pageBlock ++ rest')) := by
    apply lawful.reorder _ _ _ _ owned.owner
    exact (List.Perm.append_left _ same).trans List.perm_middle
  have high := live_high lawful _ _ addr k live (by simp)
  have aligned : isAligned (p2v addr) pageSize = true := (is_aligned_iff (p2v addr) 12).mpr high.2.1
  have low : v2p (p2v addr) = addr := v2p_p2v addr (by have := high.1; simp only [kernelVirtualBase] at this; omega)
  have freed := lawful.freed _ _ _ _ live
  have order := lawful.orderKept _ _ k addr live List.mem_cons_self
  rw [kfree, if_pos aligned]
  simp only [low, order]
  refine ⟨_, rfl, owned_pages _ pages rest rest' _
    ⟨settled_same _ _ pages (sub_used_same _ h) owned.toSettled, owned.owner, owned.grown⟩
    freed, rfl, ?_⟩
  have size : 1 <<< (k + baseShift) = 0x1000 * 2 ^ k := by
    rw [Nat.shiftLeft_eq, Nat.one_mul, pow_add, Nat.mul_comm]
    rfl
  have counted := counters_sub_used (1 <<< (k + baseShift)) h
  rw [size] at counted ⊢
  change counters (subUsed (0x1000 * 2 ^ k) h) + _ = _
  rw [counted]
  abel

theorem kfree_client_spec (h : State σ) (pages : List HeapPage) (rest : List (Nat × Nat)) (c : Chunk)
    (owned : Owned Live h pages rest) (member : c ∈ chunks pages) (used : c.status = .used) :
    ∃ h' pages', kfree A (c.addr + headerSize) h = .ok h' ∧ Released Live h pages rest c h' pages' := by
  have small := (chunk_next h pages owned.toRep c member).2
  rw [kfree, if_neg (chunk_unaligned pages c member), Word.sub_exact _ _ (by omega) (by omega), Nat.add_sub_cancel]
  exact kfree_chunk_spec lawful h pages rest c owned member used

omit lawful in
theorem backed_positive (pages : List HeapPage) (big : List (Nat × Nat)) (alloc : Nat × Nat)
    (backed : Backed pages big alloc) :
    (∃ c ∈ chunks pages, c.status = .used ∧ alloc.1 = c.addr + headerSize) ∨ ∃ addr k, (addr, k) ∈ big ∧
      alloc.1 = p2v addr := by
  rcases backed with ⟨-, c, member, used, place, -⟩ | ⟨-, addr, k, member, place, -⟩
  · exact .inl ⟨c, member, used, place⟩
  · exact .inr ⟨addr, k, member, place⟩

theorem backed_bytes (h : State σ) (pages : List HeapPage) (big foreign : List (Nat × Nat)) (alloc : Nat × Nat)
    (x : Nat) (owned : Owned Live h pages (big ++ foreign)) (backed : Backed pages big alloc) (low : alloc.1 ≤ x)
    (high : x < alloc.1 + alloc.2) : ClientByte pages x ∨ ¬ InPages pages x := by
  rcases backed with ⟨-, c, member, used, place, fits⟩ | ⟨-, addr, k, member, place, fits⟩
  · exact .inl ⟨c, member, used, by omega, by omega⟩
  · exact .inr (block_outside lawful h pages _ owned addr k x (List.mem_append_left _ member) (by omega) (by omega))

omit lawful in
theorem safe_not_meta (pages : List HeapPage) (distinct : (pages.map HeapPage.base).Nodup) (x : Nat)
    (safe : ClientByte pages x ∨ ¬ InPages pages x) : ¬ MetaByte pages x := by
  rcases safe with ⟨c, member, used, low, high⟩ | outside
  · exact data_not_meta pages distinct c x member (by rw [used]; decide) low high
  · exact fun isMeta => outside (meta_in_pages pages x isMeta)

theorem sound_grant (h h' : State σ) (live foreign big : List (Nat × Nat)) (pages pages' : List HeapPage) (size : Nat)
    (c : Chunk) (sound : Sound Live ⟨h, live, foreign⟩ pages big) (small : size < 0x1000)
    (granted : Granted Live size h pages (big ++ foreign) h' pages' c) :
    Sound Live ⟨h', (c.addr + headerSize, size) :: live, foreign⟩ pages' big := by
  have clients := granted.taken.clients
  have here : c ∈ chunks pages' := (clients c granted.taken.used).mpr (.inl rfl)
  refine ⟨granted.owned, ?_, ?_⟩
  · intro alloc member
    rcases List.mem_cons.mp member with rfl | old
    · exact .inl ⟨small, c, here, granted.taken.used, rfl, granted.large⟩
    · rcases sound.backed alloc old with ⟨smallOld, d, inPages, used, place⟩ | inBig
      · exact .inl ⟨smallOld, d, (clients d used).mpr (.inr inPages), used, place⟩
      · exact .inr inBig
  · refine List.nodup_cons.mpr ⟨?_, sound.distinct⟩
    intro present
    obtain ⟨alloc, member, same⟩ := List.mem_map.mp present
    rcases backed_positive _ _ _ (sound.backed alloc member) with ⟨d, inPages, used, place⟩ | ⟨addr, k, inBig, place⟩
    · have equal := chunk_unique pages' granted.owned.distinct d c ((clients d used).mpr (.inr inPages)) here (by omega)
      exact granted.taken.fresh (equal ▸ inPages)
    · have aligned := (live_high lawful _ _ addr k sound.owned.owner (by simp [inBig])).2.1
      rw [← place, same] at aligned
      exact chunk_not_aligned pages' c here aligned

theorem sound_grant_block (h h' : State σ) (live foreign big : List (Nat × Nat)) (pages : List HeapPage)
    (size addr k : Nat) (sound : Sound Live ⟨h, live, foreign⟩ pages big) (large : 0x1000 ≤ size)
    (covered : size ≤ 0x1000 * 2 ^ k) (owned : Owned Live h' pages ((addr, k) :: (big ++ foreign))) :
    Sound Live ⟨h', (p2v addr, size) :: live, foreign⟩ pages ((addr, k) :: big) := by
  refine ⟨owned, ?_, ?_⟩
  · intro alloc member
    rcases List.mem_cons.mp member with rfl | old
    · exact .inr ⟨large, addr, k, by simp, rfl, covered⟩
    · exact (sound.backed alloc old).imp_right
        (fun ⟨largeOld, a, m, inBig, place⟩ => ⟨largeOld, a, m, List.mem_cons_of_mem _ inBig, place⟩)
  · refine List.nodup_cons.mpr ⟨?_, sound.distinct⟩
    intro present
    obtain ⟨alloc, member, same⟩ := List.mem_map.mp present
    have placeNew := live_high lawful _ _ addr k owned.owner (by simp)
    rcases backed_positive _ _ _ (sound.backed alloc member) with ⟨d, inPages, -, place⟩ | ⟨a, m, inBig, place⟩
    · exact chunk_not_aligned pages d inPages (place ▸ same ▸ placeNew.2.1)
    · have placeOld := live_high lawful _ _ a m owned.owner (by simp [inBig])
      have apart := List.rel_of_pairwise_cons (List.pairwise_append.mp (lawful.apart _ _ owned.owner)).2.1
        (List.mem_append_left foreign inBig)
      have positive := Nat.two_pow_pos k
      have positive' := Nat.two_pow_pos m
      simp only [Apart] at apart
      omega

omit lawful in
theorem sound_release (h h' : State σ) (front back foreign big : List (Nat × Nat)) (pages pages' : List HeapPage)
    (ptr size : Nat) (c : Chunk) (sound : Sound Live ⟨h, front ++ (ptr, size) :: back, foreign⟩ pages big)
    (place : ptr = c.addr + headerSize) (released : Released Live h pages (big ++ foreign) c h' pages') :
    Sound Live ⟨h', front ++ back, foreign⟩ pages' big := by
  have distinct := sound.distinct
  simp only [List.map_append, List.map_cons, List.nodup_middle, List.nodup_cons] at distinct
  refine ⟨released.owned, ?_, by simpa using distinct.2⟩
  intro alloc member
  rcases sound.backed alloc (by simp only [List.mem_append, List.mem_cons] at member ⊢; tauto) with
    ⟨small, d, inPages, used, placeD, fits⟩ | inBig
  · refine .inl ⟨small, d, (released.clients d used).mpr ⟨inPages, ?_⟩, used, placeD, fits⟩
    rintro rfl
    apply distinct.1
    rw [← List.map_append]
    exact List.mem_map.mpr ⟨alloc, member, by omega⟩
  · exact .inr inBig

omit lawful in
theorem sound_release_block (h h' : State σ) (front back foreign big : List (Nat × Nat)) (pages : List HeapPage)
    (ptr size addr k : Nat) (sound : Sound Live ⟨h, front ++ (ptr, size) :: back, foreign⟩ pages big)
    (place : ptr = p2v addr) (owned : Owned Live h' pages (big.erase (addr, k) ++ foreign)) :
    Sound Live ⟨h', front ++ back, foreign⟩ pages (big.erase (addr, k)) := by
  have distinct := sound.distinct
  simp only [List.map_append, List.map_cons, List.nodup_middle, List.nodup_cons] at distinct
  refine ⟨owned, ?_, by simpa using distinct.2⟩
  intro alloc member
  rcases sound.backed alloc (by simp only [List.mem_append, List.mem_cons] at member ⊢; tauto) with
    chunk | ⟨large, a, m, inBig, placeA, fits⟩
  · exact .inl chunk
  · refine .inr ⟨large, a, m, (List.mem_erase_of_ne ?_).mpr inBig, placeA, fits⟩
    intro same
    apply distinct.1
    rw [← List.map_append]
    exact List.mem_map.mpr ⟨alloc, member, by rw [placeA, place, (Prod.mk.inj same).1]⟩

theorem kfree_live_spec (h : State σ) (front back foreign big : List (Nat × Nat)) (pages : List HeapPage)
    (ptr size : Nat) (sound : Sound Live ⟨h, front ++ (ptr, size) :: back, foreign⟩ pages big) :
    ∃ h' pages' big', kfree A ptr h = .ok h' ∧ Sound Live ⟨h', front ++ back, foreign⟩ pages' big' ∧
      ∀ x, ClientByte pages' x ∨ ¬ InPages pages x → h'.mem x = h.mem x := by
  rcases sound.backed (ptr, size) (by simp) with ⟨-, c, inPages, used, place, -⟩ | ⟨-, addr, k, inBig, place, -⟩
  · obtain ⟨h', pages', result, released⟩ := kfree_client_spec lawful h pages _ c sound.owned inPages used
    simp only at place
    exact ⟨h', pages', big, place ▸ result,
      sound_release h h' front back foreign big pages pages' ptr size c sound place released,
      released.frame⟩
  · have same : (big ++ foreign).Perm ((addr, k) :: (big.erase (addr, k) ++ foreign)) :=
      List.Perm.append_right foreign (List.perm_cons_erase inBig)
    obtain ⟨h', result, owned, mem, -⟩ := kfree_block_spec lawful h pages _ _ addr k sound.owned same
    simp only at place
    exact ⟨h', pages, _, place ▸ result,
      sound_release_block h h' front back foreign big pages ptr size addr k sound place owned,
      fun x _ => congrFun mem x⟩

theorem step_sound (config config' : Config σ) (pages : List HeapPage) (big : List (Nat × Nat))
    (sound : Sound Live config pages big) (step : Step A config config') :
    ∃ pages' big', Sound Live config' pages' big' := by
  cases step with
  | kmalloc h h' live foreign size ptr done =>
      rcases kmalloc_spec lawful h pages _ size sound.owned with ⟨-, null⟩ | ⟨e, -, failed⟩ | ⟨small, pages', c, h1,
        result, granted⟩ |
        ⟨large, addr, k, h1, result, covered, owned, -⟩
      · cases null.symm.trans done
      · cases failed.symm.trans done
      · cases result.symm.trans done
        exact ⟨pages', big, sound_grant lawful h _ live foreign big pages pages' size c sound small granted⟩
      · cases result.symm.trans done
        exact ⟨pages, _, sound_grant_block lawful h _ live foreign big pages size addr k sound large covered owned⟩
  | kmallocNull h h' live foreign size done =>
      rcases kmalloc_spec lawful h pages _ size sound.owned with ⟨-, null⟩ | ⟨e, -, failed⟩ | ⟨-, pages',
        c, h1, result, -⟩ |
        ⟨-, addr, k, h1, result, -⟩
      · cases null.symm.trans done
        exact ⟨pages, big, sound⟩
      · cases failed.symm.trans done
      · cases result.symm.trans done
      · cases result.symm.trans done
  | kfree h h' front back foreign ptr size done =>
      obtain ⟨h1, pages', big', result, sound', -⟩ :=
        kfree_live_spec lawful h front back foreign big pages ptr size sound
      cases result.symm.trans done
      exact ⟨pages', big', sound'⟩
  | write h live foreign ptr size x v member low high =>
      have safe := backed_bytes lawful h pages big foreign _ x sound.owned (sound.backed _ member) low high
      exact ⟨pages, big,
        owned_write h pages _ x v sound.owned (safe_not_meta pages sound.owned.distinct x safe), sound.backed,
        sound.distinct⟩
  | pageAlloc h s' live foreign order addr done =>
      have live' := lawful.allocated _ _ _ _ _ sound.owned.owner done
      refine ⟨pages, big, owned_pages h pages _ _ s' sound.owned ?_, sound.backed, sound.distinct⟩
      apply lawful.reorder _ _ _ _ live'
      simp only [← List.append_assoc]
      exact List.perm_middle.symm
  | pageFree h live front back order addr =>
      refine ⟨pages, big, owned_pages h pages _ _ _ sound.owned (lawful.freed _ _ order addr ?_),
        sound.backed, sound.distinct⟩
      apply lawful.reorder _ _ _ _ sound.owned.owner
      simp only [← List.append_assoc]
      exact List.perm_middle
  | pageWrite h live foreign order addr x v member low high =>
      have outside := block_outside lawful h pages _ sound.owned addr order x (List.mem_append_right _ member) low high
      exact ⟨pages, big,
        owned_write h pages _ x v sound.owned (fun isMeta => outside (meta_in_pages pages x isMeta)), sound.backed,
        sound.distinct⟩

theorem run_sound (config config' : Config σ) (pages : List HeapPage) (big : List (Nat × Nat))
    (sound : Sound Live config pages big) (run : ReflTransGen (Step A) config config') :
    ∃ pages' big', Sound Live config' pages' big' := by
  induction run with
  | refl => exact ⟨pages, big, sound⟩
  | tail _ step ih =>
      obtain ⟨pages', big', sound'⟩ := ih
      exact step_sound lawful _ _ pages' big' sound' step

end Runs

-- The globals of the heap as the loader leaves them.
structure Blank (h : State σ) : Prop where
  buckets : ∀ i, h.freeBucket i = none
  first : h.first = none
  last : h.last = none

theorem blank_rep (h : State σ) (blank : Blank h) : Rep h [] where
  distinct := List.nodup_nil
  ends := by simp
  flags := by simp [chunks]
  buckets := fun i _ => ⟨[], is_dll_nil _ _, blank.buckets i, by simp [FreeNode, chunks]⟩
  all := is_dll_nil _ _
  first := blank.first
  last := blank.last

section Boot

variable {A : PageAllocator σ} {Live : σ → List (Nat × Nat) → Prop} (lawful : A.Lawful Live)

include lawful

theorem init_kmalloc_sound (h h' : State σ) (foreign : List (Nat × Nat)) (blank : Blank h)
    (owner : Live h.pages foreign) (done : initKmalloc A h = .ok h') : ∃ p, Sound Live ⟨h', [], foreign⟩ [p] [] ∧
      p.chunks = [⟨p.base + sizeofChunk, 4044, .free⟩] ∧ counters h' = counters h + pageWeight p := by
  cases allocated : A.alloc 0 h.pages with
  | error e => simp [initKmalloc, createChunk, allocated] at done
  | ok granted =>
      obtain ⟨addr, s'⟩ := granted
      have live := lawful.allocated _ _ _ _ _ owner allocated
      obtain ⟨aligned, low⟩ := lawful.inRam _ _ live (addr, 0) (by simp)
      simp only [pow_zero, mul_one] at aligned low
      obtain ⟨p, h1, result, base, only, rep, pagesEq, -, counted, -⟩ :=
        create_chunk_spec A h s' [] addr (blank_rep h blank) allocated aligned low (by simp)
      have block : pageBlock p = (addr, 0) := by rw [pageBlock, base, v2p_p2v addr (by omega)]
      simp only [initKmalloc, result, Except.ok.injEq] at done
      subst done
      have cellsEq : cells [p] = [p.base, p.base + sizeofChunk, p.last] := by simp [cells, HeapPage.cells, only]
      have all := rep.all
      rw [List.nil_append, cellsEq] at all
      have nextF := (is_dll_links _ _ [] _ _ all).2
      have nextM := (is_dll_links _ _ [p.base] _ _ all).2
      have lastEq : (links.next h1 (p2v addr)).bind (links.next h1) = h1.last := by
        rw [rep.last, List.nil_append, cellsEq, ← base, nextF]
        exact nextM
      have firstEq : some (p2v addr) = h1.first := by
        rw [rep.first, List.nil_append, cellsEq, ← base]
        rfl
      refine ⟨p,
        ⟨⟨⟨rep_congr h1 _ [p] rfl rfl firstEq lastEq rep, ?_, ?_⟩, ?_, by simp⟩, by simp, by simp⟩, only, counted⟩
      · intro c member
        obtain rfl : c = _ := by simpa [chunks, only] using member
        simp
      · intro q member
        rw [List.mem_singleton.mp member, only]
        exact List.isChain_singleton _
      · change Live h1.pages _
        rw [pagesEq, List.map_singleton, block]
        exact live

end Boot

end X86OS.Heap
