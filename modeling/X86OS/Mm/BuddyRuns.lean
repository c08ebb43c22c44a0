import X86OS.Mm.BuddyInit
import Mathlib.Logic.Relation

set_option autoImplicit false

namespace X86OS.Buddy

open Function Dll Tiling Relation

-- The allocator together with the blocks its callers hold, as (address, order).
structure Config where
  state : State
  live : List (Nat × Nat)

inductive Step : Config → Config → Prop
  | alloc (s s' : State) (live : List (Nat × Nat)) (order addr : Nat) (small : order ≤ maxBuddyOrder)
      (done : buddyAllocPages order s = .ok (addr, s')) : Step ⟨s, live⟩ ⟨s', (addr, order) :: live⟩
  | free (s : State) (front back : List (Nat × Nat)) (addr order : Nat) :
      Step ⟨s, front ++ (addr, order) :: back⟩ ⟨buddyFreePages addr s, front ++ back⟩

def boot (memoryMap : MemoryMap) (slack : Nat → Page) (bump : Bump) : Config := ⟨(initBuddy memoryMap slack bump).1, []⟩

-- The allocator keeps its invariant, and its used blocks are the live ones.
structure Owned (sys : Config) (region : Nat → Prop) (tile : TileMap Kind) (total : Nat) : Prop where
  inv : Inv sys.state region tile total
  nodup : sys.live.Nodup
  used : ∀ addr k, (addr, k) ∈ sys.live ↔ ∃ i, addr = pageMapReal i ∧ tile i = some ⟨k, .used⟩

theorem page_map_real_inj (i j : Nat) (same : pageMapReal i = pageMapReal j) : i = j := by
  simp only [pageMapReal] at same
  omega

theorem live_head (sys : Config) (region : Nat → Prop) (tile : TileMap Kind) (total i k : Nat)
    (owned : Owned sys region tile total) : (pageMapReal i, k) ∈ sys.live ↔ tile i = some ⟨k, .used⟩ := by
  rw [owned.used]
  constructor
  · rintro ⟨j, same, used⟩
    rw [page_map_real_inj i j same]
    exact used
  · exact fun used => ⟨i, rfl, used⟩

theorem step_owned (sys sys' : Config) (region : Nat → Prop) (tile : TileMap Kind) (total : Nat)
    (owned : Owned sys region tile total) (step : Step sys sys') :
    ∃ tile', Owned sys' region tile' total ∧ sys'.state.pageN = sys.state.pageN := by
  cases step with
  | alloc s s' live order addr small done =>
      obtain ⟨top, tile', rfl, inv, sameN, -, used, covered⟩ :=
        buddy_alloc_spec s s' region tile total order addr owned.inv done
      refine ⟨tile', ⟨inv, ?_, ?_⟩, sameN⟩
      · refine List.nodup_cons.mpr ⟨?_, owned.nodup⟩
        intro member
        have old := (live_head _ region tile total top order owned).mp member
        obtain ⟨i, k, free, low, high⟩ := covered top (Nat.le_refl top) (by have := Nat.two_pow_pos order; omega)
        have same := tiles_unique owned.inv.rep.tiles top i top _ _ old free (Nat.le_refl top)
          (by have := Nat.two_pow_pos order; simp only; omega) low high
        rw [← same, old] at free
        cases free
      · intro a k
        rw [List.mem_cons, owned.used]
        constructor
        · rintro (new | ⟨i, rfl, old⟩)
          · cases new
            exact ⟨top, rfl, (used top order).mpr (.inl ⟨rfl, rfl⟩)⟩
          · exact ⟨i, rfl, (used i k).mpr (.inr old)⟩
        · rintro ⟨i, rfl, found⟩
          rcases (used i k).mp found with ⟨rfl, rfl⟩ | old
          · exact .inl rfl
          · exact .inr ⟨i, rfl, old⟩
  | free s front back addr order =>
      have member : (addr, order) ∈ front ++ (addr, order) :: back := by simp
      obtain ⟨index, rfl, usedHead⟩ := (owned.used addr order).mp member
      obtain ⟨tile', inv, sameN, used⟩ := buddy_free_spec s region tile total index order owned.inv usedHead
      have nodup := owned.nodup
      have gone : (pageMapReal index, order) ∉ front ++ back := (List.nodup_middle.mp nodup |> List.nodup_cons.mp).1
      refine ⟨tile', ⟨inv, (List.nodup_middle.mp nodup |> List.nodup_cons.mp).2, ?_⟩, sameN⟩
      intro a k
      have kept : (a, k) ∈ front ++ back ↔
          (a, k) ≠ (pageMapReal index, order) ∧ (a, k) ∈ front ++ (pageMapReal index, order) :: back := by
        by_cases same : (a, k) = (pageMapReal index, order)
        · simp only [same, gone, ne_eq, not_true, false_and]
        · simp [same]
      rw [kept, owned.used]
      constructor
      · rintro ⟨other, i, rfl, old⟩
        refine ⟨i, rfl, (used i k).mpr ⟨?_, old⟩⟩
        rintro rfl
        rw [usedHead] at old
        cases old
        exact other rfl
      · rintro ⟨i, rfl, found⟩
        obtain ⟨other, old⟩ := (used i k).mp found
        exact ⟨fun same => other (page_map_real_inj i index (congrArg Prod.fst same)), i, rfl, old⟩

theorem run_owned (sys sys' : Config) (region : Nat → Prop) (tile : TileMap Kind) (total : Nat)
    (owned : Owned sys region tile total) (run : ReflTransGen Step sys sys') :
    ∃ tile', Owned sys' region tile' total ∧ sys'.state.pageN = sys.state.pageN := by
  induction run with
  | refl => exact ⟨tile, owned, rfl⟩
  | tail _ step ih =>
      obtain ⟨middle, ownedMiddle, sameN⟩ := ih
      obtain ⟨tile', ownedEnd, sameEnd⟩ := step_owned _ _ region middle total ownedMiddle step
      exact ⟨tile', ownedEnd, sameEnd.trans sameN⟩

theorem boot_owned (memoryMap : MemoryMap) (slack : Nat → Page) (bump : Bump) (bootable : Bootable memoryMap slack) :
    ∃ tile total,
      Owned (boot memoryMap slack bump) (Managed memoryMap (initBuddy memoryMap slack bump).2) tile total := by
  obtain ⟨tile, total, inv, unused⟩ := init_buddy_inv memoryMap slack bump bootable
  refine ⟨tile, total, inv, List.nodup_nil, ?_⟩
  intro addr k
  constructor
  · exact fun member => absurd member List.not_mem_nil
  · rintro ⟨i, -, used⟩
    exact absurd used (unused i k)

-- A block as the page map shows it.
def IsBlock (s : State) (h : Nat) : Prop :=
  h + 2 ^ (s.pageMap h).order ≤ s.pageN ∧ ((s.pageMap h).flags = .free ∨ (s.pageMap h).flags = .used) ∧
    2 ^ (s.pageMap h).order ∣ h ∧ ∀ p, h < p → p < h + 2 ^ (s.pageMap h).order → (s.pageMap p).flags = .tail

def InBlock (s : State) (h p : Nat) : Prop := IsBlock s h ∧ h ≤ p ∧ p < h + 2 ^ (s.pageMap h).order

-- The pages in all blocks whose head carries the flag.
def blockPages (s : State) (flag : PageFlag) : Nat :=
  ∑ h ∈ Finset.range s.pageN, if (s.pageMap h).flags = flag then 2 ^ (s.pageMap h).order else 0

section Reading

variable {s : State} {region : Nat → Prop} {tile : TileMap Kind} {total : Nat} (inv : Inv s region tile total)

include inv

theorem head_iff (h k : Nat) (kind : Kind) (settled : kind ≠ .hand) :
    tile h = some ⟨k, kind⟩ ↔ h < s.pageN ∧ (s.pageMap h).flags = kind.flag ∧ (s.pageMap h).order = k := by
  constructor
  · exact rep_head_page s region tile inv.rep h k kind settled
  · rintro ⟨inside, flags, order⟩
    rw [rep_page_head s region tile inv.rep h kind settled inside (inv.quiet h) flags, order]

theorem head_settled (h : Nat) (b : Block Kind) (head : tile h = some b) : b.kind ≠ .hand := by
  rintro hand
  exact inv.quiet h b.order (by rw [head, ← hand])

theorem kernel_iff (p : Nat) (inside : p < s.pageN) : (s.pageMap p).flags ≠ .kernel ↔ region p := by
  have page := inv.rep.pages p inside
  cases found : tile p with
  | none =>
      rw [found] at page
      by_cases managed : region p
      · simp [managed, page.1 managed]
      · simp [managed, page.2 managed]
  | some b =>
      have size := Nat.two_pow_pos b.order
      have managed := inv.rep.tiles.inside p b found p (Nat.le_refl p) (by omega)
      have flags := ((head_iff inv p b.order b.kind (head_settled inv p b found)).mp found).2.1
      have notKernel : b.kind.flag ≠ .kernel := by cases b.kind <;> simp [Kind.flag]
      simp [managed, flags, notKernel]

theorem head_order (h : Nat) (b : Block Kind) (head : tile h = some b) : b.order = (s.pageMap h).order :=
  ((head_iff inv h b.order b.kind (head_settled inv h b head)).mp head).2.2.symm

theorem is_block_iff (h : Nat) : IsBlock s h ↔ ∃ b, tile h = some b ∧ b.order = (s.pageMap h).order := by
  have positive := Nat.two_pow_pos (s.pageMap h).order
  constructor
  · rintro ⟨bound, free | used, -⟩
    · exact ⟨_, (head_iff inv h _ .free (by decide)).mpr ⟨by omega, free, rfl⟩, rfl⟩
    · exact ⟨_, (head_iff inv h _ .used (by decide)).mpr ⟨by omega, used, rfl⟩, rfl⟩
  · rintro ⟨b, head, order⟩
    have bound := rep_head_in_map s region tile inv.rep h b head
    have settled := head_settled inv h b head
    have flags := ((head_iff inv h b.order b.kind settled).mp head).2.1
    rw [IsBlock, ← order]
    refine ⟨bound, ?_, inv.rep.tiles.aligned h b head, ?_⟩
    · rw [flags]
      cases kind : b.kind with
      | free => exact .inl rfl
      | used => exact .inr rfl
      | hand => exact absurd kind settled
    · intro p low high
      have page := inv.rep.pages p (by omega)
      rw [inv.rep.tiles.hollow h b head p low high] at page
      exact page.1 (inv.rep.tiles.inside h b head p (by omega) high)

theorem in_block_iff (h p : Nat) : InBlock s h p ↔ ∃ b, tile h = some b ∧ h ≤ p ∧ p < h + 2 ^ b.order := by
  constructor
  · rintro ⟨block, low, high⟩
    obtain ⟨b, head, order⟩ := (is_block_iff inv h).mp block
    exact ⟨b, head, low, order ▸ high⟩
  · rintro ⟨b, head, low, high⟩
    have order := head_order inv h b head
    exact ⟨(is_block_iff inv h).mpr ⟨b, head, order⟩, low, order ▸ high⟩

theorem one_block (p : Nat) (managed : region p) : ∃! h, InBlock s h p := by
  obtain ⟨h, b, head, low, high⟩ := inv.rep.tiles.cover p managed
  refine ⟨h, (in_block_iff inv h p).mpr ⟨b, head, low, high⟩, ?_⟩
  intro h' block
  obtain ⟨c, head', low', high'⟩ := (in_block_iff inv h' p).mp block
  exact tiles_unique inv.rep.tiles h' h p c b head' head low' high' low high

theorem block_pages_eq (kind : Kind) (settled : kind ≠ .hand) : blockPages s kind.flag = pagesOf s.pageN kind tile := by
  apply Finset.sum_congr rfl
  intro h inside
  rw [Finset.mem_range] at inside
  by_cases flags : (s.pageMap h).flags = kind.flag
  · rw [if_pos flags, (head_iff inv h _ kind settled).mpr ⟨inside, flags, rfl⟩, weight, if_pos rfl]
  · rw [if_neg flags]
    cases found : tile h with
    | none => rfl
    | some b =>
        rw [weight, if_neg]
        rintro rfl
        exact flags ((head_iff inv h b.order b.kind settled).mp found).2.1

end Reading

end X86OS.Buddy
