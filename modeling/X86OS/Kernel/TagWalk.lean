import X86OS.Kernel.Kmain
import X86OS.Lib.Orbit

set_option autoImplicit false

namespace X86OS.Kernel

open Relation Orbit

-- One iteration of kmain's loop, from a tag header it examines to the next one.
def nextTag (mem : Mem) (stop current : Nat) : Option Nat :=
  if tagType mem current = 0 ∧ tagSize mem current = 8 then none
  else
    let next := Word.add current (alignUp (tagSize mem current) 8)
    if next < stop then some next else none

-- The tag header that iteration `k` examines.
def examined (mem : Mem) (mbi k : Nat) : Option Nat :=
  let stop := Word.add (p2v mbi) (headerSize mem mbi)
  let first := Word.add (p2v mbi) 8
  if first < stop then orbit (nextTag mem stop) k first else none

-- The tag at `b` stands where the size of the tag at `a`, rounded up to 8 bytes, says that
-- the next one is; sums are taken modulo 2^32.
def Follows (mem : Mem) (stop a b : Nat) : Prop :=
  ¬ (tagType mem a = 0 ∧ tagSize mem a = 8) ∧ b = (a + (tagSize mem a + 7) % 2 ^ 32 / 8 * 8) % 2 ^ 32 ∧ b < stop

-- The tags of the structure, from the one behind the header on.
def Chained (mem : Mem) (mbi tag : Nat) : Prop :=
  (p2v mbi + 8) % 2 ^ 32 < p2v mbi + headerSize mem mbi ∧
    ReflTransGen (Follows mem (p2v mbi + headerSize mem mbi)) ((p2v mbi + 8) % 2 ^ 32) tag

theorem leads_iff_follows (mem : Mem) (stop a b : Nat) : Leads (nextTag mem stop) a b ↔ Follows mem stop a b := by
  have next : Word.add a (alignUp (tagSize mem a) 8) = (a + (tagSize mem a + 7) % 2 ^ 32 / 8 * 8) % 2 ^ 32 := by
    rw [show 8 = 2 ^ 3 by rfl, align_up_eq _ 3 (by decide), Word.add, Nat.add_comm]
    rfl
  simp only [Leads, nextTag, Follows, next]
  by_cases last : tagType mem a = 0 ∧ tagSize mem a = 8
  · simp [last]
  · rw [if_neg last]
    by_cases inside : (a + (tagSize mem a + 7) % 2 ^ 32 / 8 * 8) % 2 ^ 32 < stop
    · rw [if_pos inside, Option.some.injEq]
      constructor
      · intro same
        exact ⟨last, same.symm, same ▸ inside⟩
      · intro follows
        exact follows.2.1.symm
    · rw [if_neg inside]
      constructor
      · intro impossible
        cases impossible
      · intro follows
        exact absurd (follows.2.1 ▸ follows.2.2) inside

theorem leads_eq_follows (mem : Mem) (stop : Nat) : Leads (nextTag mem stop) = Follows mem stop :=
  funext fun a => funext fun b => propext (leads_iff_follows mem stop a b)

theorem follows_bounded (mem : Mem) (stop a b : Nat) (inside : a < stop)
    (chain : ReflTransGen (Follows mem stop) a b) : b < stop := by
  cases chain with
  | refl => exact inside
  | tail _ step => exact step.2.2

theorem tag_walk_ends (mem : Mem) (mbi : Nat) (visible : p2v mbi + headerSize mem mbi < 2 ^ 32) :
    ((∃ k, examined mem mbi k = none) ∧
      ∀ k tag, examined mem mbi k = some tag → p2v mbi + 8 ≤ tag ∧ tag < p2v mbi + headerSize mem mbi) ↔
    ∀ tag, Chained mem mbi tag →
      p2v mbi + 8 ≤ tag ∧ ¬ TransGen (Follows mem (p2v mbi + headerSize mem mbi)) tag tag := by
  have stop : Word.add (p2v mbi) (headerSize mem mbi) = p2v mbi + headerSize mem mbi := Word.add_exact _ _ visible
  have first : Word.add (p2v mbi) 8 = (p2v mbi + 8) % 2 ^ 32 := by rw [Word.add, Nat.add_comm]
  simp only [examined, Chained, stop, first]
  generalize (p2v mbi + 8) % 2 ^ 32 = start
  generalize p2v mbi + headerSize mem mbi = bound
  by_cases inside : start < bound
  · simp only [inside, if_true, true_and]
    have finite : {tag | ReflTransGen (Leads (nextTag mem bound)) start tag}.Finite := by
      apply (Set.finite_lt_nat bound).subset
      intro tag chain
      rw [Set.mem_ofPred_eq, leads_eq_follows] at chain
      exact follows_bounded mem bound start tag inside chain
    have ends := ends_iff_no_cycle (nextTag mem bound) start finite
    rw [leads_eq_follows] at ends
    constructor
    · rintro ⟨ended, within⟩ tag chain
      obtain ⟨k, here⟩ := reached_orbit (nextTag mem bound) start tag (by rwa [leads_eq_follows])
      exact ⟨(within k tag here).1, ends.mp ended tag chain⟩
    · intro sound
      refine ⟨ends.mpr (fun tag chain => (sound tag chain).2), ?_⟩
      intro k tag here
      have chain := orbit_reached (nextTag mem bound) k start tag here
      rw [leads_eq_follows] at chain
      exact ⟨(sound tag chain).1, follows_bounded mem bound start tag inside chain⟩
  · simp [inside]

-- A module tag and the end tag: the chain has these two and stops.
theorem tag_walk_ends_module :
    p2v 0x10000 + headerSize lowModule 0x10000 < 2 ^ 32 ∧ (∃ k, examined lowModule 0x10000 k = none) ∧
    ∀ k tag, examined lowModule 0x10000 k = some tag →
      p2v 0x10000 + 8 ≤ tag ∧ tag < p2v 0x10000 + headerSize lowModule 0x10000 := by
  have visible : p2v 0x10000 + headerSize lowModule 0x10000 < 2 ^ 32 := by decide +kernel
  refine ⟨visible, (tag_walk_ends lowModule 0x10000 visible).mpr ?_⟩
  have size : p2v 0x10000 + headerSize lowModule 0x10000 = 0xC0010020 := by decide +kernel
  have base : p2v 0x10000 = 0xC0010000 := by decide +kernel
  have kind : tagSize lowModule 0xC0010008 = 16 := by decide +kernel
  have last : tagType lowModule 0xC0010018 = 0 ∧ tagSize lowModule 0xC0010018 = 8 := by decide +kernel
  have only (a b : Nat) (here : a = 0xC0010008 ∨ a = 0xC0010018) (follows : Follows lowModule 0xC0010020 a b) :
      a = 0xC0010008 ∧ b = 0xC0010018 := by
    cases here with
    | inl isFirst =>
        subst isFirst
        exact ⟨rfl, by simp [follows.2.1, kind]⟩
    | inr isLast =>
        subst isLast
        exact absurd last follows.1
  rintro tag ⟨-, chain⟩
  rw [size, base] at *
  have member : tag = 0xC0010008 ∨ tag = 0xC0010018 := by
    induction chain with
    | refl => exact .inl rfl
    | tail _ follows ih => exact .inr (only _ _ ih follows).2
  refine ⟨by omega, ?_⟩
  intro cycle
  obtain ⟨b, follows, back⟩ := TransGen.head'_iff.mp cycle
  obtain ⟨rfl, rfl⟩ := only tag b member follows
  cases back.cases_head with
  | inl same => cases same
  | inr later =>
      obtain ⟨c, again, -⟩ := later
      cases (only _ c (.inr rfl) again).1

-- A tag of size 0: the loop stays at it.
def stuckInfo : Mem :=
  let mem : Mem := fun _ => 0
  ((mem.writeWord (p2v 0x10000) 32).writeWord (p2v 0x10000 + 8) 1)

theorem tag_walk_stuck : p2v 0x10000 + headerSize stuckInfo 0x10000 < 2 ^ 32 ∧
    (∀ k, examined stuckInfo 0x10000 k = some 0xC0010008) ∧
    ¬ ((∃ k, examined stuckInfo 0x10000 k = none) ∧
      ∀ k tag, examined stuckInfo 0x10000 k = some tag →
        p2v 0x10000 + 8 ≤ tag ∧ tag < p2v 0x10000 + headerSize stuckInfo 0x10000) := by
  have visible : p2v 0x10000 + headerSize stuckInfo 0x10000 < 2 ^ 32 := by decide +kernel
  have again : nextTag stuckInfo 0xC0010020 0xC0010008 = some 0xC0010008 := by decide +kernel
  have first : Word.add (p2v 0x10000) 8 = 0xC0010008 := by decide +kernel
  have stop : Word.add (p2v 0x10000) (headerSize stuckInfo 0x10000) = 0xC0010020 := by decide +kernel
  have stays (k : Nat) : examined stuckInfo 0x10000 k = some 0xC0010008 := by
    simp only [examined, first, stop, Nat.reduceLT, if_true]
    induction k with
    | zero => rfl
    | succ k ih => rw [orbit, again, Option.bind_some, ih]
  refine ⟨visible, stays, ?_⟩
  rintro ⟨⟨k, ended⟩, -⟩
  rw [stays k] at ended
  cases ended

end X86OS.Kernel
