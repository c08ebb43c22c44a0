import X86OS.Mm.BuddyLists

set_option autoImplicit false

namespace X86OS.Buddy

open Function Dll Tiling

def Kind.flag : Kind → PageFlag
  | .free => .free
  | .used => .used
  | .hand => .tail

-- What the page map entry of a page says about the block map at that page.
def PageOk (managed : Prop) (flags : PageFlag) (order : Nat) : Option (Block Kind) → Prop
  | some ⟨k, .free⟩ => flags = .free ∧ order = k
  | some ⟨k, .used⟩ => flags = .used ∧ order = k
  | some ⟨_, .hand⟩ => True
  | none => (managed → flags = .tail) ∧ (¬ managed → flags = .kernel)

-- The concrete state represents a tiling of the managed pages. The slot behind
-- the map is the zeroed page that the largest block's buddy test may read.
structure Rep (s : State) (region : Nat → Prop) (tile : TileMap Kind) : Prop where
  tiles : Tiles maxBuddyOrder region tile
  inMap : ∀ p, region p → p < s.pageN
  pages : ∀ p, p < s.pageN → PageOk (region p) (s.pageMap p).flags (s.pageMap p).order (tile p)
  slack : (s.pageMap s.pageN).flags = .free ∧ (s.pageMap s.pageN).order = 0
  even : 2 ∣ s.pageN
  lists : FreeLists s tile

theorem rep_head_in_map (s : State) (region : Nat → Prop) (tile : TileMap Kind) (rep : Rep s region tile) (i : Nat)
    (b : Block Kind) (head : tile i = some b) : i + 2 ^ b.order ≤ s.pageN := by
  have positive := Nat.two_pow_pos b.order
  have last := rep.inMap _ (rep.tiles.inside i b head (i + 2 ^ b.order - 1) (by omega) (by omega))
  omega

theorem rep_head_page (s : State) (region : Nat → Prop) (tile : TileMap Kind) (rep : Rep s region tile) (i k : Nat)
    (kind : Kind) (settled : kind ≠ .hand) (head : tile i = some ⟨k, kind⟩) :
    i < s.pageN ∧ (s.pageMap i).flags = kind.flag ∧ (s.pageMap i).order = k := by
  have positive := Nat.two_pow_pos k
  have bound := rep_head_in_map s region tile rep i _ head
  simp only at bound
  have page := rep.pages i (by omega)
  rw [head] at page
  cases kind with
  | free => exact ⟨by omega, page⟩
  | used => exact ⟨by omega, page⟩
  | hand => exact absurd rfl settled

theorem rep_page_head (s : State) (region : Nat → Prop) (tile : TileMap Kind) (rep : Rep s region tile) (p : Nat)
    (kind : Kind) (settled : kind ≠ .hand) (inside : p < s.pageN) (notHand : ∀ k, tile p ≠ some ⟨k, .hand⟩)
    (flags : (s.pageMap p).flags = kind.flag) : tile p = some ⟨(s.pageMap p).order, kind⟩ := by
  have page := rep.pages p inside
  have notTail : kind.flag ≠ .tail ∧ kind.flag ≠ .kernel := by cases kind <;> simp_all [Kind.flag]
  rcases tileEq : tile p with _ | ⟨k, found⟩
  · rw [tileEq, PageOk, flags] at page
    by_cases managed : region p
    · exact absurd (page.1 managed) notTail.1
    · exact absurd (page.2 managed) notTail.2
  · have settled' : found ≠ .hand := fun hand => notHand k (hand ▸ tileEq)
    obtain ⟨-, flags', order⟩ := rep_head_page s region tile rep p k found settled' tileEq
    rw [flags] at flags'
    have same : found = kind := by cases kind <;> cases found <;> simp_all [Kind.flag]
    rw [order, same]

-- Every operation is a few page-map writes and one list operation; what it leaves
-- alone keeps its meaning.
theorem rep_change (s s' : State) (region : Nat → Prop) (tile tile' : TileMap Kind) (rep : Rep s region tile)
    (sameN : s'.pageN = s.pageN) (tiles : Tiles maxBuddyOrder region tile') (lists : FreeLists s' tile')
    (pages : ∀ p, p < s.pageN →
      (tile' p = tile p ∧ (s'.pageMap p).flags = (s.pageMap p).flags ∧ (s'.pageMap p).order = (s.pageMap p).order) ∨
        PageOk (region p) (s'.pageMap p).flags (s'.pageMap p).order (tile' p))
    (slack : (s'.pageMap s.pageN).flags = (s.pageMap s.pageN).flags ∧
      (s'.pageMap s.pageN).order = (s.pageMap s.pageN).order) :
    Rep s' region tile' := by
  refine ⟨tiles, ?_, ?_, ?_, ?_, lists⟩
  · rw [sameN]
    exact rep.inMap
  · intro p inside
    rw [sameN] at inside
    rcases pages p inside with ⟨tileEq, flagsEq, orderEq⟩ | written
    · rw [tileEq, flagsEq, orderEq]
      exact rep.pages p inside
    · exact written
  · rw [sameN, slack.1, slack.2]
    exact rep.slack
  · rw [sameN]
    exact rep.even

theorem set_head_page (s : State) (i order p : Nat) (flags : PageFlag) :
    ((s.setHead i order flags).pageMap p).flags = (if p = i then flags else (s.pageMap p).flags) ∧
      ((s.setHead i order flags).pageMap p).order = (if p = i then order else (s.pageMap p).order) := by
  by_cases same : p = i <;> simp [State.setHead, State.modify, same]

theorem set_flags_page (s : State) (i p : Nat) (flags : PageFlag) :
    ((s.setFlags i flags).pageMap p).flags = (if p = i then flags else (s.pageMap p).flags) ∧
      ((s.setFlags i flags).pageMap p).order = (s.pageMap p).order := by
  by_cases same : p = i <;> simp [State.setFlags, State.modify, same]

theorem set_head_links (s : State) (i order p : Nat) (flags : PageFlag) :
    links.next (s.setHead i order flags) p = links.next s p ∧
      links.prev (s.setHead i order flags) p = links.prev s p := by
  by_cases same : p = i <;> simp [links, State.setHead, State.modify, same]

theorem set_flags_links (s : State) (i p : Nat) (flags : PageFlag) :
    links.next (s.setFlags i flags) p = links.next s p ∧ links.prev (s.setFlags i flags) p = links.prev s p := by
  by_cases same : p = i <;> simp [links, State.setFlags, State.modify, same]

theorem push_page (s : State) (k node p : Nat) :
    ((pushNode links (freeAreaRef k) node s).pageMap p).flags = (s.pageMap p).flags ∧
      ((pushNode links (freeAreaRef k) node s).pageMap p).order = (s.pageMap p).order ∧
      (pushNode links (freeAreaRef k) node s).pageN = s.pageN := by
  have kept := contents_push k node s
  simp only [contents, Contents.mk.injEq] at kept
  exact ⟨congrFun kept.1 p, congrFun kept.2.1 p, kept.2.2.1⟩

theorem remove_page (s : State) (k node p : Nat) :
    ((removeNode links (freeAreaRef k) node s).pageMap p).flags = (s.pageMap p).flags ∧
      ((removeNode links (freeAreaRef k) node s).pageMap p).order = (s.pageMap p).order ∧
      (removeNode links (freeAreaRef k) node s).pageN = s.pageN := by
  have kept := contents_remove k node s
  simp only [contents, Contents.mk.injEq] at kept
  exact ⟨congrFun kept.1 p, congrFun kept.2.1 p, kept.2.2.1⟩

section Steps

variable {s : State} {region : Nat → Prop} {tile : TileMap Kind} (rep : Rep s region tile)

include rep

theorem rep_remove (h k : Nat) (head : tile h = some ⟨k, .free⟩) :
    Rep (removeNode links (freeAreaRef k) h s) region (update tile h (some ⟨k, .hand⟩)) := by
  apply rep_change s _ region tile _ rep (remove_page s k h 0).2.2 (tiles_relabel rep.tiles h _ .hand head)
    (free_lists_remove s tile k h _ rep.lists head (rep.tiles.bounded h _ head) (by simp))
  · intro p _
    by_cases same : p = h
    · right
      rw [same, update_self]
      trivial
    · left
      exact ⟨update_of_ne same _ _, (remove_page s k h p).1, (remove_page s k h p).2.1⟩
  · exact ⟨(remove_page s k h _).1, (remove_page s k h _).2.1⟩

theorem rep_take (h k : Nat) (head : tile h = some ⟨k, .hand⟩) :
    Rep (s.setHead h k .used) region (update tile h (some ⟨k, .used⟩)) := by
  have bound := rep_head_in_map s region tile rep h _ head
  have positive := Nat.two_pow_pos k
  simp only at bound
  apply rep_change s (s.setHead h k .used) region tile _ rep rfl (tiles_relabel rep.tiles h _ .used head)
  · apply free_lists_congr s _ tile _ rep.lists (fun i => (set_head_links s h k i .used).1)
      (fun i => (set_head_links s h k i .used).2) rfl
    intro i k'
    by_cases same : i = h
    · subst same
      simp [head]
    · rw [update_of_ne same]
  · intro p _
    by_cases same : p = h
    · right
      subst same
      rw [update_self, (set_head_page s p k p .used).1, (set_head_page s p k p .used).2, if_pos rfl, if_pos rfl]
      exact ⟨rfl, rfl⟩
    · left
      rw [(set_head_page s h k p .used).1, (set_head_page s h k p .used).2, if_neg same, if_neg same]
      exact ⟨update_of_ne same _ _, rfl, rfl⟩
  · rw [(set_head_page s h k _ .used).1, (set_head_page s h k _ .used).2, if_neg (by omega), if_neg (by omega)]
    exact ⟨rfl, rfl⟩

theorem rep_release (h k : Nat) (head : tile h = some ⟨k, .used⟩) : Rep s region (update tile h (some ⟨k, .hand⟩)) := by
  apply rep_change s s region tile _ rep rfl (tiles_relabel rep.tiles h _ .hand head)
  · apply free_lists_congr s s tile _ rep.lists (fun _ => rfl) (fun _ => rfl) rfl
    intro i k'
    by_cases same : i = h
    · subst same
      simp [head]
    · rw [update_of_ne same]
  · intro p _
    by_cases same : p = h
    · right
      rw [same, update_self]
      trivial
    · left
      exact ⟨update_of_ne same _ _, rfl, rfl⟩
  · exact ⟨rfl, rfl⟩

theorem rep_give (h k : Nat) (head : tile h = some ⟨k, .hand⟩) :
    Rep (pushNode links (freeAreaRef k) h (s.setHead h k .free)) region (update tile h (some ⟨k, .free⟩)) := by
  have bound := rep_head_in_map s region tile rep h _ head
  have positive := Nat.two_pow_pos k
  simp only at bound
  have small : k ≤ maxBuddyOrder := rep.tiles.bounded h _ head
  apply rep_change s _ region tile _ rep (push_page (s.setHead h k .free) k h 0).2.2
    (tiles_relabel rep.tiles h _ .free head)
  · apply free_lists_push _ tile k h _ (by simp [head]) small
    exact free_lists_congr s _ tile tile rep.lists (fun i => (set_head_links s h k i .free).1)
      (fun i => (set_head_links s h k i .free).2) rfl (fun _ _ => Iff.rfl)
  · intro p _
    rw [(push_page _ k h p).1, (push_page _ k h p).2.1, (set_head_page s h k p .free).1,
      (set_head_page s h k p .free).2]
    by_cases same : p = h
    · right
      subst same
      rw [update_self, if_pos rfl, if_pos rfl]
      exact ⟨rfl, rfl⟩
    · left
      rw [if_neg same, if_neg same]
      exact ⟨update_of_ne same _ _, rfl, rfl⟩
  · rw [(push_page _ k h _).1, (push_page _ k h _).2.1, (set_head_page s h k _ .free).1,
      (set_head_page s h k _ .free).2, if_neg (by omega), if_neg (by omega)]
    exact ⟨rfl, rfl⟩

theorem rep_split (top k : Nat) (head : tile top = some ⟨k + 1, .hand⟩) :
    Rep (splitStep top k s) region
      (update (update tile top (some ⟨k, .hand⟩)) (top + 2 ^ k) (some ⟨k, .free⟩)) := by
  have positive := Nat.two_pow_pos k
  have double : 2 ^ (k + 1) = 2 * 2 ^ k := by rw [pow_succ]; ring
  have bound := rep_head_in_map s region tile rep top _ head
  simp only [double] at bound
  have aligned : 2 ^ (k + 1) ∣ top := rep.tiles.aligned top _ head
  have small : k + 1 ≤ maxBuddyOrder := rep.tiles.bounded top _ head
  have empty : tile (top + 2 ^ k) = none := rep.tiles.hollow top _ head _ (by omega) (by simp only [double]; omega)
  have sibling : buddyIndex (s.setHead top k .used) top = top + 2 ^ k := by
    rw [buddyIndex, (set_head_page s top k top .used).2, if_pos rfl, Nat.shiftLeft_eq, Nat.one_mul]
    exact Word.xor_two_pow_lower top k aligned
  simp only [splitStep, sibling]
  have pageFlags (p : Nat) := (push_page ((s.setHead top k .used).setHead (top + 2 ^ k) k .free) k (top + 2 ^ k) p)
  apply rep_change s _ region tile _ rep (pageFlags 0).2.2 (tiles_split rep.tiles top k .hand .hand .free head)
  · apply free_lists_push _ _ k (top + 2 ^ k)
    · apply free_lists_congr s _ tile _ rep.lists
      · intro i
        rw [(set_head_links _ _ _ i _).1, (set_head_links _ _ _ i _).1]
      · intro i
        rw [(set_head_links _ _ _ i _).2, (set_head_links _ _ _ i _).2]
      · rfl
      · intro i k'
        by_cases same : i = top
        · subst same
          simp [head]
        · rw [update_of_ne same]
    · intro k'
      rw [update_of_ne (by omega), empty]
      simp
    · omega
  · intro p _
    rw [(pageFlags p).1, (pageFlags p).2.1, (set_head_page _ _ _ p _).1, (set_head_page _ _ _ p _).2,
      (set_head_page _ _ _ p _).1, (set_head_page _ _ _ p _).2]
    by_cases upper : p = top + 2 ^ k
    · right
      rw [upper, update_self, if_pos rfl, if_pos rfl]
      exact ⟨rfl, rfl⟩
    · by_cases lower : p = top
      · right
        rw [lower, update_of_ne (by omega), update_self]
        trivial
      · left
        rw [if_neg upper, if_neg upper, if_neg lower, if_neg lower, update_of_ne upper, update_of_ne lower]
        exact ⟨rfl, rfl, rfl⟩
  · rw [(pageFlags _).1, (pageFlags _).2.1, (set_head_page _ _ _ s.pageN _).1, (set_head_page _ _ _ s.pageN _).2,
      (set_head_page _ _ _ s.pageN _).1, (set_head_page _ _ _ s.pageN _).2, if_neg (by omega), if_neg (by omega),
      if_neg (by omega), if_neg (by omega)]
    exact ⟨rfl, rfl⟩

-- The block in hand and its free buddy are the two halves of the parent at `lower`.
def Halves (lower top buddy k : Nat) : Prop :=
  2 ^ (k + 1) ∣ lower ∧ ((top = lower ∧ buddy = lower + 2 ^ k) ∨ (buddy = lower ∧ top = lower + 2 ^ k))

omit rep in
theorem merge_step_eq (lower top buddy k : Nat) (halves : Halves lower top buddy k) :
    mergeStep top buddy k s =
      (lower,
        ((removeNode links (freeAreaRef k) buddy s).setHead lower (k + 1) .free).setFlags (lower + 2 ^ k) .tail) := by
  have positive := Nat.two_pow_pos k
  rcases halves.2 with ⟨rfl, rfl⟩ | ⟨rfl, rfl⟩
  · simp only [mergeStep, if_neg (show ¬ top + 2 ^ k < top by omega)]
  · simp only [mergeStep, if_pos (show buddy < buddy + 2 ^ k by omega)]

theorem rep_merge (lower top buddy k : Nat) (halves : Halves lower top buddy k) (room : k < maxBuddyOrder)
    (headTop : tile top = some ⟨k, .hand⟩) (headBuddy : tile buddy = some ⟨k, .free⟩) :
    Rep (mergeStep top buddy k s).2 region
      (update (update tile (lower + 2 ^ k) none) lower (some ⟨k + 1, .hand⟩)) := by
  have positive := Nat.two_pow_pos k
  obtain ⟨kindLower, kindUpper, headLower, headUpper⟩ :
      ∃ kindLower kindUpper, tile lower = some ⟨k, kindLower⟩ ∧ tile (lower + 2 ^ k) = some ⟨k, kindUpper⟩ := by
    rcases halves.2 with ⟨rfl, rfl⟩ | ⟨rfl, rfl⟩
    · exact ⟨.hand, .free, headTop, headBuddy⟩
    · exact ⟨.free, .hand, headBuddy, headTop⟩
  have boundUpper := rep_head_in_map s region tile rep _ _ headUpper
  have regionUpper : region (lower + 2 ^ k) := rep.tiles.inside _ _ headUpper _ (Nat.le_refl _) (by simp only; omega)
  simp only at boundUpper
  rw [merge_step_eq lower top buddy k halves]
  have flags (p : Nat) : ((((removeNode links (freeAreaRef k) buddy s).setHead lower (k + 1) .free).setFlags
        (lower + 2 ^ k) .tail).pageMap p).flags =
      if p = lower + 2 ^ k then .tail else if p = lower then .free else (s.pageMap p).flags := by
    rw [(set_flags_page _ _ p _).1, (set_head_page _ _ _ p _).1, (remove_page s k buddy p).1]
  have order (p : Nat) : ((((removeNode links (freeAreaRef k) buddy s).setHead lower (k + 1) .free).setFlags
        (lower + 2 ^ k) .tail).pageMap p).order = if p = lower then k + 1 else (s.pageMap p).order := by
    rw [(set_flags_page _ _ p _).2, (set_head_page _ _ _ p _).2, (remove_page s k buddy p).2.1]
  apply rep_change s _ region tile _ rep
  · exact (remove_page s k buddy 0).2.2
  · exact tiles_merge rep.tiles lower k _ _ .hand halves.1 (by omega) headLower headUpper
  · apply free_lists_congr (removeNode links (freeAreaRef k) buddy s) _ (update tile buddy (some ⟨k, .hand⟩)) _
      (free_lists_remove s tile k buddy _ rep.lists headBuddy (by omega) (by simp))
    · intro i
      rw [(set_flags_links _ _ i _).1, (set_head_links _ _ _ i _).1]
    · intro i
      rw [(set_flags_links _ _ i _).2, (set_head_links _ _ _ i _).2]
    · rfl
    · intro i k'
      rcases halves.2 with ⟨rfl, rfl⟩ | ⟨rfl, rfl⟩
      · by_cases isLower : i = top
        · subst isLower
          rw [update_self, update_of_ne (by omega), headTop]
          simp
        · by_cases isUpper : i = top + 2 ^ k
          · simp [isUpper]
          · rw [update_of_ne isLower, update_of_ne isUpper, update_of_ne isUpper]
      · by_cases isLower : i = buddy
        · simp [isLower]
        · by_cases isUpper : i = buddy + 2 ^ k
          · subst isUpper
            rw [update_of_ne isLower, update_self, update_of_ne isLower, headTop]
            simp
          · rw [update_of_ne isLower, update_of_ne isUpper, update_of_ne isLower]
  · intro p _
    rw [flags p, order p]
    by_cases isUpper : p = lower + 2 ^ k
    · right
      subst isUpper
      rw [update_of_ne (by omega), update_self, if_pos rfl]
      exact ⟨fun _ => rfl, fun unmanaged => absurd regionUpper unmanaged⟩
    · by_cases isLower : p = lower
      · right
        rw [isLower, update_self]
        trivial
      · left
        rw [if_neg isUpper, if_neg isLower, if_neg isLower, update_of_ne isLower, update_of_ne isUpper]
        exact ⟨rfl, rfl, rfl⟩
  · rw [flags, order, if_neg (by omega), if_neg (by omega), if_neg (by omega)]
    exact ⟨rfl, rfl⟩

end Steps

end X86OS.Buddy
