import X86OS.Lib.Word

set_option autoImplicit false

namespace X86OS.Tiling

open Function

variable {K : Type}

structure Block (K : Type) where
  order : Nat
  kind : K
deriving DecidableEq

abbrev TileMap (K : Type) := Nat → Option (Block K)

-- A map from head positions to blocks that tiles a region with aligned blocks
-- of size 2^order. No head lies inside another block.
structure Tiles (limit : Nat) (region : Nat → Prop) (tile : TileMap K) : Prop where
  bounded : ∀ i b, tile i = some b → b.order ≤ limit
  aligned : ∀ i b, tile i = some b → 2 ^ b.order ∣ i
  inside : ∀ i b, tile i = some b → ∀ p, i ≤ p → p < i + 2 ^ b.order → region p
  hollow : ∀ i b, tile i = some b → ∀ p, i < p → p < i + 2 ^ b.order → tile p = none
  cover : ∀ p, region p → ∃ i b, tile i = some b ∧ i ≤ p ∧ p < i + 2 ^ b.order

section Tiles

variable {limit : Nat} {region : Nat → Prop} {tile : TileMap K} (tiles : Tiles limit region tile)

include tiles

theorem tiles_unique (i j p : Nat) (b c : Block K) (headI : tile i = some b) (headJ : tile j = some c)
    (lowI : i ≤ p) (highI : p < i + 2 ^ b.order) (lowJ : j ≤ p) (highJ : p < j + 2 ^ c.order) : i = j := by
  rcases Nat.lt_trichotomy i j with before | same | after
  · have empty := tiles.hollow i b headI j before (by omega)
    rw [empty] at headJ
    cases headJ
  · exact same
  · have empty := tiles.hollow j c headJ i after (by omega)
    rw [empty] at headI
    cases headI

theorem tiles_relabel (h : Nat) (b : Block K) (kind : K) (head : tile h = some b) :
    Tiles limit region (update tile h (some ⟨b.order, kind⟩)) := by
  have lookup (i : Nat) (c : Block K) (found : update tile h (some ⟨b.order, kind⟩) i = some c) :
      ∃ old, tile i = some old ∧ old.order = c.order := by
    by_cases same : i = h
    · subst same
      rw [update_self] at found
      cases found
      exact ⟨b, head, rfl⟩
    · rw [update_of_ne same] at found
      exact ⟨c, found, rfl⟩
  constructor
  · intro i c found
    obtain ⟨old, oldHead, orderEq⟩ := lookup i c found
    exact orderEq ▸ tiles.bounded i old oldHead
  · intro i c found
    obtain ⟨old, oldHead, orderEq⟩ := lookup i c found
    exact orderEq ▸ tiles.aligned i old oldHead
  · intro i c found p low high
    obtain ⟨old, oldHead, orderEq⟩ := lookup i c found
    exact tiles.inside i old oldHead p low (by rw [orderEq]; exact high)
  · intro i c found p low high
    obtain ⟨old, oldHead, orderEq⟩ := lookup i c found
    have empty := tiles.hollow i old oldHead p low (by rw [orderEq]; exact high)
    have other : p ≠ h := by
      rintro rfl
      rw [empty] at head
      cases head
    rw [update_of_ne other]
    exact empty
  · intro p inRegion
    obtain ⟨i, c, found, low, high⟩ := tiles.cover p inRegion
    by_cases same : i = h
    · subst same
      rw [head] at found
      cases found
      exact ⟨i, ⟨b.order, kind⟩, update_self .., low, high⟩
    · exact ⟨i, c, by rw [update_of_ne same]; exact found, low, high⟩

theorem tiles_split (h k : Nat) (kind lower upper : K) (head : tile h = some ⟨k + 1, kind⟩) :
    Tiles limit region (update (update tile h (some ⟨k, lower⟩)) (h + 2 ^ k) (some ⟨k, upper⟩)) := by
  have positive := Nat.two_pow_pos k
  have double : 2 ^ (k + 1) = 2 * 2 ^ k := by rw [pow_succ]; ring
  have parentAligned : 2 ^ (k + 1) ∣ h := tiles.aligned h _ head
  have lowerAligned : 2 ^ k ∣ h := (pow_dvd_pow 2 (by omega)).trans parentAligned
  have upperAligned : 2 ^ k ∣ h + 2 ^ k := Nat.dvd_add lowerAligned (dvd_refl _)
  have upperEmpty : tile (h + 2 ^ k) = none := tiles.hollow h _ head _ (by omega) (by simp only [double]; omega)
  have parentBound : k + 1 ≤ limit := tiles.bounded h _ head
  have parentInside := tiles.inside h _ head
  have parentHollow := tiles.hollow h _ head
  simp only [double] at parentInside parentHollow
  have parentUnique (i : Nat) (b : Block K) (found : tile i = some b) (other : i ≠ h) (p : Nat) (low : i ≤ p)
      (high : p < i + 2 ^ b.order) : ¬ (h ≤ p ∧ p < h + 2 * 2 ^ k) := by
    rintro ⟨lowH, highH⟩
    exact other (tiles_unique tiles i h p b _ found head low high lowH (by simpa only [double] using highH))
  have lookup (i : Nat) (b : Block K)
      (found : update (update tile h (some ⟨k, lower⟩)) (h + 2 ^ k) (some ⟨k, upper⟩) i = some b) :
      (i = h + 2 ^ k ∧ b = ⟨k, upper⟩) ∨ (i = h ∧ b = ⟨k, lower⟩) ∨
        (i ≠ h ∧ i ≠ h + 2 ^ k ∧ tile i = some b) := by
    by_cases isUpper : i = h + 2 ^ k
    · subst isUpper
      rw [update_self] at found
      exact .inl ⟨rfl, (Option.some.inj found).symm⟩
    · rw [update_of_ne isUpper] at found
      by_cases isLower : i = h
      · subst isLower
        rw [update_self] at found
        exact .inr (.inl ⟨rfl, (Option.some.inj found).symm⟩)
      · rw [update_of_ne isLower] at found
        exact .inr (.inr ⟨isLower, isUpper, found⟩)
  have elsewhere (p : Nat) (notLower : p ≠ h) (notUpper : p ≠ h + 2 ^ k) :
      update (update tile h (some ⟨k, lower⟩)) (h + 2 ^ k) (some ⟨k, upper⟩) p = tile p := by
    rw [update_of_ne notUpper, update_of_ne notLower]
  constructor
  · intro i b found
    rcases lookup i b found with ⟨rfl, rfl⟩ | ⟨rfl, rfl⟩ | ⟨-, -, old⟩
    · simp only; omega
    · simp only; omega
    · exact tiles.bounded i b old
  · intro i b found
    rcases lookup i b found with ⟨rfl, rfl⟩ | ⟨rfl, rfl⟩ | ⟨-, -, old⟩
    · exact upperAligned
    · exact lowerAligned
    · exact tiles.aligned i b old
  · intro i b found p low high
    rcases lookup i b found with ⟨rfl, rfl⟩ | ⟨rfl, rfl⟩ | ⟨-, -, old⟩
    · exact parentInside p (by omega) (by simp only at high; omega)
    · exact parentInside p low (by simp only at high; omega)
    · exact tiles.inside i b old p low high
  · intro i b found p low high
    rcases lookup i b found with ⟨rfl, rfl⟩ | ⟨rfl, rfl⟩ | ⟨notLower, notUpper, old⟩
    · simp only at high
      rw [elsewhere p (by omega) (by omega)]
      exact parentHollow p (by omega) (by omega)
    · simp only at high
      rw [elsewhere p (by omega) (by omega)]
      exact parentHollow p low (by omega)
    · have outside := parentUnique i b old notLower p (by omega) high
      rw [elsewhere p (by omega) (by omega)]
      exact tiles.hollow i b old p low high
  · intro p inRegion
    obtain ⟨i, b, found, low, high⟩ := tiles.cover p inRegion
    by_cases isHead : i = h
    · subst isHead
      rw [head] at found
      cases found
      simp only [double] at high
      by_cases below : p < i + 2 ^ k
      · exact ⟨i, ⟨k, lower⟩, by rw [update_of_ne (by omega), update_self], low, below⟩
      · exact ⟨i + 2 ^ k, ⟨k, upper⟩, update_self .., by omega, by simp only; omega⟩
    · have notUpper : i ≠ h + 2 ^ k := by
        rintro rfl
        rw [upperEmpty] at found
        cases found
      exact ⟨i, b, by rw [elsewhere i isHead notUpper]; exact found, low, high⟩

theorem tiles_merge (a k : Nat) (lower upper kind : K) (parentAligned : 2 ^ (k + 1) ∣ a) (parentBound : k + 1 ≤ limit)
    (headLower : tile a = some ⟨k, lower⟩) (headUpper : tile (a + 2 ^ k) = some ⟨k, upper⟩) :
    Tiles limit region (update (update tile (a + 2 ^ k) none) a (some ⟨k + 1, kind⟩)) := by
  have positive := Nat.two_pow_pos k
  have double : 2 ^ (k + 1) = 2 * 2 ^ k := by rw [pow_succ]; ring
  have lookup (i : Nat) (b : Block K)
      (found : update (update tile (a + 2 ^ k) none) a (some ⟨k + 1, kind⟩) i = some b) :
      (i = a ∧ b = ⟨k + 1, kind⟩) ∨ (i ≠ a ∧ i ≠ a + 2 ^ k ∧ tile i = some b) := by
    by_cases isLower : i = a
    · subst isLower
      rw [update_self] at found
      exact .inl ⟨rfl, (Option.some.inj found).symm⟩
    · rw [update_of_ne isLower] at found
      by_cases isUpper : i = a + 2 ^ k
      · subst isUpper
        rw [update_self] at found
        cases found
      · rw [update_of_ne isUpper] at found
        exact .inr ⟨isLower, isUpper, found⟩
  have elsewhere (p : Nat) (notLower : p ≠ a) (empty : p ≠ a + 2 ^ k → tile p = none) :
      update (update tile (a + 2 ^ k) none) a (some ⟨k + 1, kind⟩) p = none := by
    rw [update_of_ne notLower]
    by_cases isUpper : p = a + 2 ^ k
    · rw [isUpper, update_self]
    · rw [update_of_ne isUpper]
      exact empty isUpper
  constructor
  · intro i b found
    rcases lookup i b found with ⟨rfl, rfl⟩ | ⟨-, -, old⟩
    · exact parentBound
    · exact tiles.bounded i b old
  · intro i b found
    rcases lookup i b found with ⟨rfl, rfl⟩ | ⟨-, -, old⟩
    · exact parentAligned
    · exact tiles.aligned i b old
  · intro i b found p low high
    rcases lookup i b found with ⟨rfl, rfl⟩ | ⟨-, -, old⟩
    · simp only [double] at high
      by_cases below : p < i + 2 ^ k
      · exact tiles.inside i _ headLower p low below
      · exact tiles.inside _ _ headUpper p (by omega) (by simp only; omega)
    · exact tiles.inside i b old p low high
  · intro i b found p low high
    rcases lookup i b found with ⟨rfl, rfl⟩ | ⟨notLower, notUpper, old⟩
    · simp only [double] at high
      apply elsewhere p (by omega)
      intro notUpper
      by_cases below : p < i + 2 ^ k
      · exact tiles.hollow i _ headLower p low below
      · exact tiles.hollow _ _ headUpper p (by omega) (by simp only; omega)
    · have empty := tiles.hollow i b old p low high
      apply elsewhere p _ (fun _ => empty)
      rintro rfl
      rw [headLower] at empty
      cases empty
  · intro p inRegion
    obtain ⟨i, b, found, low, high⟩ := tiles.cover p inRegion
    by_cases isLower : i = a
    · subst isLower
      rw [headLower] at found
      cases found
      exact ⟨i, ⟨k + 1, kind⟩, update_self .., low, by simp only [double] at high ⊢; omega⟩
    · by_cases isUpper : i = a + 2 ^ k
      · subst isUpper
        rw [headUpper] at found
        cases found
        exact ⟨a, ⟨k + 1, kind⟩, update_self .., by omega, by simp only [double] at high ⊢; omega⟩
      · exact ⟨i, b, by rw [update_of_ne isLower, update_of_ne isUpper]; exact found, low, high⟩

theorem tiles_extend (h : Nat) (b : Block K) (small : b.order ≤ limit) (aligned : 2 ^ b.order ∣ h)
    (outside : ∀ p, h ≤ p → p < h + 2 ^ b.order → ¬ region p) :
    Tiles limit (fun p => region p ∨ (h ≤ p ∧ p < h + 2 ^ b.order)) (update tile h (some b)) := by
  have positive := Nat.two_pow_pos b.order
  have vacant (p : Nat) (low : h ≤ p) (high : p < h + 2 ^ b.order) : tile p = none := by
    cases found : tile p with
    | none => rfl
    | some c =>
        have size := Nat.two_pow_pos c.order
        exact absurd (tiles.inside p c found p (Nat.le_refl p) (by omega)) (outside p low high)
  have lookup (i : Nat) (c : Block K) (found : update tile h (some b) i = some c) :
      (i = h ∧ c = b) ∨ (i ≠ h ∧ tile i = some c) := by
    by_cases same : i = h
    · subst same
      rw [update_self] at found
      exact .inl ⟨rfl, (Option.some.inj found).symm⟩
    · rw [update_of_ne same] at found
      exact .inr ⟨same, found⟩
  constructor
  · intro i c found
    rcases lookup i c found with ⟨rfl, rfl⟩ | ⟨-, old⟩
    · exact small
    · exact tiles.bounded i c old
  · intro i c found
    rcases lookup i c found with ⟨rfl, rfl⟩ | ⟨-, old⟩
    · exact aligned
    · exact tiles.aligned i c old
  · intro i c found p low high
    rcases lookup i c found with ⟨rfl, rfl⟩ | ⟨-, old⟩
    · exact .inr ⟨low, high⟩
    · exact .inl (tiles.inside i c old p low high)
  · intro i c found p low high
    rcases lookup i c found with ⟨rfl, rfl⟩ | ⟨-, old⟩
    · rw [update_of_ne (by omega)]
      exact vacant p (by omega) high
    · have other : p ≠ h := by
        rintro rfl
        exact outside p (Nat.le_refl p) (by omega) (tiles.inside i c old p (by omega) high)
      rw [update_of_ne other]
      exact tiles.hollow i c old p low high
  · rintro p (inRegion | ⟨low, high⟩)
    · obtain ⟨i, c, found, low, high⟩ := tiles.cover p inRegion
      have other : i ≠ h := by
        rintro rfl
        rw [vacant i (Nat.le_refl i) (by omega)] at found
        cases found
      exact ⟨i, c, by rw [update_of_ne other]; exact found, low, high⟩
    · exact ⟨h, b, update_self .., low, high⟩

end Tiles

end X86OS.Tiling
