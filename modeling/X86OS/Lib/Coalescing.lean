import X86OS.Lib.Tiling

set_option autoImplicit false
set_option linter.unusedSectionVars false

namespace X86OS.Tiling

open Function

variable {K : Type} [DecidableEq K]

-- No two buddies below the largest order both carry the given kind.
def Coalesced (limit : Nat) (kind : K) (tile : TileMap K) : Prop :=
  ∀ a k, k < limit → 2 ^ (k + 1) ∣ a → tile a = some ⟨k, kind⟩ → tile (a + 2 ^ k) ≠ some ⟨k, kind⟩

def Covers (kind : K) (tile : TileMap K) (p : Nat) : Prop :=
  ∃ i k, tile i = some ⟨k, kind⟩ ∧ i ≤ p ∧ p < i + 2 ^ k

theorem other_kind_of_update (tile : TileMap K) (h i k k' : Nat) (kind kind' : K) (other : kind' ≠ kind)
    (found : update tile h (some ⟨k, kind⟩) i = some ⟨k', kind'⟩) : tile i = some ⟨k', kind'⟩ := by
  by_cases same : i = h
  · subst same
    rw [update_self] at found
    exact absurd (congrArg Block.kind (Option.some.inj found)).symm other
  · rwa [update_of_ne same] at found

theorem coalesced_update (limit : Nat) (kind kind' : K) (tile : TileMap K) (h k : Nat) (other : kind ≠ kind')
    (coalesced : Coalesced limit kind tile) : Coalesced limit kind (update tile h (some ⟨k, kind'⟩)) := by
  intro a j room aligned lower upper
  exact coalesced a j room aligned (other_kind_of_update tile h a k j kind' kind other lower)
    (other_kind_of_update tile h _ k j kind' kind other upper)

theorem coalesced_xor (limit : Nat) (region : Nat → Prop) (tile : TileMap K) (kind : K)
    (tiles : Tiles limit region tile) (coalesced : Coalesced limit kind tile) (i k : Nat) (room : k < limit)
    (head : tile i = some ⟨k, kind⟩) :
    tile (i ^^^ 2 ^ k) ≠ some ⟨k, kind⟩ := by
  intro buddy
  rcases Word.half_of_parent i k (tiles.aligned i _ head) with isLower | ⟨lower, lowerAligned, rfl⟩
  · rw [Word.xor_two_pow_lower i k isLower] at buddy
    exact coalesced i k room isLower head buddy
  · rw [Word.xor_two_pow_upper lower k lowerAligned] at buddy
    exact coalesced lower k room lowerAligned buddy head

theorem aligned_nested (b i k m : Nat) (alignedB : 2 ^ k ∣ b) (alignedI : 2 ^ m ∣ i) (larger : k ≤ m)
    (low : i ≤ b) (high : b < i + 2 ^ m) : b + 2 ^ k ≤ i + 2 ^ m := by
  obtain ⟨c, rfl⟩ := alignedB
  obtain ⟨d, rfl⟩ := (pow_dvd_pow 2 larger).trans alignedI
  obtain ⟨e, size⟩ : 2 ^ k ∣ 2 ^ m := pow_dvd_pow 2 larger
  rw [size, ← Nat.mul_add] at high ⊢
  have count : c < d + e := Nat.lt_of_mul_lt_mul_left high
  calc 2 ^ k * c + 2 ^ k = 2 ^ k * (c + 1) := by ring
    _ ≤ 2 ^ k * (d + e) := Nat.mul_le_mul_left _ count

-- A block-sized stretch of one kind lies inside a single block of that kind:
-- two half-sized blocks side by side would be uncoalesced buddies.
theorem coalesced_stretch (limit : Nat) (region : Nat → Prop) (tile : TileMap K) (kind : K)
    (tiles : Tiles limit region tile) (coalesced : Coalesced limit kind tile) (k b : Nat) (small : k ≤ limit)
    (aligned : 2 ^ k ∣ b) (covered : ∀ p, b ≤ p → p < b + 2 ^ k → Covers kind tile p) :
    ∃ i m, k ≤ m ∧ tile i = some ⟨m, kind⟩ ∧ i ≤ b ∧ b + 2 ^ k ≤ i + 2 ^ m := by
  induction k generalizing b with
  | zero =>
      obtain ⟨i, m, head, low, high⟩ := covered b (Nat.le_refl b) (by simp)
      exact ⟨i, m, Nat.zero_le m, head, low, by simpa using high⟩
  | succ k ih =>
      have positive := Nat.two_pow_pos k
      have double : 2 ^ (k + 1) = 2 * 2 ^ k := by rw [pow_succ]; ring
      have halfAligned : 2 ^ k ∣ b := (pow_dvd_pow 2 (by omega)).trans aligned
      obtain ⟨i, m, largeI, headI, lowI, highI⟩ := ih b (by omega) halfAligned
        (fun p low high => covered p low (by omega))
      obtain ⟨j, n, largeJ, headJ, lowJ, highJ⟩ := ih (b + 2 ^ k) (by omega) (Nat.dvd_add halfAligned (dvd_refl _))
        (fun p low high => covered p (by omega) (by omega))
      by_cases growI : k + 1 ≤ m
      · exact ⟨i, m, growI, headI, lowI,
          aligned_nested b i (k + 1) m aligned (tiles.aligned i _ headI) growI lowI (by omega)⟩
      · by_cases growJ : k + 1 ≤ n
        · have below : j ≤ b := by
            obtain ⟨c, rfl⟩ := aligned
            obtain ⟨d, rfl⟩ := (pow_dvd_pow 2 growJ).trans (tiles.aligned j _ headJ)
            have count : d < c + 1 := by
              apply Nat.lt_of_mul_lt_mul_left (a := 2 ^ (k + 1))
              calc 2 ^ (k + 1) * d ≤ 2 ^ (k + 1) * c + 2 ^ k := lowJ
                _ < 2 ^ (k + 1) * (c + 1) := by rw [Nat.mul_add]; omega
            exact Nat.mul_le_mul_left _ (by omega)
          exact ⟨j, n, growJ, headJ, below,
            aligned_nested b j (k + 1) n aligned (tiles.aligned j _ headJ) growJ below (by omega)⟩
        · have sameM : m = k := by omega
          have sameN : n = k := by omega
          subst sameM sameN
          have sameI : i = b := by omega
          have sameJ : j = b + 2 ^ n := by omega
          subst sameI sameJ
          exact absurd headJ (coalesced i n (by omega) aligned headI)

def parentBase (i k : Nat) : Nat := i / 2 ^ (k + 1) * 2 ^ (k + 1)

theorem parent_contains (i k : Nat) (aligned : 2 ^ k ∣ i) :
    2 ^ (k + 1) ∣ parentBase i k ∧ parentBase i k ≤ i ∧ i + 2 ^ k ≤ parentBase i k + 2 ^ (k + 1) := by
  have dvd : 2 ^ (k + 1) ∣ parentBase i k := Dvd.intro_left _ rfl
  have low : parentBase i k ≤ i := Nat.div_mul_le_self i _
  refine ⟨dvd, low, aligned_nested i (parentBase i k) k (k + 1) aligned dvd (by omega) low ?_⟩
  have := Nat.lt_div_mul_add (a := i) (Nat.two_pow_pos (k + 1))
  exact this

theorem coalesced_block_iff (limit : Nat) (region : Nat → Prop) (tile : TileMap K) (kind : K)
    (tiles : Tiles limit region tile) (coalesced : Coalesced limit kind tile) (i k : Nat) :
    tile i = some ⟨k, kind⟩ ↔ k ≤ limit ∧ 2 ^ k ∣ i ∧ (∀ p, i ≤ p → p < i + 2 ^ k → Covers kind tile p) ∧
      (k < limit → ¬ ∀ p, parentBase i k ≤ p → p < parentBase i k + 2 ^ (k + 1) → Covers kind tile p) := by
  have positive := Nat.two_pow_pos k
  constructor
  · intro head
    have aligned : 2 ^ k ∣ i := tiles.aligned i _ head
    refine ⟨tiles.bounded i _ head, aligned, fun p low high => ⟨i, k, head, low, high⟩, ?_⟩
    intro room full
    obtain ⟨parentAligned, parentLow, parentHigh⟩ := parent_contains i k aligned
    obtain ⟨j, m, larger, headJ, lowJ, highJ⟩ :=
      coalesced_stretch limit region tile kind tiles coalesced (k + 1) (parentBase i k) room parentAligned full
    have same :=
      tiles_unique tiles i j i _ _ head headJ (Nat.le_refl i) (by simp only; omega) (by omega) (by simp only; omega)
    subst same
    have orders : k = m := by simpa using head.symm.trans headJ
    omega
  · rintro ⟨small, aligned, covered, maximal⟩
    obtain ⟨j, m, larger, head, low, high⟩ :=
      coalesced_stretch limit region tile kind tiles coalesced k i small aligned covered
    by_cases same : m = k
    · subst same
      have position : j = i := by omega
      exact position ▸ head
    · have bound : m ≤ limit := tiles.bounded j _ head
      obtain ⟨parentAligned, parentLow, parentHigh⟩ := parent_contains i k aligned
      -- The parent shares position i with the larger block, so it lies inside it.
      have parentAbove : j ≤ parentBase i k := by
        obtain ⟨d, rfl⟩ := (pow_dvd_pow 2 (by omega : k + 1 ≤ m)).trans (tiles.aligned j _ head)
        rw [parentBase, Nat.mul_comm]
        apply Nat.mul_le_mul_right
        exact (Nat.le_div_iff_mul_le (Nat.two_pow_pos _)).mpr (by rw [Nat.mul_comm]; exact low)
      have parentInside := aligned_nested (parentBase i k) j (k + 1) m parentAligned (tiles.aligned j _ head) (by omega)
        parentAbove (by omega)
      exact absurd (fun p lowP highP => ⟨j, m, head, by omega, by omega⟩) (maximal (by omega))

theorem coalesced_unique (limit : Nat) (region region' : Nat → Prop) (tile tile' : TileMap K) (kind : K)
    (tiles : Tiles limit region tile) (tiles' : Tiles limit region' tile')
    (coalesced : Coalesced limit kind tile) (coalesced' : Coalesced limit kind tile')
    (same : ∀ p, Covers kind tile p ↔ Covers kind tile' p) (i k : Nat) :
    tile i = some ⟨k, kind⟩ ↔ tile' i = some ⟨k, kind⟩ := by
  rw [coalesced_block_iff limit region tile kind tiles coalesced,
    coalesced_block_iff limit region' tile' kind tiles' coalesced']
  simp only [same]

-- Pages in blocks of one kind, counted by heads.
def weight (kind : K) : Option (Block K) → Nat
  | none => 0
  | some b => if b.kind = kind then 2 ^ b.order else 0

def pagesOf (n : Nat) (kind : K) (tile : TileMap K) : Nat := ∑ i ∈ Finset.range n, weight kind (tile i)

theorem pages_update (n h : Nat) (kind : K) (tile : TileMap K) (value : Option (Block K)) (inside : h < n) :
    pagesOf n kind (update tile h value) + weight kind (tile h) = pagesOf n kind tile + weight kind value := by
  have member : h ∈ Finset.range n := Finset.mem_range.mpr inside
  have after := Finset.add_sum_erase (Finset.range n) (fun i => weight kind (update tile h value i)) member
  have before := Finset.add_sum_erase (Finset.range n) (fun i => weight kind (tile i)) member
  have rest : ∑ i ∈ (Finset.range n).erase h, weight kind (update tile h value i) =
      ∑ i ∈ (Finset.range n).erase h, weight kind (tile i) := by
    apply Finset.sum_congr rfl
    intro i inErase
    rw [update_of_ne (Finset.ne_of_mem_erase inErase)]
  simp only [update_self, rest] at after
  simp only [pagesOf]
  omega

end X86OS.Tiling
