import X86OS.Mm.PageTables

set_option autoImplicit false

namespace X86OS.Paging

open Mem

theorem pages_apart (a b x : Nat) (alignedA : 0x1000 ∣ a) (alignedB : 0x1000 ∣ b) (other : a ≠ b) (inA : InPage a x) :
    ¬ InPage b x := by
  intro inB
  simp only [InPage] at inA inB
  omega

theorem write_frame (mem : Mem) (a j v x : Nat) (small : j < 1024) (outside : ¬ InPage a x) :
    mem.writeWord (a + 4 * j) v x = mem x := by
  apply write_word_frame
  simp only [InPage] at outside
  omega

theorem frame_of_congr (mem mem' : Mem) (pd k : Nat) (same : entry mem' pd k = entry mem pd k) :
    frameOf mem' pd k = frameOf mem pd k :=
  congrArg (· &&& pageMask) same

theorem small_congr (mem mem' : Mem) (pd k : Nat) (same : entry mem' pd k = entry mem pd k) : Small mem' pd k ↔
    Small mem pd k := by
  rw [Small, Small, same]

-- The tables of a directory are pages of their own.
structure OwnTables (mem : Mem) (pd : Nat) : Prop where
  apart : ∀ k, k < 1024 → Small mem pd k → p2v (frameOf mem pd k) ≠ pd
  distinct :
    ∀ k k', k < 1024 → k' < 1024 → Small mem pd k → Small mem pd k' → frameOf mem pd k = frameOf mem pd k' → k = k'

section Tables

variable {mem : Mem} {pd : Nat} (alignedPd : 0x1000 ∣ pd)

theorem translate_frame (mem mem' : Mem) (pd page : Nat) (inside : page < 2 ^ 20)
    (dir : ∀ x, InPage pd x → mem' x = mem x)
    (table : Small mem pd (page / 1024) → ∀ x, InPage (p2v (frameOf mem pd (page / 1024))) x → mem' x = mem x) :
    translate mem' pd page = translate mem pd page :=
  translate_congr mem mem' pd pd page (entry_congr _ _ _ _ (by omega) dir)
    (fun small => entry_congr _ _ _ _ (Nat.mod_lt _ (by decide)) (table small))

theorem own_congr (mem mem' : Mem) (pd : Nat) (own : OwnTables mem pd)
    (dir : ∀ k, k < 1024 → entry mem' pd k = entry mem pd k) :
    OwnTables mem' pd := by
  refine ⟨?_, ?_⟩
  · intro k smallK small
    rw [frame_of_congr _ _ _ _ (dir k smallK)]
    exact own.apart k smallK ((small_congr _ _ _ _ (dir k smallK)).mp small)
  · intro k k' smallK smallK' small small' same
    rw [frame_of_congr _ _ _ _ (dir k smallK), frame_of_congr _ _ _ _ (dir k' smallK')] at same
    exact own.distinct k k' smallK smallK' ((small_congr _ _ _ _ (dir k smallK)).mp small)
      ((small_congr _ _ _ _ (dir k' smallK')).mp small') same

theorem own_new_table (own : OwnTables mem pd) (k t flags : Nat) (alignedT : 0x1000 ∣ t) (boundT : t < 2 ^ 32)
    (low : flags < 0x1000) (apart : p2v t ≠ pd) (fresh : ∀ k', k' < 1024 → Small mem pd k' → frameOf mem pd k' ≠ t) :
    OwnTables (mem.writeWord (pd + 4 * k) (t ||| flags)) pd := by
  have frame : frameOf (mem.writeWord (pd + 4 * k) (t ||| flags)) pd k = t := by
    rw [frameOf, entry_here _ _ _ _ (entry_bound t flags alignedT boundT low), entry_frame t flags alignedT boundT low]
  have old (k' : Nat) (slot : k' ≠ k) (small : Small (mem.writeWord (pd + 4 * k) (t ||| flags)) pd k') :
      Small mem pd k' ∧ frameOf (mem.writeWord (pd + 4 * k) (t ||| flags)) pd k' = frameOf mem pd k' := by
    have word := entry_other mem pd k k' (t ||| flags) slot.symm
    exact ⟨(small_congr _ _ _ _ word).mp small, frame_of_congr _ _ _ _ word⟩
  refine ⟨?_, ?_⟩
  · intro k' smallK' small
    by_cases slot : k' = k
    · rw [slot, frame]
      exact apart
    · obtain ⟨was, kept⟩ := old k' slot small
      rw [kept]
      exact own.apart k' smallK' was
  · intro k1 k2 smallK1 smallK2 small1 small2 same
    by_cases slot1 : k1 = k
    · by_cases slot2 : k2 = k
      · rw [slot1, slot2]
      · obtain ⟨was, kept⟩ := old k2 slot2 small2
        rw [slot1, frame, kept] at same
        exact absurd same.symm (fresh k2 smallK2 was)
    · obtain ⟨was1, kept1⟩ := old k1 slot1 small1
      by_cases slot2 : k2 = k
      · rw [slot2, frame, kept1] at same
        exact absurd same (fresh k1 smallK1 was1)
      · obtain ⟨was2, kept2⟩ := old k2 slot2 small2
        rw [kept1, kept2] at same
        exact own.distinct k1 k2 smallK1 smallK2 was1 was2 same

include alignedPd

theorem dir_write_table (own : OwnTables mem pd) (k j v k' : Nat) (smallK : k < 1024) (smallJ : j < 1024)
    (small : Small mem pd k) (bound' : k' < 1024) :
    entry (mem.writeWord (p2v (frameOf mem pd k) + 4 * j) v) pd k' = entry mem pd k' :=
  entry_elsewhere _ _ _ _ _ _ (p2v_aligned _ (frame_of_page mem pd k).1) alignedPd
    (own.apart k smallK small) smallJ bound'

theorem translate_write_table (own : OwnTables mem pd) (k j v page : Nat) (smallK : k < 1024) (smallJ : j < 1024)
    (small : Small mem pd k) (bound : v < 2 ^ 32) (inside : page < 2 ^ 20) :
    translate (mem.writeWord (p2v (frameOf mem pd k) + 4 * j) v) pd page =
      if page = 1024 * k + j then leaf v else translate mem pd page := by
  have alignedTable := p2v_aligned _ (frame_of_page mem pd k).1
  have smallPage : page / 1024 < 1024 := by omega
  have dir := dir_write_table alignedPd own k j v (page / 1024) smallK smallJ small smallPage
  by_cases here : page = 1024 * k + j
  · have slot : page / 1024 = k := by omega
    have index : page % 1024 = j := by omega
    rw [slot] at dir
    rw [if_pos here, translate_small _ _ _ (by rw [slot]; exact (small_congr _ _ _ _ dir).mpr small), slot, index,
      frame_of_congr _ _ _ _ dir]
    exact congrArg leaf (entry_here _ _ _ _ bound)
  · rw [if_neg here]
    apply translate_congr _ _ _ _ _ dir
    intro smallOther
    by_cases slot : page / 1024 = k
    · rw [slot]
      exact entry_other _ _ _ _ _ (by omega)
    · refine entry_elsewhere _ _ _ _ _ _ alignedTable (p2v_aligned _ (frame_of_page _ _ _).1) ?_ smallJ
        (Nat.mod_lt _ (by decide))
      intro same
      have frames := p2v_inj _ _ (frame_of_page mem pd k).2 (frame_of_page mem pd (page / 1024)).2 same
      exact slot (own.distinct k _ smallK smallPage small smallOther frames).symm

-- The page `t` becomes the table of slot `k`; what stands in it counts as entries.
theorem translate_new_table (own : OwnTables mem pd) (k t flags page : Nat) (smallK : k < 1024) (alignedT : 0x1000 ∣ t)
    (boundT : t < 2 ^ 32) (low : flags < 0x1000) (present : isPresent flags = true) (small : isLarge flags = false)
    (apart : p2v t ≠ pd) (inside : page < 2 ^ 20) :
    translate (mem.writeWord (pd + 4 * k) (t ||| flags)) pd page =
      if page / 1024 = k then leaf (entry mem (p2v t) (page % 1024)) else translate mem pd page := by
  have bound := entry_bound t flags alignedT boundT low
  by_cases slot : page / 1024 = k
  · have word : entry (mem.writeWord (pd + 4 * k) (t ||| flags)) pd k = t ||| flags := entry_here _ _ _ _ bound
    have isSmall : Small (mem.writeWord (pd + 4 * k) (t ||| flags)) pd k := by
      rw [Small, word, entry_present _ _ alignedT, entry_large _ _ alignedT]
      exact ⟨present, small⟩
    rw [if_pos slot, translate_small _ _ _ (slot ▸ isSmall), slot, frameOf, word,
      entry_frame t flags alignedT boundT low]
    exact congrArg leaf
      (entry_elsewhere _ _ _ _ _ _ alignedPd (p2v_aligned _ alignedT) apart.symm smallK (Nat.mod_lt _ (by decide)))
  · rw [if_neg slot]
    apply translate_congr
    · exact entry_other _ _ _ _ _ (Ne.symm slot)
    · intro smallOther
      exact entry_elsewhere _ _ _ _ _ _ alignedPd (p2v_aligned _ (frame_of_page _ _ _).1)
        (own.apart _ (by omega) smallOther).symm smallK (Nat.mod_lt _ (by decide))

end Tables

-- The frames a source hands out, one after the other.
structure Frames where
  count : Nat
  addr : Nat → Nat
  aligned : ∀ m, m < count → 0x1000 ∣ addr m
  bounded : ∀ m, m < count → addr m < 2 ^ 32
  distinct : ∀ m n, m < count → n < count → addr m = addr n → m = n

variable {S : Type}

-- `Ready n s`: the first `n` frames are handed out in state `s`. `content n j` is word
-- `j` of frame `n` when it is handed out.
structure Supply (T : TableSource S) (F : Frames) where
  Ready : Nat → S → Prop
  content : Nat → Nat → Nat
  alloc : ∀ n s, Ready n s → n < F.count → ∃ s', T.alloc s = .ok (F.addr n, s') ∧ Ready (n + 1) s' ∧
    (∀ x, ¬ InPage (p2v (F.addr n)) x → T.mem s' x = T.mem s x) ∧
    ∀ j, j < 1024 → entry (T.mem s') (p2v (F.addr n)) j = content n j
  write : ∀ n s a v, Ready n s → 4 ∣ a → (∀ m, n ≤ m → m < F.count → ¬ InPage (p2v (F.addr m)) a) →
    Ready n (T.setMem s ((T.mem s).writeWord a v))

variable {T : TableSource S} {F : Frames}

-- The directory at `pd` and its tables are pages of their own, and no frame still to be
-- handed out is one of them.
structure Sound (supply : Supply T F) (pd n : Nat) (s : S) : Prop extends OwnTables (T.mem s) pd where
  ready : supply.Ready n s
  freshDir : ∀ m, n ≤ m → m < F.count → p2v (F.addr m) ≠ pd
  fresh : ∀ m k, n ≤ m → m < F.count → k < 1024 → Small (T.mem s) pd k → frameOf (T.mem s) pd k ≠ F.addr m

theorem set_entry_mem (s : S) (a j v : Nat) :
    T.mem (setEntry T s a j v) = (T.mem s).writeWord (a + 4 * j) v := T.memSet _ _

section Steps

variable {supply : Supply T F} {pd n : Nat} {s : S}

theorem ready_write (sound : Sound supply pd n s) (a j v : Nat) (aligned : 0x1000 ∣ a) (small : j < 1024)
    (apart : ∀ m, n ≤ m → m < F.count → p2v (F.addr m) ≠ a) : supply.Ready n (setEntry T s a j v) := by
  refine supply.write n s _ v sound.ready (by omega) ?_
  intro m reached inside inPage
  refine pages_apart _ _ _ aligned (p2v_aligned _ (F.aligned m inside)) (apart m reached inside).symm ⟨?_, ?_⟩ inPage
  · omega
  · omega

theorem sound_of_old (sound : Sound supply pd n s) (s' : S) (ready : supply.Ready n s')
    (old : ∀ k, k < 1024 → Small (T.mem s') pd k →
      Small (T.mem s) pd k ∧ frameOf (T.mem s') pd k = frameOf (T.mem s) pd k) :
    Sound supply pd n s' := by
  refine ⟨⟨?_, ?_⟩, ready, sound.freshDir, ?_⟩
  · intro k bound small
    rw [(old k bound small).2]
    exact sound.apart k bound (old k bound small).1
  · intro k k' bound bound' small small' same
    rw [(old k bound small).2, (old k' bound' small').2] at same
    exact sound.distinct k k' bound bound' (old k bound small).1 (old k' bound' small').1 same
  · intro m k reached inside bound small
    rw [(old k bound small).2]
    exact sound.fresh m k reached inside bound (old k bound small).1

variable (alignedPd : 0x1000 ∣ pd)

include alignedPd

theorem sound_large (sound : Sound supply pd n s) (k v : Nat) (smallK : k < 1024) (bound : v < 2 ^ 32)
    (large : isLarge v = true) :
    Sound supply pd n (setEntry T s pd k v) := by
  apply sound_of_old sound _ (ready_write sound pd k v alignedPd smallK sound.freshDir)
  intro k' bound' small
  rw [set_entry_mem] at small ⊢
  have differs : k ≠ k' := by
    rintro rfl
    rw [Small, entry_here _ _ _ _ bound, large] at small
    exact absurd small.2 (by decide)
  have same := entry_other (T.mem s) pd k k' v differs
  exact ⟨(small_congr _ _ _ _ same).mp small, frame_of_congr _ _ _ _ same⟩

theorem translate_set_large (sound : Sound supply pd n s) (k addr flag page : Nat) (smallK : k < 1024)
    (bound : addr < 2 ^ 32) (aligned : fourMb ∣ addr) (ok : LeafFlags flag) (inside : page < 2 ^ 20) :
    translate (T.mem (setEntry T s pd k (addr ||| pageSize4Mb ||| flag))) pd page =
      if page / 1024 = k then some (addr + 0x1000 * (page % 1024), flag) else translate (T.mem s) pd page := by
  obtain ⟨low, present, large, clear⟩ := large_flags flag ok
  have alignedPage : 0x1000 ∣ addr := Nat.dvd_trans (by decide) aligned
  rw [Nat.or_assoc, set_entry_mem]
  have sum := entry_bound addr _ alignedPage bound low
  by_cases here : page / 1024 = k
  · subst here
    have word := entry_here (T.mem s) pd (page / 1024) _ sum
    have base : (addr ||| (pageSize4Mb ||| flag)) &&& 0xFFC00000 = addr := by
      rw [show (0xFFC00000 : Nat) = 2 ^ 32 - 2 ^ 22 from rfl, Word.and_high_mask _ 22 sum (by decide),
        entry_add addr _ alignedPage low]
      simp only [fourMb] at aligned
      omega
    rw [if_pos rfl, translate]
    simp only [word, entry_present addr _ alignedPage, entry_large addr _ alignedPage, present, large, if_true, base,
      entry_flags addr _ alignedPage low, clear]
  · rw [if_neg here]
    have smallPage : page / 1024 < 1024 := by omega
    apply translate_congr
    · exact entry_other _ _ _ _ _ (Ne.symm here)
    · intro small
      exact entry_elsewhere _ _ _ _ _ _ alignedPd (p2v_aligned _ (frame_of_page _ _ _).1)
        (sound.apart _ smallPage small).symm smallK (Nat.mod_lt _ (by decide))

theorem dir_set_small (sound : Sound supply pd n s) (k j v k' : Nat) (smallK : k < 1024) (smallJ : j < 1024)
    (small : Small (T.mem s) pd k) (bound' : k' < 1024) :
    entry (T.mem (setEntry T s (p2v (frameOf (T.mem s) pd k)) j v)) pd k' = entry (T.mem s) pd k' := by
  rw [set_entry_mem]
  exact dir_write_table alignedPd ⟨sound.apart, sound.distinct⟩ k j v k' smallK smallJ small bound'

theorem sound_write (sound : Sound supply pd n s) (k j v : Nat) (smallK : k < 1024) (smallJ : j < 1024)
    (small : Small (T.mem s) pd k) : Sound supply pd n (setEntry T s (p2v (frameOf (T.mem s) pd k)) j v) := by
  have alignedTable := p2v_aligned _ (frame_of_page (T.mem s) pd k).1
  apply sound_of_old sound _ (ready_write sound _ j v alignedTable smallJ ?_)
  · intro k' bound' smallNow
    have same := dir_set_small alignedPd sound k j v k' smallK smallJ small bound'
    exact ⟨(small_congr _ _ _ _ same).mp smallNow, frame_of_congr _ _ _ _ same⟩
  · intro m reached inside same
    exact sound.fresh m k reached inside smallK small
      (p2v_inj _ _ (F.bounded m inside) (frame_of_page (T.mem s) pd k).2 same).symm

theorem translate_set_small (sound : Sound supply pd n s) (k j v page : Nat) (smallK : k < 1024) (smallJ : j < 1024)
    (small : Small (T.mem s) pd k) (bound : v < 2 ^ 32) (inside : page < 2 ^ 20) :
    translate (T.mem (setEntry T s (p2v (frameOf (T.mem s) pd k)) j v)) pd page =
      if page = 1024 * k + j then leaf v else translate (T.mem s) pd page := by
  rw [set_entry_mem]
  exact translate_write_table alignedPd ⟨sound.apart, sound.distinct⟩ k j v page smallK smallJ small bound inside

theorem open_table_spec (sound : Sound supply pd n s) (k flag : Nat) (smallK : k < 1024) (ok : LeafFlags flag)
    (absent : isPresent (entry (T.mem s) pd k) = false) (room : n < F.count) :
    ∃ s', openTable T pd k flag s = .ok s' ∧ Sound supply pd (n + 1) s' ∧
      entry (T.mem s') pd k = F.addr n ||| (pagePresent ||| pageRw ||| flag) ∧
      (∀ k', k' ≠ k → k' < 1024 → entry (T.mem s') pd k' = entry (T.mem s) pd k') ∧
      (∀ page, page < 2 ^ 20 → translate (T.mem s') pd page =
        if page / 1024 = k then leaf (supply.content n (page % 1024)) else translate (T.mem s) pd page) ∧
      ∀ x, ¬ InPage pd x → ¬ InPage (p2v (F.addr n)) x → T.mem s' x = T.mem s x := by
  obtain ⟨s1, allocated, ready1, frame1, content1⟩ := supply.alloc n s sound.ready room
  obtain ⟨lowFlags, presentFlags, smallFlags⟩ := table_flags flag ok
  have alignedF := F.aligned n room
  have alignedG := p2v_aligned _ alignedF
  have dirApart : p2v (F.addr n) ≠ pd := sound.freshDir n (Nat.le_refl n) room
  have value : F.addr n ||| pagePresent ||| pageRw ||| flag = F.addr n ||| (pagePresent ||| pageRw ||| flag) := by
    simp only [Nat.or_assoc]
  have bound := entry_bound (F.addr n) _ alignedF (F.bounded n room) lowFlags
  have absentWord : entry (T.mem s) pd k &&& pagePresent = 0 := by simpa [isPresent] using absent
  have dir1 (k' : Nat) (bound' : k' < 1024) : entry (T.mem s1) pd k' = entry (T.mem s) pd k' :=
    entry_congr _ _ _ _ bound' (fun x inPd => frame1 x (pages_apart _ _ x alignedPd alignedG dirApart.symm inPd))
  have own1 : OwnTables (T.mem s1) pd := own_congr _ _ _ ⟨sound.apart, sound.distinct⟩ dir1
  have fresh1 (k' : Nat) (bound' : k' < 1024) (small : Small (T.mem s1) pd k') :
      frameOf (T.mem s1) pd k' ≠ F.addr n := by
    rw [frame_of_congr _ _ _ _ (dir1 k' bound')]
    exact sound.fresh n k' (Nat.le_refl n) room bound' ((small_congr _ _ _ _ (dir1 k' bound')).mp small)
  refine ⟨setEntry T s1 pd k (F.addr n ||| (pagePresent ||| pageRw ||| flag)), ?_, ?_⟩
  · rw [openTable, if_pos absentWord]
    simp only [allocated, value]
  generalize pagePresent ||| pageRw ||| flag = flags at lowFlags presentFlags smallFlags bound
  have here := entry_here (T.mem s1) pd k _ bound
  have other (k' : Nat) (differs : k' ≠ k) (bound' : k' < 1024) :
      entry ((T.mem s1).writeWord (pd + 4 * k) (F.addr n ||| flags)) pd k' = entry (T.mem s) pd k' :=
    (entry_other (T.mem s1) pd k k' _ differs.symm).trans (dir1 k' bound')
  have own := own_new_table own1 k (F.addr n) flags alignedF (F.bounded n room) lowFlags dirApart fresh1
  rw [← set_entry_mem] at here own
  simp only [← set_entry_mem] at other
  have frameHere : frameOf (T.mem (setEntry T s1 pd k (F.addr n ||| flags))) pd k = F.addr n := by
    rw [frameOf, here, entry_frame _ _ alignedF (F.bounded n room) lowFlags]
  refine ⟨⟨own, ?_, ?_, ?_⟩, here, other, ?_, ?_⟩
  · refine supply.write (n + 1) s1 _ _ ready1 (by omega) ?_
    intro m reached inside inPage
    have mApart := sound.freshDir m (by omega) inside
    exact pages_apart _ _ _ alignedPd (p2v_aligned _ (F.aligned m inside)) mApart.symm ⟨by omega, by omega⟩ inPage
  · exact fun m reached inside => sound.freshDir m (by omega) inside
  · intro m k' reached inside bound' small
    by_cases same : k' = k
    · rw [same, frameHere]
      intro equal
      have := F.distinct n m room inside equal
      omega
    · rw [frame_of_congr _ _ _ _ (other k' same bound')]
      exact sound.fresh m k' (by omega) inside bound' ((small_congr _ _ _ _ (other k' same bound')).mp small)
  · intro page inside
    rw [set_entry_mem, translate_new_table alignedPd own1 k (F.addr n) flags page smallK alignedF (F.bounded n room)
      lowFlags presentFlags smallFlags dirApart inside, content1 _ (Nat.mod_lt _ (by decide))]
    -- The slots that were open have their tables elsewhere.
    have before : translate (T.mem s1) pd page = translate (T.mem s) pd page := by
      apply translate_frame _ _ _ _ inside
      · exact fun x inPd => frame1 x (pages_apart _ _ x alignedPd alignedG dirApart.symm inPd)
      · intro small x inTable
        have tableFresh : p2v (frameOf (T.mem s) pd (page / 1024)) ≠ p2v (F.addr n) := fun same =>
          sound.fresh n _ (Nat.le_refl n) room (by omega) small
            (p2v_inj _ _ (frame_of_page _ _ _).2 (F.bounded n room) same)
        exact frame1 x (pages_apart _ _ x (p2v_aligned _ (frame_of_page _ _ _).1) alignedG tableFresh inTable)
    rw [before]
  · intro x outsideDir outsideFrame
    rw [set_entry_mem, write_frame _ _ _ _ _ smallK outsideDir, frame1 x outsideFrame]

end Steps

end X86OS.Paging
