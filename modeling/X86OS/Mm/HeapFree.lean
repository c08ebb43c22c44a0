import X86OS.Mm.Heap

set_option autoImplicit false

namespace X86OS.Heap

open Function

variable {σ τ : Type}

-- The same heap in front of another page allocator.
def State.withPages (h : State σ) (s : τ) : State τ :=
  ⟨h.mem, s, h.freeBucket, h.first, h.last, h.memFree, h.memUsed, h.memMeta⟩

-- A step that does the same whatever the page allocator's state leaves it alone.
theorem pages_kept (step : State σ → State σ) (h : State σ)
    (blind : step (h.withPages h.pages) = (step h).withPages h.pages) :
    (step h).pages = h.pages := by
  have same := congrArg State.pages blind
  exact same

-- The two places are the same global of the heap.
structure SameRef (ref : HeadRef (State σ) Nat) (ref' : HeadRef (State τ) Nat) : Prop where
  load : ∀ h s, ref'.load (h.withPages s) = ref.load h
  store : ∀ h s v, ref'.store (h.withPages s) v = (ref.store h v).withPages s

theorem bucket_same (i : Nat) : SameRef (bucketRef i : HeadRef (State σ) Nat) (bucketRef i : HeadRef (State τ) Nat) :=
  ⟨fun _ _ => rfl, fun _ _ _ => rfl⟩

theorem first_same : SameRef (firstRef : HeadRef (State σ) Nat) (firstRef : HeadRef (State τ) Nat) :=
  ⟨fun _ _ => rfl, fun _ _ _ => rfl⟩

theorem links_pages (s : τ) : (links : Links (State σ) Nat).Simulated links (fun h => h.withPages s) id where
  next _ _ := (Option.map_id_apply).symm
  prev _ _ := (Option.map_id_apply).symm
  setNext h a v := by
    rw [Option.map_id_apply]
    rfl
  setPrev h a v := by
    rw [Option.map_id_apply]
    rfl

theorem first_next_same : SameRef (firstNextRef : HeadRef (State σ) Nat) (firstNextRef : HeadRef (State τ) Nat) := by
  refine ⟨fun _ _ => rfl, ?_⟩
  intro h s v
  have stored := set_next_if_simulated (links_pages s) h h.first v
  rw [Option.map_id_apply, Option.map_id_apply] at stored
  exact stored.symm

section Lists

variable (ref : HeadRef (State σ) Nat) (ref' : HeadRef (State τ) Nat) (same : SameRef ref ref') (h : State σ) (s : τ)

include same

theorem ref_pages : ref.Simulated ref' (fun h => h.withPages s) id where
  load h := by rw [Option.map_id_apply, same.load]
  store h v := by rw [Option.map_id_apply, same.store]

theorem push_node_pages (node : Nat) :
    pushNode links ref' node (h.withPages s) = (pushNode links ref node h).withPages s :=
  (push_node_simulated (links_pages s) (ref_pages ref ref' same s) h node).symm

theorem remove_node_pages (node : Nat) :
    removeNode links ref' node (h.withPages s) = (removeNode links ref node h).withPages s :=
  (remove_node_simulated (links_pages s) (ref_pages ref ref' same s) Function.injective_id h node).symm

end Lists

theorem absorb_pages (chunk node : Nat) (h : State σ) (s : τ) :
    absorb chunk node (h.withPages s) = (absorb chunk node h).withPages s := by
  have bucket : getBucketIndex (h.withPages s) chunk = getBucketIndex h chunk := rfl
  have lower (n : Nat) (h : State σ) : subFree n (h.withPages s) = (subFree n h).withPages s := rfl
  have size (h : State σ) : getChunkSize (h.withPages s) chunk = getChunkSize h chunk := rfl
  simp only [absorb, bucket, remove_node_pages _ _ (bucket_same _), size, lower, remove_node_pages _ _ first_next_same]
  rfl

-- What a call that ends in `h'` does to the page allocator, for any other allocator too:
-- nothing, or one release.
def FreesOnce (A : PageAllocator σ) (h h' : State σ)
    (call : (τ : Type) → PageAllocator τ → State τ → Except String (State τ)) : Prop :=
  (h'.pages = h.pages ∧ ∀ (τ : Type) (B : PageAllocator τ) (s : τ), call τ B (h.withPages s) = .ok (h'.withPages s)) ∨
    ∃ addr, h'.pages = A.free addr h.pages ∧
      ∀ (τ : Type) (B : PageAllocator τ) (s : τ), call τ B (h.withPages s) = .ok (h'.withPages (B.free addr s))

-- `return_page` up to the release.
def detach (f m l : Nat) (h : State σ) : State σ :=
  let h := subMeta headerSize (removeNode links firstRef m h)
  let h := subMeta (headerSize + minSize) (removeNode links firstNextRef f h)
  let h := if h.last = some l then { h with last := links.prev h l } else h
  subMeta (headerSize + minSize) (removeNode links firstNextRef l h)

theorem detach_pages (f m l : Nat) (h : State σ) (s : τ) :
    detach f m l (h.withPages s) = (detach f m l h).withPages s := by
  have lower (n : Nat) (h : State σ) : subMeta n (h.withPages s) = (subMeta n h).withPages s := rfl
  have last (h : State σ) : (if (h.withPages s).last = some l
      then { h.withPages s with last := links.prev (h.withPages s) l } else h.withPages s) =
      (if h.last = some l then { h with last := links.prev h l } else h).withPages s := by
    change (if h.last = some l then _ else _) = _
    split <;> rfl
  simp only [detach, remove_node_pages _ _ first_same, remove_node_pages _ _ first_next_same, lower, last]

theorem return_page_frees (A : PageAllocator σ) (f : Nat) (h h' : State σ) (done : returnPage A f h = .ok h') :
    FreesOnce A h h' (fun _ B => returnPage B f) := by
  rw [returnPage] at done
  split at done
  · cases done
  rename_i m nextF
  split at done
  · cases done
  rename_i l nextM
  have kept := pages_kept (detach f m l) h (detach_pages f m l h h.pages)
  have ended : h' = { detach f m l h with pages := A.free (v2p f) (detach f m l h).pages } := (Except.ok.inj done).symm
  refine .inr ⟨v2p f, by rw [ended, kept], ?_⟩
  intro τ B s
  have nextF' : links.next (h.withPages s) f = some m := nextF
  have nextM' : links.next (h.withPages s) m = some l := nextM
  have result : returnPage B f (h.withPages s) =
      .ok { detach f m l (h.withPages s) with pages := B.free (v2p f) (detach f m l (h.withPages s)).pages } := by
    rw [returnPage, nextF']
    simp only [nextM']
    rfl
  refine result.trans ?_
  rw [detach_pages, ended]
  rfl

theorem release_chunk_frees (A : PageAllocator σ) (chunk : Nat) (h h' : State σ)
    (done : releaseChunk A chunk h = .ok h') :
    FreesOnce A h h' (fun _ B => releaseChunk B chunk) := by
  have size (τ : Type) (s : τ) : getChunkSize (h.withPages s) chunk = getChunkSize h chunk := rfl
  have prev (τ : Type) (s : τ) : links.prev (h.withPages s) chunk = links.prev h chunk := rfl
  have first (τ : Type) (s : τ) : (h.withPages s).first = h.first := rfl
  rw [releaseChunk] at done
  simp only [FreesOnce, releaseChunk, size, prev, first]
  by_cases whole : getChunkSize h chunk = pageSize - 2 * (headerSize + minSize) - headerSize ∧
    links.prev h chunk ≠ h.first
  · simp only [if_pos whole] at done ⊢
    cases front : links.prev h chunk with
    | none =>
        rw [front] at done
        cases done
    | some f =>
        rw [front] at done
        exact return_page_frees A f h h' done
  · simp only [if_neg whole, Except.ok.injEq] at done ⊢
    have pushed (τ : Type) (s : τ) := push_node_pages _ _ (bucket_same (getBucketIndex (setUsed chunk false h) chunk))
      (setUsed chunk false h) s (chunk + headerSize)
    refine .inl ⟨?_, ?_⟩
    · rw [← done]
      exact pages_kept _ (setUsed chunk false h) (pushed σ h.pages)
    · intro τ B s
      rw [← done]
      exact congrArg (addFree (getChunkSize h chunk)) (pushed τ s)

theorem frees_once_after (A : PageAllocator σ) (h h1 h' : State σ)
    (call : (τ : Type) → PageAllocator τ → State τ → Except String (State τ))
    (call' : (τ : Type) → PageAllocator τ → State τ → Except String (State τ)) (kept : h1.pages = h.pages)
    (first : ∀ (τ : Type) (B : PageAllocator τ) (s : τ), call' τ B (h.withPages s) = call τ B (h1.withPages s))
    (frees : FreesOnce A h1 h' call) : FreesOnce A h h' call' := by
  rcases frees with ⟨same, all⟩ | ⟨addr, freed, all⟩
  · exact .inl ⟨same.trans kept, fun τ B s => (first τ B s).trans (all τ B s)⟩
  · exact .inr ⟨addr, kept ▸ freed, fun τ B s => (first τ B s).trans (all τ B s)⟩

theorem kfree_chunk_frees (A : PageAllocator σ) (chunk : Nat) (h h' : State σ) (done : kfreeChunk A chunk h = .ok h') :
    FreesOnce A h h' (fun _ B => kfreeChunk B chunk) := by
  rw [kfreeChunk] at done
  split at done
  · rename_i next prev isNext isPrev
    simp only at done
    generalize lowered : subUsed (getChunkSize h chunk) h = h1 at done
    have kept1 : h1.pages = h.pages := by
      rw [← lowered]
      rfl
    generalize merged : (if isUsed h1 next = true then h1 else absorb next next h1) = h2 at done
    have merges (τ : Type) (s : τ) :
        (if isUsed (h1.withPages s) next = true then h1.withPages s else absorb next next (h1.withPages s)) =
        h2.withPages s := by
      rw [← merged, absorb_pages]
      change (if isUsed h1 next = true then _ else _) = _
      split <;> rfl
    have kept2 : h2.pages = h1.pages := by
      have blind := merges σ h1.pages
      rw [← merged] at blind ⊢
      exact pages_kept (fun h => if isUsed h next = true then h else absorb next next h) h1 blind
    have call (τ : Type) (B : PageAllocator τ) (s : τ) : kfreeChunk B chunk (h.withPages s) =
        if isUsed (h2.withPages s) prev = true then releaseChunk B chunk (h2.withPages s)
        else releaseChunk B prev (absorb prev chunk (h2.withPages s)) := by
      have isNext' : links.next (h.withPages s) chunk = some next := isNext
      have isPrev' : links.prev (h.withPages s) chunk = some prev := isPrev
      have first : subUsed (getChunkSize (h.withPages s) chunk) (h.withPages s) = h1.withPages s := by
        rw [← lowered]
        rfl
      rw [kfreeChunk, isNext', isPrev']
      simp only [first, merges]
    by_cases used : isUsed h2 prev = true
    · rw [if_pos used] at done
      refine frees_once_after A h h2 h' _ _ (kept2.trans kept1) ?_ (release_chunk_frees A chunk h2 h' done)
      intro τ B s
      exact (call τ B s).trans (if_pos used)
    · rw [if_neg used] at done
      have kept3 := pages_kept (absorb prev chunk) h2 (absorb_pages prev chunk h2 h2.pages)
      refine frees_once_after A h (absorb prev chunk h2) h' _ _ (kept3.trans (kept2.trans kept1)) ?_
        (release_chunk_frees A prev _ h' done)
      intro τ B s
      exact (call τ B s).trans ((if_neg used).trans (congrArg _ (absorb_pages prev chunk h2 s)))
  · cases done

theorem kfree_frees (A : PageAllocator σ) (ptr : Nat) (h h' : State σ) (unaligned : ¬ isAligned ptr pageSize = true)
    (done : kfree A ptr h = .ok h') : FreesOnce A h h' (fun _ B => kfree B ptr) := by
  rw [kfree, if_neg unaligned] at done
  have frees := kfree_chunk_frees A _ h h' done
  simp only [FreesOnce, kfree, if_neg unaligned]
  exact frees

section Kept

variable (h : State σ)

theorem set_prev_if_kept (node value : Option Nat) : (links.setPrevIf h node value).pages = h.pages := by
  cases node <;> rfl

theorem insert_node_kept (prev node : Nat) : (insertNode links prev node h).pages = h.pages := by
  simp only [insertNode]
  split <;> rfl

theorem push_node_kept (i node : Nat) : (pushNode links (bucketRef i) node h).pages = h.pages := by
  simp only [pushNode]
  exact set_prev_if_kept _ _ _

theorem pop_node_kept (i : Nat) : (popNode links (bucketRef i) h).2.pages = h.pages := by
  rw [popNode]
  split
  · rfl
  · exact set_prev_if_kept _ _ _

theorem search_buckets_kept (fuel i : Nat) : (searchBuckets fuel i h).2.pages = h.pages := by
  induction fuel generalizing i with
  | zero => rfl
  | succ fuel ih =>
      rw [searchBuckets]
      split
      · split
        · have popped := pop_node_kept h i
          rw [popFreeChunk]
          split
          · rfl
          · split <;> rename_i found <;> rwa [found] at popped
        · exact ih (i + 1)
      · rfl

theorem split_chunk_kept (chunk allocSize chunkSize : Nat) :
    (splitChunk chunk allocSize chunkSize h).pages = h.pages := by
  have counted (n : Nat) (h : State σ) : (addFree n h).pages = h.pages := rfl
  have measured (n : Nat) (h : State σ) : (addMeta n h).pages = h.pages := rfl
  simp only [splitChunk]
  split
  · rw [counted, push_node_kept, measured, insert_node_kept, setUsed]
  · rfl

theorem take_chunk_kept (chunk allocSize : Nat) : (takeChunk chunk allocSize h).2.pages = h.pages := by
  have counted (n : Nat) (h : State σ) : (addUsed n h).pages = h.pages := rfl
  rw [takeChunk]
  simp only
  rw [counted, split_chunk_kept, subFree, setUsed]

theorem install_page_kept (f m l : Nat) : (installPage f m l h).pages = h.pages := by
  have formatted : (formatPage f m l h).pages = h.pages := by
    simp only [formatPage, insert_node_kept, setUsed]
  have linked (h : State σ) : (linkPage f l h).pages = h.pages := by
    rw [linkPage]
    split
    · rfl
    · split
      · rfl
      · exact insert_node_kept _ _ _
  rw [← formatted]
  simp only [installPage, linked, push_node_kept, addMeta, addFree]

end Kept

theorem kmalloc_takes (A : PageAllocator σ) (size : Nat) (h h' : State σ) (ptr : Option Nat) (small : size < 0x1000)
    (done : kmalloc A size h = .ok (ptr, h')) :
    h'.pages = h.pages ∨ ∃ addr, A.alloc 0 h.pages = .ok (addr, h'.pages) := by
  rw [kmalloc] at done
  split at done
  · cases done
    exact .inl rfl
  have below : (if size < minSize then minSize else size) < 0x1000 := by
    split
    · decide
    · exact small
  simp only [if_neg (Nat.not_le_of_lt below), kmallocChunk] at done
  generalize alignUp (if size < minSize then minSize else size) align = allocSize at done
  split at done
  · cases done
    exact .inl rfl
  have searched := search_buckets_kept h numSizes (getAllocOrder allocSize)
  split at done
  · rename_i chunk h1 found
    rw [found] at searched
    have taken := take_chunk_kept h1 chunk allocSize
    rw [Except.ok.inj done] at taken
    exact .inl (taken.trans searched)
  · rename_i h1 found
    rw [found] at searched
    split at done
    · cases done
    rename_i f h2 created
    rw [createChunk] at created
    split at created
    · cases created
    rename_i addr s' alloc
    simp only [Except.ok.injEq, Prod.mk.injEq] at created
    have grown : h2.pages = s' := by
      rw [← created.2]
      exact install_page_kept _ _ _ _
    have searched2 := search_buckets_kept h2 numSizes (getAllocOrder allocSize)
    split at done
    · rename_i chunk h3 found2
      rw [found2] at searched2
      have taken := take_chunk_kept h3 chunk allocSize
      rw [Except.ok.inj done] at taken
      have ended : h'.pages = s' := taken.trans (searched2.trans grown)
      refine .inr ⟨addr, ?_⟩
      rw [ended, ← alloc]
      exact congrArg _ searched.symm
    · cases done

end X86OS.Heap
