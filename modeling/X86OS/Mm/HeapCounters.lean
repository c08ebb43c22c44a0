import X86OS.Mm.HeapLayout
import Mathlib.Data.ZMod.Basic

set_option autoImplicit false

namespace X86OS.Heap

variable {σ : Type}

def words : Nat := 2 ^ 32

-- The three counters as 32-bit words: used, free and bookkeeping bytes.
abbrev Count : Type := ZMod words × ZMod words × ZMod words

def count (used free bookkeeping : Nat) : Count := (used, free, bookkeeping)

def counters (h : State σ) : Count := count h.memUsed h.memFree h.memMeta

theorem count_add (a b c a' b' c' : Nat) : count a b c + count a' b' c' = count (a + a') (b + b') (c + c') := by
  simp [count]

theorem word_add_cast (a b : Nat) : (Word.add a b : ZMod words) = a + b := by
  rw [Word.add, ← words, ZMod.natCast_mod, Nat.cast_add, add_comm]

theorem word_sub_cast (a b : Nat) : (Word.sub a b : ZMod words) = a - b := by
  have below : b % words ≤ words := Nat.le_of_lt (Nat.mod_lt _ (by decide))
  rw [Word.sub, ← words, ZMod.natCast_mod, Nat.cast_add, Nat.cast_sub below, ZMod.natCast_self, ZMod.natCast_mod]
  ring

theorem counters_add_free (n : Nat) (h : State σ) : counters (addFree n h) = counters h + count 0 n 0 := by
  simp [counters, count, addFree, word_add_cast]

theorem counters_sub_free (n : Nat) (h : State σ) : counters (subFree n h) = counters h - count 0 n 0 := by
  simp [counters, count, subFree, word_sub_cast]

theorem counters_add_used (n : Nat) (h : State σ) : counters (addUsed n h) = counters h + count n 0 0 := by
  simp [counters, count, addUsed, word_add_cast]

theorem counters_sub_used (n : Nat) (h : State σ) : counters (subUsed n h) = counters h - count n 0 0 := by
  simp [counters, count, subUsed, word_sub_cast]

theorem counters_add_meta (n : Nat) (h : State σ) : counters (addMeta n h) = counters h + count 0 0 n := by
  simp [counters, count, addMeta, word_add_cast]

theorem counters_sub_meta (n : Nat) (h : State σ) : counters (subMeta n h) = counters h - count 0 0 n := by
  simp [counters, count, subMeta, word_sub_cast]

def tallies (h : State σ) : Nat × Nat × Nat := (h.memUsed, h.memFree, h.memMeta)

theorem counters_of_tallies (h h' : State σ) (same : tallies h' = tallies h) : counters h' = counters h := by
  simp only [tallies, Prod.mk.injEq] at same
  simp only [counters, same]

theorem tallies_set_prev_if (h : State σ) (node value : Option Nat) :
    tallies (links.setPrevIf h node value) = tallies h := by
  cases node <;> rfl

theorem tallies_set_next_if (h : State σ) (node value : Option Nat) :
    tallies (links.setNextIf h node value) = tallies h := by
  cases node <;> rfl

theorem tallies_insert (prev node : Nat) (h : State σ) : tallies (insertNode links prev node h) = tallies h := by
  simp only [insertNode]
  split <;> rfl

theorem tallies_push (i node : Nat) (h : State σ) : tallies (pushNode links (bucketRef i) node h) = tallies h :=
  tallies_set_prev_if _ _ _

theorem tallies_unlink (node : Nat) (h : State σ) : tallies (unlinkNode links node h) = tallies h := by
  change tallies (links.setNextIf (links.setPrevIf h _ _) _ _) = tallies h
  rw [tallies_set_next_if, tallies_set_prev_if]

theorem tallies_pop (ref : HeadRef (State σ) Nat) (stored : ∀ h v, tallies (ref.store h v) = tallies h) (h : State σ) :
    tallies (popNode links ref h).2 = tallies h := by
  rw [popNode]
  split
  · rfl
  · exact (tallies_set_prev_if _ _ _).trans (stored _ _)

theorem tallies_remove (ref : HeadRef (State σ) Nat) (stored : ∀ h v, tallies (ref.store h v) = tallies h) (node : Nat)
    (h : State σ) : tallies (removeNode links ref node h) = tallies h := by
  rw [removeNode]
  split
  · exact tallies_pop ref stored h
  · exact tallies_unlink node h

theorem tallies_remove_bucket (i node : Nat) (h : State σ) :
    tallies (removeNode links (bucketRef i) node h) = tallies h :=
  tallies_remove (bucketRef i) (fun _ _ => rfl) node h

theorem tallies_remove_first (node : Nat) (h : State σ) : tallies (removeNode links firstRef node h) = tallies h :=
  tallies_remove firstRef (fun _ _ => rfl) node h

theorem tallies_remove_next (node : Nat) (h : State σ) : tallies (removeNode links firstNextRef node h) = tallies h :=
  tallies_remove firstNextRef (fun h v => tallies_set_next_if h h.first v) node h

theorem tallies_format (f m l : Nat) (h : State σ) : tallies (formatPage f m l h) = tallies h := by
  rw [formatPage, tallies_insert, tallies_insert]
  rfl

theorem tallies_link (f l : Nat) (h : State σ) : tallies (linkPage f l h) = tallies h := by
  rw [linkPage]
  split
  · rfl
  · split
    · rfl
    · exact tallies_insert _ _ h

theorem counters_set_used (chunk : Nat) (value : Bool) (h : State σ) :
    counters (setUsed chunk value h) = counters h := rfl

theorem counters_insert (prev node : Nat) (h : State σ) : counters (insertNode links prev node h) = counters h :=
  counters_of_tallies _ _ (tallies_insert prev node h)

theorem counters_push (i node : Nat) (h : State σ) : counters (pushNode links (bucketRef i) node h) = counters h :=
  counters_of_tallies _ _ (tallies_push i node h)

theorem counters_remove_bucket (i node : Nat) (h : State σ) :
    counters (removeNode links (bucketRef i) node h) = counters h :=
  counters_of_tallies _ _ (tallies_remove_bucket i node h)

theorem counters_remove_first (node : Nat) (h : State σ) : counters (removeNode links firstRef node h) = counters h :=
  counters_of_tallies _ _ (tallies_remove_first node h)

theorem counters_remove_next (node : Nat) (h : State σ) :
    counters (removeNode links firstNextRef node h) = counters h :=
  counters_of_tallies _ _ (tallies_remove_next node h)

-- What a chunk adds to the counters when they agree with the pages.
def weight (c : Chunk) : Count :=
  match c.status with
  | .used => count c.size 0 headerSize
  | .free => count 0 c.size headerSize
  | .hand => count 0 0 headerSize

def tally (list : List Chunk) : Count := (list.map weight).sum

def pageWeight (p : HeapPage) : Count := count 0 0 (2 * sizeofChunk) + tally p.chunks

def total (pages : List HeapPage) : Count := (pages.map pageWeight).sum

@[simp] theorem tally_nil : tally [] = 0 := rfl

@[simp] theorem tally_cons (c : Chunk) (list : List Chunk) : tally (c :: list) = weight c + tally list := by
  simp [tally]

@[simp] theorem tally_append (left right : List Chunk) : tally (left ++ right) = tally left + tally right := by
  simp [tally]

@[simp] theorem total_nil : total [] = 0 := rfl

@[simp] theorem total_cons (p : HeapPage) (pages : List HeapPage) :
    total (p :: pages) = pageWeight p + total pages := by
  simp [total]

@[simp] theorem total_append (pages pages' : List HeapPage) : total (pages ++ pages') = total pages + total pages' := by
  simp [total]

theorem page_weight_split (p : HeapPage) (left mid right : List Chunk) (split : p.chunks = left ++ mid ++ right) :
    pageWeight p = count 0 0 (2 * sizeofChunk) + (tally left + tally mid + tally right) := by
  rw [pageWeight, split, tally_append, tally_append]

theorem total_edit (before after : List HeapPage) (p p' : HeapPage) (left mid mid' right : List Chunk)
    (split : p.chunks = left ++ mid ++ right) (split' : p'.chunks = left ++ mid' ++ right) :
    total (before ++ p' :: after) + tally mid = total (before ++ p :: after) + tally mid' := by
  simp only [total_append, total_cons, page_weight_split p left mid right split,
    page_weight_split p' left mid' right split']
  abel

-- Each counter is a 32-bit word.
structure Words (h : State σ) : Prop where
  used : h.memUsed < 2 ^ 32
  free : h.memFree < 2 ^ 32
  bookkeeping : h.memMeta < 2 ^ 32

theorem cast_inj (a b : Nat) (smallA : a < 2 ^ 32) (smallB : b < 2 ^ 32) (same : (a : ZMod words) = b) : a = b := by
  have equal := (ZMod.natCast_eq_natCast_iff' a b words).mp same
  rwa [Heap.words, Nat.mod_eq_of_lt smallA, Nat.mod_eq_of_lt smallB] at equal

theorem counters_inj (h h' : State σ) (words : Words h) (words' : Words h') (same : counters h = counters h') :
    tallies h = tallies h' := by
  obtain ⟨used, rest⟩ := Prod.mk.inj same
  obtain ⟨free, bookkeeping⟩ := Prod.mk.inj rest
  rw [tallies, tallies, cast_inj _ _ words.used words'.used used, cast_inj _ _ words.free words'.free free,
    cast_inj _ _ words.bookkeeping words'.bookkeeping bookkeeping]

theorem word_add_lt (a b : Nat) : Word.add a b < 2 ^ 32 := by
  rw [Word.add]
  exact Nat.mod_lt _ (by decide)

theorem word_sub_lt (a b : Nat) : Word.sub a b < 2 ^ 32 := by
  rw [Word.sub]
  exact Nat.mod_lt _ (by decide)

theorem words_same (h h' : State σ) (same : tallies h' = tallies h) (words : Words h) : Words h' := by
  simp only [tallies, Prod.mk.injEq] at same
  exact ⟨same.1 ▸ words.used, same.2.1 ▸ words.free, same.2.2 ▸ words.bookkeeping⟩

theorem words_add_free (n : Nat) (h : State σ) (words : Words h) : Words (addFree n h) :=
  { words with free := word_add_lt _ _ }
theorem words_sub_free (n : Nat) (h : State σ) (words : Words h) : Words (subFree n h) :=
  { words with free := word_sub_lt _ _ }
theorem words_add_used (n : Nat) (h : State σ) (words : Words h) : Words (addUsed n h) :=
  { words with used := word_add_lt _ _ }
theorem words_sub_used (n : Nat) (h : State σ) (words : Words h) : Words (subUsed n h) :=
  { words with used := word_sub_lt _ _ }
theorem words_add_meta (n : Nat) (h : State σ) (words : Words h) : Words (addMeta n h) :=
  { words with bookkeeping := word_add_lt _ _ }
theorem words_sub_meta (n : Nat) (h : State σ) (words : Words h) : Words (subMeta n h) :=
  { words with bookkeeping := word_sub_lt _ _ }

theorem create_chunk_words (A : PageAllocator σ) (f : Nat) (h h' : State σ) (words : Words h)
    (done : createChunk A h = .ok (f, h')) : Words h' := by
  rw [createChunk] at done
  split at done
  · cases done
  · next addr pages _ =>
      simp only [Except.ok.injEq, Prod.mk.injEq] at done
      rw [← done.2]
      have start : Words { h with pages := pages } := words_same h _ rfl words
      have formatted := words_same _ _ (tallies_format (p2v addr) (Word.add (p2v addr) sizeofChunk)
        (Word.sub (Word.add (p2v addr) pageSize) sizeofChunk) { h with pages := pages }) start
      refine words_same _ _ (tallies_link _ _ _) (words_same _ _ (tallies_push _ _ _) ?_)
      exact words_add_free _ _ (words_add_meta _ _ (words_add_meta _ _ (words_add_meta _ _ formatted)))

theorem search_buckets_tallies (fuel i : Nat) (h : State σ) : tallies (searchBuckets fuel i h).2 = tallies h := by
  induction fuel generalizing i with
  | zero => rfl
  | succ fuel ih =>
      rw [searchBuckets]
      split
      · split
        · rw [popFreeChunk]
          split
          · rfl
          · have popped := tallies_pop (bucketRef i) (fun _ _ => rfl) h
            split <;> next found => rwa [found] at popped
        · exact ih (i + 1)
      · rfl

theorem take_chunk_words (chunk allocSize : Nat) (h : State σ) (words : Words h) :
    Words (takeChunk chunk allocSize h).2 := by
  rw [takeChunk]
  apply words_add_used
  have start : Words (subFree (getChunkSize (setUsed chunk true h) chunk) (setUsed chunk true h)) :=
    words_sub_free _ _ (words_same h _ rfl words)
  rw [splitChunk]
  generalize subFree (getChunkSize (setUsed chunk true h) chunk) (setUsed chunk true h) = g at start
  split
  · refine words_add_free _ _
      (words_same _ _ (tallies_push _ _ _) (words_add_meta _ _ (words_same _ _ (tallies_insert _ _ _) ?_)))
    exact words_same g _ rfl start
  · exact start

theorem kmalloc_pages_words (A : PageAllocator σ) (size : Nat) (h h' : State σ) (result : Option Nat) (words : Words h)
    (done : kmallocPages A size h = .ok (result, h')) : Words h' := by
  rw [kmallocPages] at done
  split at done
  · cases done
  · simp only at done
    split at done
    · cases done
      exact words_same h _ rfl words
    · cases done
      exact words_add_used _ _ (words_same h _ rfl words)

theorem kmalloc_chunk_words (A : PageAllocator σ) (size : Nat) (h h' : State σ) (result : Option Nat) (words : Words h)
    (done : kmallocChunk A size h = .ok (result, h')) : Words h' := by
  have served (g g' : State σ) (order chunk : Nat) (wordsG : Words g)
      (found : searchBuckets numSizes order g = (some chunk, g'))
      (taken : takeChunk chunk (alignUp size align) g' = (result, h')) : Words h' := by
    have searched := words_same _ _ (search_buckets_tallies numSizes order g) wordsG
    rw [found] at searched
    have last := take_chunk_words chunk (alignUp size align) g' searched
    rwa [taken] at last
  rw [kmallocChunk] at done
  split at done
  · cases done
    exact words
  · split at done
    · next found => exact served h _ _ _ words found (Except.ok.inj done)
    · next found =>
        have searched := words_same _ _ (search_buckets_tallies numSizes (getAllocOrder (alignUp size align)) h) words
        rw [found] at searched
        split at done
        · cases done
        · next created =>
            have grown := create_chunk_words A _ _ _ searched created
            split at done
            · next again => exact served _ _ _ _ grown again (Except.ok.inj done)
            · cases done

theorem kmalloc_words (A : PageAllocator σ) (size : Nat) (h h' : State σ) (result : Option Nat) (words : Words h)
    (done : kmalloc A size h = .ok (result, h')) : Words h' := by
  rw [kmalloc] at done
  by_cases zero : size ≤ 0
  · rw [if_pos zero] at done
    cases done
    exact words
  · rw [if_neg zero] at done
    generalize (if size < minSize then minSize else size) = size' at done
    by_cases large : size' ≥ 0x1000
    · exact kmalloc_pages_words A size' h h' result words (by simpa only [if_pos large] using done)
    · exact kmalloc_chunk_words A size' h h' result words (by simpa only [if_neg large] using done)

theorem absorb_words (chunk node : Nat) (h : State σ) (words : Words h) : Words (absorb chunk node h) := by
  rw [absorb]
  exact words_sub_meta _ _ (words_same _ _ (tallies_remove_next _ _) (words_sub_free _ _
    (words_same _ _ (tallies_remove_bucket _ _ _) words)))

theorem return_page_words (A : PageAllocator σ) (f : Nat) (h h' : State σ) (words : Words h)
    (done : returnPage A f h = .ok h') :
    Words h' := by
  cases nextF : links.next h f with
  | none => simp [returnPage, nextF] at done
  | some m =>
      cases nextM : links.next h m with
      | none => simp [returnPage, nextF, nextM] at done
      | some l =>
          have skipped (g : State σ) :
              tallies (if g.last = some l then { g with last := links.prev g l } else g) = tallies g := by
            split <;> rfl
          have first := words_sub_meta headerSize _ (words_same _ _ (tallies_remove_first m h) words)
          have second := words_sub_meta (headerSize + minSize) _ (words_same _ _ (tallies_remove_next f _) first)
          have third := words_sub_meta (headerSize + minSize) _
            (words_same _ _ (tallies_remove_next l _) (words_same _ _ (skipped _) second))
          simp only [returnPage, nextF, nextM, Except.ok.injEq] at done
          rw [← done]
          generalize subMeta _ _ = g at third
          exact words_same g _ rfl third

theorem release_chunk_words (A : PageAllocator σ) (chunk : Nat) (h h' : State σ) (words : Words h)
    (done : releaseChunk A chunk h = .ok h') : Words h' := by
  rw [releaseChunk] at done
  simp only at done
  split at done
  · split at done
    · cases done
    · exact return_page_words A _ h h' words done
  · cases done
    exact words_add_free _ _ (words_same _ _ (tallies_push _ _ _) (words_same h _ rfl words))

theorem kfree_chunk_words (A : PageAllocator σ) (chunk : Nat) (h h' : State σ) (words : Words h)
    (done : kfreeChunk A chunk h = .ok h') : Words h' := by
  rw [kfreeChunk] at done
  split at done
  · next following preceding _ _ =>
      have start := words_sub_used (getChunkSize h chunk) h words
      have merged : Words (if isUsed (subUsed (getChunkSize h chunk) h) following then subUsed (getChunkSize h chunk) h
          else absorb following following (subUsed (getChunkSize h chunk) h)) := by
        split
        · exact start
        · exact absorb_words following following _ start
      simp only at done
      generalize (if isUsed (subUsed (getChunkSize h chunk) h) following then subUsed (getChunkSize h chunk) h
          else absorb following following (subUsed (getChunkSize h chunk) h)) = g at done merged
      split at done
      · exact release_chunk_words A _ _ h' merged done
      · exact release_chunk_words A _ _ h' (absorb_words _ _ _ merged) done
  · cases done

theorem kfree_words (A : PageAllocator σ) (ptr : Nat) (h h' : State σ) (words : Words h)
    (done : kfree A ptr h = .ok h') :
    Words h' := by
  rw [kfree] at done
  split at done
  · cases done
    exact words_same (subUsed (1 <<< (A.orderAddr h.pages (v2p ptr) + baseShift)) h) _ rfl (words_sub_used _ h words)
  · exact kfree_chunk_words A _ h h' words done

end X86OS.Heap
