import X86OS.Mm.Heap

set_option autoImplicit false

namespace X86OS.Heap

-- `hand` marks a chunk that a call of kmalloc or kfree is working on: it is in the list
-- of all chunks, in no bucket, and its `used` byte says nothing.
inductive Status where
  | free
  | used
  | hand
deriving DecidableEq

structure Chunk where
  addr : Nat
  size : Nat
  status : Status
deriving DecidableEq

-- The chunks follow each other without a gap from one address to another, and every
-- size is a multiple of 4 and at least 8.
def Laid : Nat → List Chunk → Nat → Prop
  | start, [], stop => start = stop
  | start, c :: rest, stop =>
      c.addr = start ∧ 4 ∣ c.size ∧ minSize ≤ c.size ∧ Laid (start + headerSize + c.size) rest stop

-- One page of the heap: the front sentinel in its first 20 bytes, the end sentinel in
-- its last 20 bytes, chunks in between.
structure HeapPage where
  base : Nat
  chunks : List Chunk
  aligned : 0x1000 ∣ base
  high : kernelVirtualBase ≤ base
  fits : base + pageSize ≤ 2 ^ 32
  laid : Laid (base + sizeofChunk) chunks (base + (pageSize - sizeofChunk))

namespace HeapPage

def last (p : HeapPage) : Nat := p.base + (pageSize - sizeofChunk)

def cells (p : HeapPage) : List Nat := p.base :: (p.chunks.map Chunk.addr ++ [p.last])

-- The stretches of bytes the cells of a page occupy, as (address, length).
def extents (p : HeapPage) : List (Nat × Nat) :=
  (p.base, sizeofChunk) :: (p.chunks.map (fun c => (c.addr, headerSize + c.size)) ++ [(p.last, sizeofChunk)])

end HeapPage

def cells (pages : List HeapPage) : List Nat := pages.flatMap HeapPage.cells

def chunks (pages : List HeapPage) : List Chunk := pages.flatMap HeapPage.chunks

def extents (pages : List HeapPage) : List (Nat × Nat) := pages.flatMap HeapPage.extents

theorem laid_append (start stop : Nat) (before after : List Chunk) :
    Laid start (before ++ after) stop ↔ ∃ middle, Laid start before middle ∧ Laid middle after stop := by
  induction before generalizing start with
  | nil => simp [Laid]
  | cons c before ih =>
      simp only [List.cons_append, Laid, ih]
      constructor
      · rintro ⟨addr, four, least, middle, front, back⟩
        exact ⟨middle, ⟨addr, four, least, front⟩, back⟩
      · rintro ⟨middle, ⟨addr, four, least, front⟩, back⟩
        exact ⟨addr, four, least, middle, front, back⟩

theorem laid_replace (start stop : Nat) (left mid mid' right : List Chunk)
    (laid : Laid start (left ++ mid ++ right) stop) (same : ∀ a b, Laid a mid b → Laid a mid' b) :
    Laid start (left ++ mid' ++ right) stop := by
  obtain ⟨middle, front, back⟩ := (laid_append start stop (left ++ mid) right).mp laid
  obtain ⟨place, before, run⟩ := (laid_append start middle left mid).mp front
  exact (laid_append _ _ _ _).mpr ⟨middle, (laid_append _ _ _ _).mpr ⟨place, before, same place middle run⟩, back⟩

namespace HeapPage

-- The same page with other chunks.
def withChunks (p : HeapPage) (chunks : List Chunk)
    (laid : Laid (p.base + sizeofChunk) chunks (p.base + (pageSize - sizeofChunk))) : HeapPage :=
  { p with chunks := chunks, laid := laid }

-- The same page with the run `mid` of its chunks replaced by `mid'`.
def replace (p : HeapPage) (left mid mid' right : List Chunk) (split : p.chunks = left ++ mid ++ right)
    (same : ∀ a b, Laid a mid b → Laid a mid' b) : HeapPage :=
  p.withChunks (left ++ mid' ++ right) (laid_replace _ _ left mid mid' right (split ▸ p.laid) same)

end HeapPage

theorem laid_le (start stop : Nat) (list : List Chunk) (laid : Laid start list stop) : start ≤ stop := by
  induction list generalizing start with
  | nil => exact Nat.le_of_eq laid
  | cons c list ih =>
      have := ih _ laid.2.2.2
      omega

theorem laid_split (start stop : Nat) (before after : List Chunk) (c : Chunk)
    (laid : Laid start (before ++ c :: after) stop) :
    Laid start before c.addr ∧ 4 ∣ c.size ∧ minSize ≤ c.size ∧ Laid (c.addr + headerSize + c.size) after stop := by
  obtain ⟨middle, front, addr, four, least, back⟩ := (laid_append start stop before (c :: after)).mp laid
  subst addr
  exact ⟨front, four, least, back⟩

theorem laid_bounds (start stop : Nat) (list : List Chunk) (laid : Laid start list stop) (c : Chunk)
    (member : c ∈ list) :
    start ≤ c.addr ∧ 4 ∣ c.size ∧ minSize ≤ c.size ∧ c.addr + headerSize + c.size ≤ stop := by
  obtain ⟨before, after, rfl⟩ := List.append_of_mem member
  obtain ⟨front, four, least, back⟩ := laid_split start stop before after c laid
  exact ⟨laid_le _ _ _ front, four, least, laid_le _ _ _ back⟩

theorem laid_head (start stop : Nat) (list : List Chunk) (laid : Laid start list stop) :
    (list.map Chunk.addr ++ [stop]).head? = some start := by
  cases list with
  | nil => exact congrArg some laid.symm
  | cons c list => exact congrArg some laid.1

theorem laid_aligned (start stop : Nat) (list : List Chunk) (laid : Laid start list stop) (four : 4 ∣ start)
    (c : Chunk) (member : c ∈ list) : 4 ∣ c.addr := by
  induction list generalizing start with
  | nil => cases member
  | cons d list ih =>
      obtain ⟨addr, size, -, rest⟩ := laid
      rcases List.mem_cons.mp member with rfl | inRest
      · exact addr ▸ four
      · apply ih _ rest _ inRest
        have header : 4 ∣ headerSize := by decide
        exact Nat.dvd_add (Nat.dvd_add four header) size

-- Two stretches of bytes do not meet.
def Disjoint (x y : Nat × Nat) : Prop := x.1 + x.2 ≤ y.1 ∨ y.1 + y.2 ≤ x.1

instance : Std.Symm Disjoint := ⟨fun _ _ => Or.symm⟩

theorem laid_extents (start stop : Nat) (list : List Chunk) (laid : Laid start list stop) :
    (list.map (fun c => (c.addr, headerSize + c.size))).Pairwise Disjoint := by
  induction list generalizing start with
  | nil => exact List.Pairwise.nil
  | cons c list ih =>
      refine List.Pairwise.cons ?_ (ih _ laid.2.2.2)
      intro e member
      obtain ⟨d, inList, rfl⟩ := List.mem_map.mp member
      have bounds := laid_bounds _ _ _ laid.2.2.2 d inList
      left
      simp only [laid.1]
      omega

namespace HeapPage

theorem extent_inside (p : HeapPage) (e : Nat × Nat) (member : e ∈ p.extents) :
    p.base ≤ e.1 ∧ sizeofChunk ≤ e.2 ∧ e.1 + e.2 ≤ p.base + pageSize := by
  simp only [extents, List.mem_cons, List.mem_append, List.mem_map, List.not_mem_nil, or_false] at member
  rcases member with rfl | ⟨c, inChunks, rfl⟩ | rfl
  · simp [sizeofChunk, pageSize]
  · have bounds := laid_bounds _ _ _ p.laid c inChunks
    simp only [sizeofChunk, headerSize, minSize, pageSize] at bounds ⊢
    omega
  · simp [last, sizeofChunk, pageSize]

theorem extents_apart (p : HeapPage) : p.extents.Pairwise Disjoint := by
  refine List.Pairwise.cons ?_ (List.pairwise_append.mpr ⟨laid_extents _ _ _ p.laid, List.pairwise_singleton _ _, ?_⟩)
  · intro e member
    left
    simp only [List.mem_append, List.mem_map, List.mem_singleton] at member
    rcases member with ⟨c, inChunks, rfl⟩ | rfl
    · exact (laid_bounds _ _ _ p.laid c inChunks).1
    · simp [last, sizeofChunk, pageSize]
  · intro e member e' member'
    left
    obtain ⟨c, inChunks, rfl⟩ := List.mem_map.mp member
    rw [List.mem_singleton.mp member']
    have bounds := laid_bounds _ _ _ p.laid c inChunks
    simp only [last]
    omega

theorem cells_eq (p : HeapPage) : p.cells = p.extents.map Prod.fst := by
  simp [cells, extents]

end HeapPage

theorem cells_eq (pages : List HeapPage) : cells pages = (extents pages).map Prod.fst := by
  have each : HeapPage.cells = fun p => p.extents.map Prod.fst := funext HeapPage.cells_eq
  simp only [cells, extents, List.map_flatMap, each]

-- Distinct pages are a page apart, so the stretches of all pages are disjoint.
theorem extents_apart (pages : List HeapPage) (distinct : (pages.map HeapPage.base).Nodup) :
    (extents pages).Pairwise Disjoint := by
  induction pages with
  | nil => exact List.Pairwise.nil
  | cons p pages ih =>
      simp only [List.map_cons, List.nodup_cons] at distinct
      simp only [extents, List.flatMap_cons]
      refine List.pairwise_append.mpr ⟨p.extents_apart, ih distinct.2, ?_⟩
      intro e member e' member'
      obtain ⟨q, inPages, inQ⟩ := List.mem_flatMap.mp member'
      have other : p.base ≠ q.base := fun same => distinct.1 (same ▸ List.mem_map_of_mem inPages)
      have insideP := p.extent_inside e member
      have insideQ := q.extent_inside e' inQ
      have alignedP := p.aligned
      have alignedQ := q.aligned
      simp only [Disjoint, pageSize] at *
      omega

theorem extents_disjoint (pages : List HeapPage) (distinct : (pages.map HeapPage.base).Nodup) (e e' : Nat × Nat)
    (member : e ∈ extents pages) (member' : e' ∈ extents pages) (other : e ≠ e') : Disjoint e e' :=
  (extents_apart pages distinct).forall member member' other

theorem chunk_extent (pages : List HeapPage) (c : Chunk) (member : c ∈ chunks pages) :
    (c.addr, headerSize + c.size) ∈ extents pages := by
  obtain ⟨p, inPages, inChunks⟩ := List.mem_flatMap.mp member
  refine List.mem_flatMap.mpr ⟨p, inPages, ?_⟩
  simp only [HeapPage.extents, List.mem_cons, List.mem_append, List.mem_map]
  exact .inr (.inl ⟨c, inChunks, rfl⟩)

theorem front_extent (pages : List HeapPage) (p : HeapPage) (member : p ∈ pages) :
    (p.base, sizeofChunk) ∈ extents pages :=
  List.mem_flatMap.mpr ⟨p, member, by simp [HeapPage.extents]⟩

theorem last_extent (pages : List HeapPage) (p : HeapPage) (member : p ∈ pages) :
    (p.last, sizeofChunk) ∈ extents pages :=
  List.mem_flatMap.mpr ⟨p, member, by simp [HeapPage.extents]⟩

theorem extent_cases (pages : List HeapPage) (e : Nat × Nat) (member : e ∈ extents pages) :
    (∃ c ∈ chunks pages, e = (c.addr, headerSize + c.size)) ∨
      ∃ p ∈ pages, e = (p.base, sizeofChunk) ∨ e = (p.last, sizeofChunk) := by
  obtain ⟨p, inPages, inP⟩ := List.mem_flatMap.mp member
  simp only [HeapPage.extents, List.mem_cons, List.mem_append, List.mem_map, List.not_mem_nil, or_false] at inP
  rcases inP with rfl | ⟨c, inChunks, rfl⟩ | rfl
  · exact .inr ⟨p, inPages, .inl rfl⟩
  · exact .inl ⟨c, List.mem_flatMap.mpr ⟨p, inPages, inChunks⟩, rfl⟩
  · exact .inr ⟨p, inPages, .inr rfl⟩

theorem extent_bounds (pages : List HeapPage) (e : Nat × Nat) (member : e ∈ extents pages) :
    kernelVirtualBase ≤ e.1 ∧ sizeofChunk ≤ e.2 ∧ e.1 + e.2 ≤ 2 ^ 32 := by
  obtain ⟨p, -, inP⟩ := List.mem_flatMap.mp member
  have inside := p.extent_inside e inP
  have high := p.high
  have fits := p.fits
  exact ⟨by omega, inside.2.1, by omega⟩

theorem mem_cells (pages : List HeapPage) (a : Nat) : a ∈ cells pages ↔ ∃ n, (a, n) ∈ extents pages := by
  rw [cells_eq]
  simp

theorem cells_nodup (pages : List HeapPage) (distinct : (pages.map HeapPage.base).Nodup) : (cells pages).Nodup := by
  rw [cells_eq, List.Nodup, List.pairwise_map]
  apply List.Pairwise.imp_of_mem _ (extents_apart pages distinct)
  intro e e' member member' apart
  have bounds := extent_bounds pages e member
  have bounds' := extent_bounds pages e' member'
  simp only [Disjoint, sizeofChunk] at *
  omega

theorem chunk_unique (pages : List HeapPage) (distinct : (pages.map HeapPage.base).Nodup) (c d : Chunk)
    (memberC : c ∈ chunks pages) (memberD : d ∈ chunks pages) (same : c.addr = d.addr) : c = d := by
  obtain ⟨p, inPages, inP⟩ := List.mem_flatMap.mp memberC
  obtain ⟨q, inPages', inQ⟩ := List.mem_flatMap.mp memberD
  have boundsC := laid_bounds _ _ _ p.laid c inP
  have boundsD := laid_bounds _ _ _ q.laid d inQ
  have alignedP := p.aligned
  have alignedQ := q.aligned
  have samePage : p = q := by
    apply List.inj_on_of_nodup_map distinct inPages inPages'
    simp only [sizeofChunk, headerSize, minSize, pageSize] at boundsC boundsD
    omega
  subst samePage
  by_contra other
  have apart := (List.pairwise_map.mp (laid_extents _ _ _ p.laid)).forall inP inQ other
  simp only [Disjoint, headerSize] at apart
  omega

theorem sentinel_not_chunk (pages : List HeapPage) (p : HeapPage) (c : Chunk) (memberC : c ∈ chunks pages) :
    p.base ≠ c.addr ∧ p.last ≠ c.addr := by
  obtain ⟨q, inPages, inQ⟩ := List.mem_flatMap.mp memberC
  have bounds := laid_bounds _ _ _ q.laid c inQ
  have alignedP := p.aligned
  have alignedQ := q.aligned
  simp only [HeapPage.last, sizeofChunk, headerSize, minSize, pageSize] at *
  constructor <;> omega

end X86OS.Heap
