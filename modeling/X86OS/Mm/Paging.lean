import X86OS.Mm.Bump
import X86OS.Mm.Heap

set_option autoImplicit false

namespace X86OS.Paging

def pageMask : Nat := 0xFFFFF000
def fourMb : Nat := 0x400000
def pagePresent : Nat := 0x1
def pageRw : Nat := 0x2
def pageUser : Nat := 0x4
def pageWriteThrough : Nat := 0x8
def pageNoCache : Nat := 0x10
def pageSize4Mb : Nat := 0x80

-- The memory a mapping loop writes and the allocator it takes page tables from.
-- `early_map_range` and `map_range` differ in nothing else.
structure TableSource (S : Type) where
  mem : S → Mem
  setMem : S → Mem → S
  alloc : S → Except String (Nat × S)
  memSet : ∀ s m, mem (setMem s m) = m

def bumpTables : TableSource Bump where
  mem := Bump.mem
  setMem bump mem := { bump with mem := mem }
  alloc bump := .ok (bumpAlloc 1 bump)
  memSet _ _ := rfl

def pmmTables {σ : Type} (A : PageAllocator σ) : TableSource (Heap.State σ) where
  mem := Heap.State.mem
  setMem h mem := { h with mem := mem }
  alloc h :=
    match A.alloc 0 h.pages with
    | .error e => .error e
    | .ok (addr, pages) => .ok (addr, { h with pages := pages })
  memSet _ _ := rfl

-- The variables of the loop; `pageTable` is 0 while it is NULL.
structure Cursor where
  paddr : Nat
  vaddr : Nat
  size : Nat
  pde : Nat
  pte : Nat
  pageTable : Nat

-- `pd[k]`, and in the same way `page_table[k]`.
def entry (mem : Mem) (pd k : Nat) : Nat := mem.readWord (pd + 4 * k)

section Loop

variable {S : Type} (T : TableSource S)

def setEntry (s : S) (table k value : Nat) : S := T.setMem s ((T.mem s).writeWord (table + 4 * k) value)

-- The page table of slot `pde`, made when the slot is empty.
def openTable (pd pde flag : Nat) (s : S) : Except String S :=
  if entry (T.mem s) pd pde &&& pagePresent = 0 then
    match T.alloc s with
    | .error e => .error e
    | .ok (addr, s) => .ok (setEntry T s pd pde (addr ||| pagePresent ||| pageRw ||| flag))
  else .ok s

def tableOf (pd pde : Nat) (s : S) : Nat := p2v (entry (T.mem s) pd pde &&& pageMask)

def mapLarge (pd flag : Nat) (c : Cursor) (s : S) : Cursor × S :=
  ({ c with
      paddr := Word.add c.paddr fourMb
      vaddr := Word.add c.vaddr fourMb
      size := c.size - 1024
      pde := c.pde + 1 },
    setEntry T s pd c.pde (c.paddr ||| pageSize4Mb ||| flag))

def mapSmall (flag : Nat) (c : Cursor) (s : S) : Cursor × S :=
  let pte := (c.pte + 1) &&& (1024 - 1)
  ({ c with
      paddr := Word.add c.paddr 0x1000
      vaddr := Word.add c.vaddr 0x1000
      size := c.size - 1
      pte := pte
      pde := if pte = 0 then c.pde + 1 else c.pde },
    setEntry T s c.pageTable c.pte (c.paddr ||| flag))

def mapStep (pd flag : Nat) (c : Cursor) (s : S) : Except String (Cursor × S) :=
  if isAligned c.vaddr fourMb = true ∧ isAligned c.paddr fourMb = true ∧ 1024 ≤ c.size then .ok (mapLarge T pd flag c s)
  else if c.pte = 0 ∨ c.pageTable = 0 then
    match openTable T pd c.pde flag s with
    | .error e => .error e
    | .ok s => .ok (mapSmall T flag { c with pageTable := tableOf T pd c.pde s } s)
  else .ok (mapSmall T flag c s)

-- `while (size)`; every iteration takes at least one from `size`.
def mapLoop (pd flag : Nat) : Nat → Cursor → S → Except String S
  | 0, _, s => .ok s
  | fuel + 1, c, s =>
      if c.size = 0 then .ok s
      else
        match mapStep T pd flag c s with
        | .error e => .error e
        | .ok (c, s) => mapLoop pd flag fuel c s

def mapPages (pd paddr vaddr size flag : Nat) (s : S) : Except String S :=
  mapLoop T pd flag size ⟨paddr, vaddr, size, (vaddr >>> 22) &&& 0x3FF, (vaddr >>> 12) &&& 0x3FF, 0⟩ s

end Loop

def earlyMapRange (pd paddr vaddr size flag : Nat) (bump : Bump) : Except String Bump :=
  mapPages bumpTables pd paddr vaddr size flag bump

def mapRange {σ : Type} (A : PageAllocator σ) (pd paddr vaddr size flag : Nat) (h : Heap.State σ) :
    Except String (Heap.State σ) :=
  mapPages (pmmTables A) pd paddr vaddr size flag h

def isPresent (entry : Nat) : Bool := entry &&& pagePresent != 0

def isLarge (entry : Nat) : Bool := entry &&& pageSize4Mb != 0

-- The processor's walk for the virtual page `page`: frame and leaf flags, the 4 MiB bit aside.
def leaf (pte : Nat) : Option (Nat × Nat) := if isPresent pte then some (pte &&& pageMask, pte &&& 0xFFF) else none

def translate (mem : Mem) (pd page : Nat) : Option (Nat × Nat) :=
  let pde := entry mem pd (page / 1024)
  if isPresent pde then
    if isLarge pde then some ((pde &&& 0xFFC00000) + 0x1000 * (page % 1024), (pde &&& 0xFFF) ^^^ pageSize4Mb)
    else leaf (entry mem (p2v (pde &&& pageMask)) (page % 1024))
  else none

end X86OS.Paging
