import X86OS.Mm.Paging

set_option autoImplicit false

namespace X86OS.Process

open Paging

def readHalf (mem : Mem) (a : Nat) : Nat := (mem a).toNat + 2 ^ 8 * (mem (a + 1)).toNat

-- The fields of `Elf32_Ehdr` that the loader reads, at their offsets.
def eIdent (mem : Mem) (elf i : Nat) : UInt8 := mem (elf + i)
def eEntry (mem : Mem) (elf : Nat) : Nat := mem.readWord (elf + 24)
def ePhoff (mem : Mem) (elf : Nat) : Nat := mem.readWord (elf + 28)
def ePhnum (mem : Mem) (elf : Nat) : Nat := readHalf mem (elf + 44)

def sizeofPhdr : Nat := 32

-- `p_paddr` and `p_align` are never read.
structure Phdr where
  pType : Nat
  pOffset : Nat
  pVaddr : Nat
  pFilesz : Nat
  pMemsz : Nat
  pFlags : Nat
deriving DecidableEq, Repr

def readPhdr (mem : Mem) (a : Nat) : Phdr where
  pType := mem.readWord a
  pOffset := mem.readWord (a + 4)
  pVaddr := mem.readWord (a + 8)
  pFilesz := mem.readWord (a + 16)
  pMemsz := mem.readWord (a + 20)
  pFlags := mem.readWord (a + 24)

def ptLoad : Nat := 1
def pfX : Nat := 1
def pfW : Nat := 2
def pfR : Nat := 4

def verify : List UInt8 := [0x7F, 0x45, 0x4C, 0x46]

def hasMagic (mem : Mem) (elf : Nat) : Bool := (List.range 4).all (fun i => eIdent mem elf i == verify.getD i 0)

def segmentFlags (p : Phdr) : Nat :=
  if p.pFlags = pfR ||| pfW then pagePresent ||| pageUser ||| pageRw else pagePresent ||| pageUser

def pagesNeeded (p : Phdr) : Nat := alignUp p.pMemsz 0x1000 >>> 12

variable {σ : Type} (A : PageAllocator σ)

-- One round of the loop in `load_segment`; the first result is what remains to be copied.
def loadPage (pd flags vaddr src i copyRemaining : Nat) (h : Heap.State σ) : Except String (Nat × Heap.State σ) :=
  match A.alloc 0 h.pages with
  | .error e => .error e
  | .ok (curPage, pages) =>
      let mem := kmemset (p2v curPage) 0 0x1000 h.mem
      let copying := if copyRemaining > 0x1000 then 0x1000 else copyRemaining
      let mem := if copyRemaining ≠ 0 then kmemcpy (p2v curPage) (Word.add src (i <<< 12)) copying mem else mem
      match mapRange A pd curPage (Word.add vaddr (i <<< 12)) 1 flags { h with mem := mem, pages := pages } with
      | .error e => .error e
      | .ok h => .ok (copyRemaining - copying, h)

def loadPages (pd flags vaddr src : Nat) : Nat → Nat → Nat → Heap.State σ → Except String (Heap.State σ)
  | 0, _, _, h => .ok h
  | n + 1, i, copyRemaining, h =>
      match loadPage A pd flags vaddr src i copyRemaining h with
      | .error e => .error e
      | .ok (copyRemaining, h) => loadPages pd flags vaddr src n (i + 1) copyRemaining h

-- `cur->p_vaddr` is read again for the result.
def loadSegment (cur pd elf : Nat) (h : Heap.State σ) : Except String (Nat × Heap.State σ) :=
  let p := readPhdr h.mem cur
  if p.pType ≠ ptLoad then .ok (0, h)
  else
    match loadPages A pd (segmentFlags p) p.pVaddr (Word.add elf p.pOffset) (pagesNeeded p) 0 p.pFilesz h with
    | .error e => .error e
    | .ok h => .ok (Word.add (readPhdr h.mem cur).pVaddr (pagesNeeded p <<< 12), h)

def loadSegments (phdrs pd elf : Nat) : Nat → Nat → Nat → Heap.State σ → Except String (Nat × Heap.State σ)
  | 0, _, lastAddr, h => .ok (lastAddr, h)
  | n + 1, i, lastAddr, h =>
      match loadSegment A (Word.add phdrs (sizeofPhdr * i)) pd elf h with
      | .error e => .error e
      | .ok (endsAt, h) => loadSegments phdrs pd elf n (i + 1) (if endsAt > lastAddr then endsAt else lastAddr) h

def loadElf (pd elf : Nat) (h : Heap.State σ) : Except String (Nat × Heap.State σ) :=
  if hasMagic h.mem elf then
    loadSegments A (Word.add elf (ePhoff h.mem elf)) pd elf (ePhnum h.mem elf) 0 0 h
  else .ok (0, h)

end X86OS.Process
