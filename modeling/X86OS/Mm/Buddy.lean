import X86OS.Mm.Bump
import X86OS.Mm.Node

set_option autoImplicit false

namespace X86OS.Buddy

open Function

-- P_FREE is 0: a zeroed page_map slot reads as a free page of order 0.
inductive PageFlag where
  | free
  | tail
  | used
  | kernel
deriving DecidableEq, Repr

-- A `Page *` is the index of the page in `page_map`.
structure Page where
  next : Option Nat
  prev : Option Nat
  order : Nat
  flags : PageFlag
deriving DecidableEq, Repr

def zeroPage : Page := ⟨none, none, 0, .free⟩

def sizeofPage : Nat := 12
def maxBuddyOrder : Nat := 10
def baseShift : Nat := 12
def baseSize : Nat := 1 <<< 12

-- `free_area` has entries 0..10; a larger index reads the words behind the array.
structure State where
  freeArea : Nat → Option Nat
  pageMap : Nat → Page
  pageN : Nat
  freePagesCount : Nat
  usedPagesCount : Nat

def State.modify (s : State) (i : Nat) (change : Page → Page) : State :=
  { s with pageMap := update s.pageMap i (change (s.pageMap i)) }

def State.setHead (s : State) (i order : Nat) (flags : PageFlag) : State :=
  s.modify i (fun page => { page with order := order, flags := flags })

def State.setFlags (s : State) (i : Nat) (flags : PageFlag) : State :=
  s.modify i (fun page => { page with flags := flags })

def links : Links State Nat where
  next s i := (s.pageMap i).next
  prev s i := (s.pageMap i).prev
  setNext s i v := s.modify i (fun page => { page with next := v })
  setPrev s i v := s.modify i (fun page => { page with prev := v })

def freeAreaRef (order : Nat) : HeadRef State Nat where
  load s := s.freeArea order
  store s v := { s with freeArea := update s.freeArea order v }

def realPageIndex (addr : Nat) : Nat := addr >>> baseShift
def buddyIndex (s : State) (idx : Nat) : Nat := idx ^^^ (1 <<< (s.pageMap idx).order)
def pageMapReal (top : Nat) : Nat := 0x1000 * top

def totalSize (memoryMap : MemoryMap) : Nat := ((memoryMap 3).addr + (memoryMap 3).size) % 2 ^ 32

def pageCount (memoryMap : MemoryMap) : Nat := ((totalSize memoryMap + (0x1000 - 1)) % 2 ^ 32) >>> 12

-- `slack` is what the words behind the initialised part of `page_map` read as.
def makePages (memoryMap : MemoryMap) (slack : Nat → Page) (bump : Bump) : State × Bump :=
  let pageN := pageCount memoryMap
  let mapSize := (pageN * sizeofPage) % 2 ^ 32
  let pagesNeeded := ((mapSize + (0x1000 - 1)) % 2 ^ 32) >>> 12
  let bump := (bumpAlloc 1 bump).2
  let bump := (fun b => (bumpAlloc 1 b).2)^[Word.sub pagesNeeded 1] bump
  ({ freeArea := fun _ => none
     pageMap := fun i => if i < pageN then ⟨none, none, 0, .kernel⟩ else slack i
     pageN := pageN
     freePagesCount := 0
     usedPagesCount := 0 }, bump)

-- The largest order, from `i` down, whose block at `start` is aligned and ends by `stop`.
def fitOrder (start stop : Nat) : Nat → Option Nat
  | 0 => if isAligned start baseSize && (start + baseSize) % 2 ^ 32 ≤ stop then some 0 else none
  | i + 1 =>
      if isAligned start (baseSize <<< (i + 1)) && (start + (baseSize <<< (i + 1))) % 2 ^ 32 ≤ stop then some (i + 1)
      else fitOrder start stop i

def placeBlock (idx i : Nat) (s : State) : State :=
  let s := { s with freePagesCount := Word.add s.freePagesCount (1 <<< i) }
  let s := s.setHead idx i .free
  let s :=
    { s with
      pageMap := fun p => if idx < p ∧ p < idx + 1 <<< i then { s.pageMap p with flags := .tail } else s.pageMap p }
  pushNode links (freeAreaRef i) idx s

-- Each round places at least one page, so `stop / 4096` rounds are enough unless `start` wraps.
def addLoop (stop : Nat) : Nat → Nat → State → State
  | 0, _, s => s
  | fuel + 1, start, s =>
      if start < stop then
        match fitOrder start stop maxBuddyOrder with
        | some i => addLoop stop fuel ((start + (baseSize <<< i)) % 2 ^ 32) (placeBlock (realPageIndex start) i s)
        | none => s
      else s

def addPages (memoryMap : MemoryMap) (bump : Bump) (s : State) : State :=
  let start := getPlacementAddr bump
  let stop := totalSize memoryMap
  addLoop stop (stop / 0x1000 + 1) start s

def getOrderAddr (s : State) (addr : Nat) : Nat := (s.pageMap (realPageIndex addr)).order

-- `for (; !free_area[cur_order] && cur_order <= MAX_BUDDY_ORDER; cur_order++)`
def searchOrder (s : State) : Nat → Nat → Nat
  | 0, curOrder => curOrder
  | fuel + 1, curOrder =>
      if (s.freeArea curOrder).isNone && curOrder ≤ maxBuddyOrder then searchOrder s fuel (curOrder + 1) else curOrder

def splitStep (top curOrder : Nat) (s : State) : State :=
  let s := s.setHead top curOrder .used
  let sibling := buddyIndex s top
  let s := s.setHead sibling curOrder .free
  pushNode links (freeAreaRef curOrder) sibling s

def splitLoop (top order : Nat) : Nat → State → State
  | 0, s => s
  | n + 1, s => splitLoop top order n (splitStep top (order + n) s)

def buddyAllocPages (order : Nat) (s : State) : Except String (Nat × State) :=
  let curOrder := searchOrder s (maxBuddyOrder + 1) order
  if curOrder > maxBuddyOrder then .error "PMM Out of memory"
  else
    match popNode links (freeAreaRef curOrder) s with
    | (none, _) => .error "NULL dereference"
    | (some top, s) =>
        let s := splitLoop top order (curOrder - order) s
        let s := s.setHead top order .used
        .ok (pageMapReal top,
          { s with usedPagesCount := Word.add s.usedPagesCount (1 <<< order),
                   freePagesCount := Word.sub s.freePagesCount (1 <<< order) })

def mergeStep (top buddy curOrder : Nat) (s : State) : Nat × State :=
  let s := removeNode links (freeAreaRef curOrder) buddy s
  let (top, buddy) := if buddy < top then (buddy, top) else (top, buddy)
  let s := s.setHead top (curOrder + 1) .free
  (top, s.setFlags buddy .tail)

-- Returns the page the loop ends at, its order and the state.
def mergeLoop : Nat → Nat → Nat → State → Nat × Nat × State
  | 0, top, curOrder, s => (top, curOrder, s)
  | fuel + 1, top, curOrder, s =>
      if curOrder < maxBuddyOrder then
        let buddy := buddyIndex s top
        if (s.pageMap buddy).flags = .free ∧ (s.pageMap buddy).order = curOrder then
          let (top, s) := mergeStep top buddy curOrder s
          mergeLoop fuel top (curOrder + 1) s
        else (top, curOrder, s)
      else (top, curOrder, s)

def buddyFreePages (addr : Nat) (s : State) : State :=
  let index := realPageIndex addr
  let curOrder := (s.pageMap index).order
  let s := { s with usedPagesCount := Word.sub s.usedPagesCount (1 <<< curOrder),
                    freePagesCount := Word.add s.freePagesCount (1 <<< curOrder) }
  let (top, curOrder, s) := mergeLoop maxBuddyOrder index curOrder s
  pushNode links (freeAreaRef curOrder) top (s.setHead top curOrder .free)

def initBuddy (memoryMap : MemoryMap) (slack : Nat → Page) (bump : Bump) : State × Bump :=
  let (s, bump) := makePages memoryMap slack bump
  (addPages memoryMap bump s, bump)

end X86OS.Buddy
