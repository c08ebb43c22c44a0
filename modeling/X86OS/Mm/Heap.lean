import X86OS.Klib.String
import X86OS.Mm.Layout
import X86OS.Mm.Node
import X86OS.Mm.PageAllocator

set_option autoImplicit false

namespace X86OS.Heap

open Function

-- A `Chunk` is `all.next` at 0, `all.prev` at 4, `used` at 8 and the union of data and
-- free node at 12.
def usedOffset : Nat := 8
def headerSize : Nat := 12
def minSize : Nat := 8
def sizeofChunk : Nat := 20
def numSizes : Nat := 9
def orderOffset : Nat := 3
def align : Nat := 4
def pageSize : Nat := 0x1000
def baseShift : Nat := 12

structure State (σ : Type) where
  mem : Mem
  pages : σ
  freeBucket : Nat → Option Nat
  first : Option Nat
  last : Option Nat
  memFree : Nat
  memUsed : Nat
  memMeta : Nat

variable {σ : Type}

def addFree (n : Nat) (h : State σ) : State σ := { h with memFree := Word.add h.memFree n }
def subFree (n : Nat) (h : State σ) : State σ := { h with memFree := Word.sub h.memFree n }
def addUsed (n : Nat) (h : State σ) : State σ := { h with memUsed := Word.add h.memUsed n }
def subUsed (n : Nat) (h : State σ) : State σ := { h with memUsed := Word.sub h.memUsed n }
def addMeta (n : Nat) (h : State σ) : State σ := { h with memMeta := Word.add h.memMeta n }
def subMeta (n : Nat) (h : State σ) : State σ := { h with memMeta := Word.sub h.memMeta n }

-- A stored pointer; 0 is NULL.
def toPtr (word : Nat) : Option Nat := if word = 0 then none else some word

def links : Links (State σ) Nat where
  next h a := toPtr (h.mem.readWord a)
  prev h a := toPtr (h.mem.readWord (a + 4))
  setNext h a v := { h with mem := h.mem.writeWord a (v.getD 0) }
  setPrev h a v := { h with mem := h.mem.writeWord (a + 4) (v.getD 0) }

def bucketRef (i : Nat) : HeadRef (State σ) Nat where
  load h := h.freeBucket i
  store h v := { h with freeBucket := update h.freeBucket i v }

def firstRef : HeadRef (State σ) Nat where
  load h := h.first
  store h v := { h with first := v }

-- `&(first->all.next)`, which is also `(Node **)first`
def firstNextRef : HeadRef (State σ) Nat where
  load h := h.first.bind (links.next h)
  store h v := links.setNextIf h h.first v

def setUsed (chunk : Nat) (value : Bool) (h : State σ) : State σ :=
  { h with mem := h.mem.writeByte (chunk + usedOffset) (if value then 1 else 0) }

def isUsed (h : State σ) (chunk : Nat) : Bool := h.mem (chunk + usedOffset) != 0

-- `31 - __builtin_clz(size)`
def logTwo (size : Nat) : Nat := Nat.log2 size

def getTotalSize (h : State σ) (chunk : Nat) : Nat := Word.sub ((links.next h chunk).getD 0) chunk

def getChunkSize (h : State σ) (chunk : Nat) : Nat := Word.sub (getTotalSize h chunk) headerSize

def getBucketIndex (h : State σ) (chunk : Nat) : Nat := logTwo (getChunkSize h chunk) - orderOffset

def getAllocOrder (size : Nat) : Nat := logTwo (size - 1) + 1 - orderOffset

-- The sentinels and the one chunk of a new page, chained to each other only.
def formatPage (f m l : Nat) (h : State σ) : State σ :=
  let h := { h with mem := kmemset f 0 pageSize h.mem }
  let h := setUsed f true h
  let h := setUsed m false h
  let h := setUsed l true h
  let h := insertNode links f m h
  insertNode links m l h

def linkPage (f l : Nat) (h : State σ) : State σ :=
  match h.first with
  | none => { h with first := some f, last := some l }
  | some _ =>
      match h.last with
      | none => h
      | some last => { insertNode links last f h with last := some l }

-- `create_chunk` after the page is there.
def installPage (f m l : Nat) (h : State σ) : State σ :=
  let h := formatPage f m l h
  let h := addMeta (getTotalSize h f) h
  let h := addMeta (getTotalSize h f) h
  let h := addMeta headerSize h
  let h := addFree (getChunkSize h m) h
  let order := getBucketIndex h m
  linkPage f l (pushNode links (bucketRef order) (m + headerSize) h)

def createChunk (A : PageAllocator σ) (h : State σ) : Except String (Nat × State σ) :=
  match A.alloc 0 h.pages with
  | .error e => .error e
  | .ok (addr, pages) =>
      let f := p2v addr
      let m := Word.add f sizeofChunk
      let l := Word.sub (Word.add f pageSize) sizeofChunk
      .ok (f, installPage f m l { h with pages := pages })

-- The source also rejects a negative order; a natural number has none.
def popFreeChunk (order : Nat) (h : State σ) : Option Nat × State σ :=
  if order ≥ numSizes then (none, h)
  else
    match popNode links (bucketRef order) h with
    | (some node, h) => (some (node - headerSize), h)
    | (none, h) => (none, h)

-- `for (int i = order; i < NUM_SIZES; i++) if (free_bucket[i]) { chunk = pop_free_chunk(i); break; }`
def searchBuckets : Nat → Nat → State σ → Option Nat × State σ
  | 0, _, h => (none, h)
  | fuel + 1, i, h =>
      if i < numSizes then
        if (h.freeBucket i).isSome then popFreeChunk i h else searchBuckets fuel (i + 1) h
      else (none, h)

def splitChunk (chunk allocSize chunkSize : Nat) (h : State σ) : State σ :=
  if Word.sub chunkSize allocSize ≥ minSize + headerSize then
    let nChunk := Word.add chunk (allocSize + headerSize)
    let h := setUsed nChunk false h
    let h := insertNode links chunk nChunk h
    let h := addMeta headerSize h
    let nOrder := getBucketIndex h nChunk
    let h := pushNode links (bucketRef nOrder) (nChunk + headerSize) h
    addFree (getChunkSize h nChunk) h
  else h

def takeChunk (chunk allocSize : Nat) (h : State σ) : Option Nat × State σ :=
  let h := setUsed chunk true h
  let chunkSize := getChunkSize h chunk
  let h := subFree chunkSize h
  let h := splitChunk chunk allocSize chunkSize h
  (some (chunk + headerSize), addUsed (getChunkSize h chunk) h)

def kmallocPages (A : PageAllocator σ) (size : Nat) (h : State σ) : Except String (Option Nat × State σ) :=
  let order := logTwo (size - 1) + 1 - baseShift
  match A.alloc order h.pages with
  | .error e => .error e
  | .ok (addr, pages) =>
      let h := { h with pages := pages }
      match toPtr (p2v addr) with
      | none => .ok (none, h)
      | some ptr => .ok (some ptr, addUsed (1 <<< (baseShift + order)) h)

def kmallocChunk (A : PageAllocator σ) (size : Nat) (h : State σ) : Except String (Option Nat × State σ) :=
  let allocSize := alignUp size align
  let order := getAllocOrder allocSize
  if order ≥ numSizes then .ok (none, h)
  else
    match searchBuckets numSizes order h with
    | (some chunk, h) => .ok (takeChunk chunk allocSize h)
    | (none, h) =>
        match createChunk A h with
        | .error e => .error e
        | .ok (_, h) =>
            match searchBuckets numSizes order h with
            | (some chunk, h) => .ok (takeChunk chunk allocSize h)
            | (none, _) => .error "OUT OF MEMORY"

def kmalloc (A : PageAllocator σ) (size : Nat) (h : State σ) : Except String (Option Nat × State σ) :=
  if size ≤ 0 then .ok (none, h)
  else
    let size := if size < minSize then minSize else size
    if size ≥ 0x1000 then kmallocPages A size h else kmallocChunk A size h

def returnPage (A : PageAllocator σ) (f : Nat) (h : State σ) : Except String (State σ) :=
  match links.next h f with
  | none => .error "NULL dereference"
  | some m =>
      match links.next h m with
      | none => .error "NULL dereference"
      | some l =>
          let h := subMeta headerSize (removeNode links firstRef m h)
          let h := subMeta (headerSize + minSize) (removeNode links firstNextRef f h)
          let h := if h.last = some l then { h with last := links.prev h l } else h
          let h := subMeta (headerSize + minSize) (removeNode links firstNextRef l h)
          .ok { h with pages := A.free (v2p f) h.pages }

-- Takes the unused `chunk` off its bucket and removes `node`, the later of the two
-- chunks that become one, from the list of all chunks.
def absorb (chunk node : Nat) (h : State σ) : State σ :=
  let h := removeNode links (bucketRef (getBucketIndex h chunk)) (chunk + headerSize) h
  let h := subFree (getChunkSize h chunk) h
  subMeta headerSize (removeNode links firstNextRef node h)

def releaseChunk (A : PageAllocator σ) (chunk : Nat) (h : State σ) : Except String (State σ) :=
  let chunkSize := getChunkSize h chunk
  if chunkSize = pageSize - 2 * (headerSize + minSize) - headerSize ∧ links.prev h chunk ≠ h.first then
    match links.prev h chunk with
    | none => .error "NULL dereference"
    | some f => returnPage A f h
  else
    let h := setUsed chunk false h
    let h := pushNode links (bucketRef (getBucketIndex h chunk)) (chunk + headerSize) h
    .ok (addFree chunkSize h)

def kfreeChunk (A : PageAllocator σ) (chunk : Nat) (h : State σ) : Except String (State σ) :=
  match links.next h chunk, links.prev h chunk with
  | some next, some prev =>
      let h := subUsed (getChunkSize h chunk) h
      let h := if isUsed h next then h else absorb next next h
      if isUsed h prev then releaseChunk A chunk h else releaseChunk A prev (absorb prev chunk h)
  | _, _ => .error "NULL dereference"

def kfree (A : PageAllocator σ) (ptr : Nat) (h : State σ) : Except String (State σ) :=
  if isAligned ptr pageSize then
    let addr := v2p ptr
    let order := A.orderAddr h.pages addr
    let h := subUsed (1 <<< (order + baseShift)) h
    .ok { h with pages := A.free addr h.pages }
  else kfreeChunk A (Word.sub ptr headerSize) h

def initKmalloc (A : PageAllocator σ) (h : State σ) : Except String (State σ) :=
  match createChunk A h with
  | .error e => .error e
  | .ok (f, h) => .ok { h with first := some f, last := (links.next h f).bind (links.next h) }

end X86OS.Heap
