import X86OS.Lib.Machine
import X86OS.Process.Elf
import X86OS.Sched.Sched

set_option autoImplicit false

namespace X86OS.Process

open Machine Paging

-- Addresses the linker fixes.
structure Symbols where
  kernelPageDirectory : Nat
  launchProcess : Nat
  kthreadStub : Nat

-- The memory managers, the scheduler, `thread_id` and the `id` field of each thread.
structure Kernel (σ : Type) where
  heap : Heap.State σ
  sched : Sched.State
  threadId : Nat
  id : Nat → Nat

def sizeofThread : Nat := 36

-- What `pusha` leaves: eax, ecx, edx, ebx, esp, ebp, esi, edi.
def zeroRegisters : List Nat := [0, 0, 0, 0, 0, 0, 0, 0]

structure KStackInfo where
  kernelStackBase : Nat
  kernelEsp : Nat
deriving DecidableEq

structure NewThread where
  thread : Nat
  esp : Nat
  stack : Nat
  pd : Nat
deriving DecidableEq

section Make

variable {σ : Type} (A : PageAllocator σ) (sym : Symbols)

def setupKerenlStack (entry userEsp : Nat) (h : Heap.State σ) : Except String (KStackInfo × Heap.State σ) :=
  match Heap.kmalloc A 0x1000 h with
  | .error e => .error e
  | .ok (none, _) => .error "NULL dereference"
  | .ok (some stack, h) =>
      let (esp, mem) := pushWords
        ([4 <<< 3 ||| 0 ||| 3, userEsp, 1 <<< 9, 3 <<< 3 ||| 0 ||| 3, entry, sym.launchProcess] ++ zeroRegisters)
        (Word.add stack 0x1000) h.mem
      .ok (⟨stack, esp⟩, { h with mem := mem })

-- `create_process` up to the writes into the new `Thread`.
def buildProcess (elf : Nat) (h : Heap.State σ) : Except String (NewThread × Heap.State σ) :=
  match A.alloc 0 h.pages with
  | .error e => .error e
  | .ok (dir, pages) =>
      let processPd := p2v dir
      match loadElf A processPd elf
        { h with mem := kmemcpy processPd sym.kernelPageDirectory 0x1000 h.mem, pages := pages } with
      | .error e => .error e
      | .ok (stackBase, h) =>
          match A.alloc 0 h.pages with
          | .error e => .error e
          | .ok (userStack, pages) =>
              let userEsp := Word.add stackBase 0x1000
              let entry := eEntry h.mem elf
              match mapRange A processPd userStack stackBase 1 (pageUser ||| pagePresent ||| pageRw)
                { h with pages := pages } with
              | .error e => .error e
              | .ok h =>
                  match setupKerenlStack A sym entry userEsp h with
                  | .error e => .error e
                  | .ok (info, h) =>
                      match Heap.kmalloc A sizeofThread h with
                      | .error e => .error e
                      | .ok (none, _) => .error "NULL dereference"
                      | .ok (some thread, h) => .ok (⟨thread, info.kernelEsp, info.kernelStackBase, processPd⟩, h)

-- `thread_create` up to the writes into the new `Thread`.
def buildThread (entry arg : Nat) (h : Heap.State σ) : Except String (NewThread × Heap.State σ) :=
  match A.alloc 0 h.pages with
  | .error e => .error e
  | .ok (stack, pages) =>
      match Heap.kmalloc A sizeofThread { h with pages := pages } with
      | .error e => .error e
      | .ok (none, _) => .error "NULL dereference"
      | .ok (some thread, h) =>
          let (esp, mem) :=
            pushWords ([thread, arg, entry, 0, sym.kthreadStub] ++ zeroRegisters) (Word.add (p2v stack) 0x1000) h.mem
          .ok (⟨thread, esp, stack, sym.kernelPageDirectory⟩, { h with mem := mem })

def startThread (new : NewThread) (h : Heap.State σ) (k : Kernel σ) : Kernel σ where
  heap := h
  sched := Sched.threadReady new.thread
    (k.sched.modify new.thread (fun thread => { thread with esp := new.esp, stack := new.stack, pd := new.pd }))
  threadId := Word.add k.threadId 1
  id := Function.update k.id new.thread k.threadId

def createProcess (elf : Nat) (k : Kernel σ) : Except String (Nat × Kernel σ) :=
  match buildProcess A sym elf k.heap with
  | .error e => .error e
  | .ok (new, h) => .ok (new.thread, startThread new h k)

def threadCreate (entry arg : Nat) (k : Kernel σ) : Except String (Nat × Kernel σ) :=
  match buildThread A sym entry arg k.heap with
  | .error e => .error e
  | .ok (new, h) => .ok (new.thread, startThread new h k)

-- `pmm_free(thread->stack); kfree(thread);`
def destroyThread (thread : Nat) (k : Kernel σ) : Except String (Kernel σ) :=
  match Heap.kfree A thread { k.heap with pages := A.free (k.sched.thread thread).stack k.heap.pages } with
  | .error e => .error e
  | .ok h => .ok { k with heap := h }

end Make

end X86OS.Process
