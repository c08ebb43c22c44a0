import X86OS.Mm.Layout
import X86OS.Sched.Queue

set_option autoImplicit false

namespace X86OS.Sched

open Function

inductive Status where
  | running
  | runnable
  | idle
  | zombie
  | sleeping
deriving DecidableEq, Repr

-- The fields of a `Thread` that the scheduler reads; its `node` is in `Nodes`.
structure Thread where
  esp : Nat
  stack : Nat
  status : Status
  wakeAt : Nat
  pd : Nat

-- The globals of the scheduler and the reaper, and the registers a switch changes.
-- `onStack` is the thread whose saved stack pointer the processor loaded last.
structure State where
  nodes : Nodes
  thread : Nat → Thread
  que : DLList
  sleepQue : DLList
  zombieQue : DLList
  ticks : Nat
  tickRate : Nat
  curThread : Nat
  idleThread : Nat
  reaper : Nat
  cr3 : Nat
  esp0 : Nat
  esp : Nat
  onStack : Nat

def pitCrystal : Nat := 1193182

def State.modify (s : State) (t : Nat) (change : Thread → Thread) : State :=
  { s with thread := update s.thread t (change (s.thread t)) }

def State.setStatus (s : State) (t : Nat) (status : Status) : State :=
  s.modify t (fun thread => { thread with status := status })

def State.setQue (s : State) (queue : DLList × Nodes) : State := { s with que := queue.1, nodes := queue.2 }

def State.setSleepQue (s : State) (queue : DLList × Nodes) : State := { s with sleepQue := queue.1, nodes := queue.2 }

def State.setZombieQue (s : State) (queue : DLList × Nodes) : State := { s with zombieQue := queue.1, nodes := queue.2 }

-- `_thread_ready`; `thread_ready` is the same inside an atomic section.
def threadReady (t : Nat) (s : State) : State :=
  let s := s.setStatus t .runnable
  s.setQue (listPushBack s.que t s.nodes)

-- One round of the loop per sleeper, and one to see the end.
def wakeLoop : Nat → State → Except String State
  | 0, s => .ok s
  | fuel + 1, s =>
      match s.sleepQue.head with
      | none => .ok s
      | some head =>
          if (s.thread head).wakeAt ≤ s.ticks then
            match listPopFront s.sleepQue s.nodes with
            | .error e => .error e
            | .ok (t, queue) => wakeLoop fuel (threadReady t (s.setSleepQue queue))
          else .ok s

def wakeUpThreads (s : State) : Except String State := wakeLoop (s.sleepQue.size + 1) s

def getNextThread (s : State) : Except String (Option Nat × State) :=
  match s.que.head with
  | none => .ok (none, s)
  | some _ =>
      match listPopFront s.que s.nodes with
      | .error e => .error e
      | .ok (t, queue) => .ok (some t, s.setQue queue)

def refreshCr3 (pd : Nat) (s : State) : State := { s with cr3 := v2p pd }

-- `pusha` and `popa` move eight registers.
def contextSwitch (prev cur : Nat) (s : State) : State :=
  let s := s.modify prev (fun thread => { thread with esp := Word.sub s.esp 32 })
  { s with esp := Word.add (s.thread cur).esp 32, onStack := cur }

def State.setCur (s : State) (t : Nat) : State := { s with curThread := t }

def markRunning (cur : Nat) (s : State) : State := if cur ≠ s.idleThread then s.setStatus cur .running else s

def switchSpace (prev cur : Nat) (s : State) : State :=
  if (s.thread cur).pd ≠ (s.thread prev).pd then refreshCr3 (s.thread cur).pd s else s

def setEsp0 (cur : Nat) (s : State) : State := { s with esp0 := Word.add (s.thread cur).stack 0x1000 }

-- `scheduler` from the choice of the next thread on.
def dispatch (prev : Nat) (next : Option Nat) (s : State) : State :=
  let cur := next.getD s.idleThread
  contextSwitch prev cur (setEsp0 cur (switchSpace prev cur (markRunning cur (s.setCur cur))))

def requeue (s : State) : State :=
  if (s.thread s.curThread).status = .running then threadReady s.curThread s else s

def scheduler (s : State) : Except String State :=
  let s := requeue s
  match getNextThread s with
  | .error e => .error e
  | .ok (next, s) => .ok (dispatch s.curThread next s)

def advance (s : State) : State := { s with ticks := (s.ticks + s.tickRate) % 2 ^ 64 }

def timer (s : State) : Except String State :=
  match wakeUpThreads (advance s) with
  | .error e => .error e
  | .ok s => scheduler s

-- `thread_sleep` before its atomic section, and the section; `scheduler` follows.
def sleepUntil (time : Nat) (s : State) : State :=
  s.modify s.curThread (fun thread => { thread with wakeAt := (s.ticks + time * pitCrystal) % 2 ^ 64 })

def goToSleep (s : State) : Except String State :=
  let s := s.setStatus s.curThread .sleeping
  match listSortedPush (fun t => (s.thread t).wakeAt) s.sleepQue s.curThread s.nodes with
  | .error e => .error e
  | .ok queue => .ok (s.setSleepQue queue)

def reaperAdd (zombie : Nat) (s : State) : State :=
  let s := s.setStatus zombie .zombie
  let s := s.setZombieQue (listPushBack s.zombieQue zombie s.nodes)
  if (s.thread s.reaper).status ≠ .runnable then threadReady s.reaper s else s

-- `reaper_main` takes the next zombie, or goes to sleep when there is none.
def popZombie (s : State) : Except String (Nat × State) :=
  match listPopFront s.zombieQue s.nodes with
  | .error e => .error e
  | .ok (t, queue) => .ok (t, s.setZombieQue queue)

def park (s : State) : State := s.setStatus s.reaper .sleeping

end X86OS.Sched
