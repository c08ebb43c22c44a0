import X86OS.Lib.Sections
import X86OS.Sched.Events

set_option autoImplicit false

namespace X86OS.Sched

open Function Relation Sections

-- The functions of the kernel that use the queues, one statement at a time. The bookkeeping moves with the statement
-- that makes the difference.
abbrev Body := Code Nat Config

def always (f : State → State) (c : Config) : Option Config := some { c with state := f c.state }

def checked (f : State → Except String State) (c : Config) : Option Config := outcome c.ghost (f c.state)

def pick (s : State) : Except String State :=
  match getNextThread s with
  | .error e => .error e
  | .ok (next, s) => .ok (s.setCur (next.getD s.idleThread))

def moved (t : Nat) (after : Option Point) (g : Ghost) : Ghost := after.elim g (g.move t)

-- `context_switch`. `prev_thread` is a local variable of the thread whose stack this is.
def turn (after : Option Point) (c : Config) : Option Config :=
  some ⟨contextSwitch c.state.onStack c.state.curThread c.state, moved c.state.onStack after c.ghost⟩

def schedulerBody (after : Option Point) (next : Body) : Body :=
  .act (always requeue)
    (.act (checked pick)
      (.act (always (fun s => markRunning s.curThread s))
        (.act (always (fun s => switchSpace s.onStack s.curThread s))
          (.act (always (fun s => setEsp0 s.curThread s))
            (.switch (turn after) (.stop next))))))

def schedulerCode (after : Option Point) (next : Body) : Body := .start (schedulerBody after next)

def timerCode (next : Body) : Body :=
  .act (always advance) (.act (checked wakeUpThreads) (schedulerCode none next))

def sortIn (s : State) : Except String State :=
  match listSortedPush (fun t => (s.thread t).wakeAt) s.sleepQue s.curThread s.nodes with
  | .error e => .error e
  | .ok queue => .ok (s.setSleepQue queue)

def sleepBody (next : Body) : Body :=
  .act (always (fun s => s.setStatus s.curThread .sleeping))
    (.act (fun c => outcome (c.ghost.move c.state.curThread .asleep) (sortIn c.state))
      (.stop (schedulerCode (some .running) next)))

def sleepSection (next : Body) : Body := .start (sleepBody next)

def threadSleepCode (time : Nat) (next : Body) : Body :=
  .act (fun c => some ⟨sleepUntil time c.state, c.ghost.move c.state.curThread .drowsy⟩) (sleepSection next)

-- `thread_ready` for a thread that exists and for one that was just made. What `thread_create` and `create_process`
-- write before the section is nobody else's memory, so it may as well be written in it.
def readyBody (mark : Config → Option Config) (push : Config → Option Config) (next : Body) : Body :=
  .act mark (.act push (.stop next))

def pushReady (t : Nat) (s : State) : State := s.setQue (listPushBack s.que t s.nodes)

def wakeReaper (next : Body) : Body :=
  .start (readyBody (always (fun s => s.setStatus s.reaper .runnable)) (always (fun s => pushReady s.reaper s)) next)

def createBody (t : Nat) (thread : Thread) (first : Body) (flags : List Bool) (next : Body) : Body :=
  .spawn t first flags
    (readyBody (always (fun s => (s.install t thread).setStatus t .runnable))
      (fun c => some ⟨pushReady t c.state, c.ghost.add t⟩) next)

def createCode (t : Nat) (thread : Thread) (first : Body) (flags : List Bool) (next : Body) : Body :=
  .start (createBody t thread first flags next)

def bury (c : Config) : Option Config :=
  let s := c.state
  some ⟨s.setZombieQue (listPushBack s.zombieQue s.curThread s.nodes),
    { c.ghost.move s.curThread .exiting with parked := false }⟩

def reaperWaits (c : Config) : Bool := (c.state.thread c.state.reaper).status ≠ .runnable

def reaperAddBody (next : Body) : Body :=
  .act (always (fun s => s.setStatus s.curThread .zombie))
    (.act bury
      (.test reaperWaits (wakeReaper (.stop next)) (.stop next)))

-- `do_exit`, and the end of `kthread_stub`.
def exitBody (next : Body) : Body := reaperAddBody (schedulerCode none next)

def exitCode (next : Body) : Body := .start (exitBody next)

def popNext (c : Config) : Option Config :=
  match popZombie c.state with
  | .error _ => none
  | .ok (t, s) => some ⟨s, c.ghost.move s.reaper (.destroy t)⟩

def destroyPopped (c : Config) : Option Config :=
  match c.ghost.point c.state.reaper with
  | .destroy t => some ⟨c.state, (c.ghost.remove t).move c.state.reaper .check⟩
  | _ => none

def destroyCode : Body := .act destroyPopped .home

def popCode : Body := .act popNext destroyCode

-- One round of `reaper_main`. The zombie is popped outside the section.
def reaperBody : Body :=
  .test (fun c => c.state.zombieQue.head.isSome)
    (.act (fun c => some ⟨c.state, c.ghost.move c.state.reaper .pop⟩) (.stop popCode))
    (.act (fun c => some ⟨park c.state, { c.ghost.move c.state.reaper .parking with parked := true }⟩)
      (.stop (schedulerCode (some .check) .home)))

def reaperCode : Body := .start reaperBody

-- How a new thread starts: in `kthread_stub`, or in `launch_process` with the flags `setup_kerenl_stack` forged.
inductive Forged : Body → List Bool → Prop
  | thread : Forged (.sti .home) []
  | process : Forged (.iret .home) [true]

def Ordinary (c : Config) : Prop := c.state.onStack ≠ c.state.idleThread ∧ c.state.onStack ≠ c.state.reaper

inductive Trap (c : Config) : (Body → Body) → Prop
  | sleep (time : Nat) (ordinary : Ordinary c) : Trap c (threadSleepCode time)
  | exit (ordinary : Ordinary c) : Trap c exitCode
  | unknown (ordinary : Ordinary c) : Trap c id

inductive Call (c : Config) : Body → Prop
  | sleep (time : Nat) (ordinary : Ordinary c) : Call c (threadSleepCode time .home)
  | exit (ordinary : Ordinary c) : Call c (exitCode .home)
  | yield (ordinary : Ordinary c) : Call c (schedulerCode none .home)
  | create (t : Nat) (thread : Thread) (first : Body) (flags : List Bool) (ordinary : Ordinary c)
      (new : t ∉ c.ghost.alive) (other : t ≠ c.state.idleThread ∧ t ≠ c.state.onStack) (forged : Forged first flags) :
        Call c (createCode t thread first flags .home)
  | reap (isReaper : c.state.onStack = c.state.reaper) : Call c reaperCode

def kernel : Kernel Nat Config where
  cur c := c.state.onStack
  interrupt handler := handler = timerCode
  trap := Trap
  call := Call

theorem wake_loop_stays (fuel : Nat) (s s' : State) (done : wakeLoop fuel s = .ok s') :
    s'.curThread = s.curThread ∧ s'.onStack = s.onStack := by
  induction fuel generalizing s with
  | zero =>
      cases done
      exact ⟨rfl, rfl⟩
  | succ fuel ih =>
      rw [wakeLoop] at done
      split at done
      · cases done
        exact ⟨rfl, rfl⟩
      · split at done
        · split at done
          · cases done
          · have rest := ih _ done
            exact rest
        · cases done
          exact ⟨rfl, rfl⟩

theorem mark_running_stays (cur : Nat) (s : State) :
    (markRunning cur s).curThread = s.curThread ∧ (markRunning cur s).onStack = s.onStack := by
  rw [markRunning]
  split <;> exact ⟨rfl, rfl⟩

theorem switch_space_stays (before cur : Nat) (s : State) :
    (switchSpace before cur s).curThread = s.curThread ∧ (switchSpace before cur s).onStack = s.onStack := by
  rw [switchSpace]
  split <;> exact ⟨rfl, rfl⟩

theorem requeue_stays (s : State) : (requeue s).curThread = s.curThread ∧ (requeue s).onStack = s.onStack := by
  rw [requeue]
  split <;> exact ⟨rfl, rfl⟩

theorem next_stays (s s' : State) (next : Option Nat) (done : getNextThread s = .ok (next, s')) :
    s'.curThread = s.curThread ∧ s'.onStack = s.onStack := by
  rw [getNextThread] at done
  split at done
  · cases done
    exact ⟨rfl, rfl⟩
  · split at done
    · cases done
    · cases done
      exact ⟨rfl, rfl⟩

section Fitting

variable (t : Nat) (flag : Bool) (saved : List Bool) (next : Body)

-- What a statement does to the state, it does on the stack it is on.
def KeepsStack (f : Config → Option Config) : Prop := ∀ c c', f c = some c' → c'.state.onStack = c.state.onStack

theorem always_keeps (f : State → State) (keeps : ∀ s, (f s).onStack = s.onStack) : KeepsStack (always f) := by
  intro c c' done
  cases done
  exact keeps _

theorem checked_keeps (f : State → Except String State) (keeps : ∀ s s', f s = .ok s' → s'.onStack = s.onStack) :
    KeepsStack (checked f) := by
  intro c c' done
  obtain ⟨s, result, rfl⟩ := outcome_some _ _ _ done
  exact keeps _ _ result

theorem fits_scheduler (after : Option Point) (fits : Fits kernel.cur t flag saved next) :
    Fits kernel.cur t flag saved (schedulerCode after next) := by
  refine ⟨always_keeps _ (fun s => (requeue_stays s).2), checked_keeps _ (fun s s' done => ?_),
    always_keeps _ (fun s => (mark_running_stays _ s).2), always_keeps _ (fun s => (switch_space_stays _ _ s).2),
    always_keeps _ (fun s => rfl), rfl, rfl, flag, saved, rfl, fits⟩
  rw [pick] at done
  split at done
  · cases done
  · rename_i popped
    cases done
    exact (next_stays _ _ _ popped).2

theorem fits_timer (fits : Fits kernel.cur t false saved next) : Fits kernel.cur t false saved (timerCode next) := by
  refine ⟨always_keeps _ (fun _ => rfl), checked_keeps _ (fun s s' done => ?_),
    fits_scheduler t false saved next none fits⟩
  exact (wake_loop_stays _ s s' done).2

theorem fits_sleep (time : Nat) (fits : Fits kernel.cur t flag saved next) :
    Fits kernel.cur t flag saved (threadSleepCode time next) := by
  refine ⟨?_, always_keeps _ (fun _ => rfl), ?_, rfl, flag, saved, rfl, fits_scheduler t flag saved next _ fits⟩
  · intro c c' done
    cases done
    rfl
  · intro c c' done
    obtain ⟨s, result, rfl⟩ := outcome_some _ _ _ done
    rw [sortIn] at result
    split at result
    · cases result
    · cases result
      rfl

theorem fits_exit (fits : Fits kernel.cur t flag saved next) : Fits kernel.cur t flag saved (exitCode next) := by
  have after : Fits kernel.cur t false (flag :: saved) (.stop (schedulerCode none next)) :=
    ⟨rfl, flag, saved, rfl, fits_scheduler t flag saved next none fits⟩
  refine ⟨always_keeps _ (fun _ => rfl), ?_,
    ⟨always_keeps _ (fun _ => rfl), always_keeps _ (fun _ => rfl), rfl, false, flag :: saved, rfl, after⟩,
    after⟩
  intro c c' done
  cases done
  rfl

theorem forged_fits (first : Body) (flags : List Bool) (forged : Forged first flags) :
    Fits kernel.cur t false flags first := by
  cases forged with
  | thread => exact ⟨rfl, rfl⟩
  | process => exact ⟨rfl, true, [], rfl, rfl, rfl⟩

theorem fits_create (u : Nat) (thread : Thread) (first : Body) (flags : List Bool) (other : u ≠ t)
    (forged : Forged first flags) (fits : Fits kernel.cur t flag saved next) :
    Fits kernel.cur t flag saved (createCode u thread first flags next) := by
  refine ⟨other, forged_fits u first flags forged, always_keeps _ (fun _ => rfl), ?_, rfl, flag, saved, rfl, fits⟩
  intro c c' done
  cases done
  rfl

theorem fits_reaper : Fits kernel.cur t true [] reaperCode := by
  have home : Fits kernel.cur t true [] .home := ⟨rfl, rfl⟩
  have destroy : Fits kernel.cur t true [] destroyCode := by
    refine ⟨?_, home⟩
    intro c c' done
    rw [destroyPopped] at done
    split at done
    · cases done
      rfl
    · cases done
  refine ⟨⟨?_, rfl, true, [], rfl, ?_, destroy⟩, ?_, rfl, true, [], rfl, fits_scheduler t true [] .home _ home⟩
  · intro c c' done
    cases done
    rfl
  · intro c c' done
    rw [popNext] at done
    split at done
    · cases done
    · rename_i popped
      cases done
      rw [popZombie] at popped
      split at popped
      · cases popped
      · cases popped
        rfl
  · intro c c' done
    cases done
    rfl

end Fitting

theorem kernel_lawful : kernel.Lawful := by
  have home (t : Nat) : Fits kernel.cur t true [] .home := ⟨rfl, rfl⟩
  have back (t : Nat) (saved : List Bool) (next : Body) (fits : Fits kernel.cur t true saved next) :
      Fits kernel.cur t false (true :: saved) (.iret next) := ⟨rfl, true, saved, rfl, fits⟩
  refine ⟨?_, ?_, ?_⟩
  · rintro handler rfl t saved next fits
    exact fits_timer t (true :: saved) _ (back t saved next fits)
  · intro c handler allowed
    cases allowed with
    | sleep time _ => exact fits_sleep _ false [true] _ time (back _ _ _ (home _))
    | exit _ => exact fits_exit _ false [true] _ (back _ _ _ (home _))
    | unknown _ => exact back _ _ _ (home _)
  · intro c code allowed
    cases allowed with
    | sleep time _ => exact fits_sleep _ true [] _ time (home _)
    | exit _ => exact fits_exit _ true [] _ (home _)
    | yield _ => exact fits_scheduler _ true [] _ none (home _)
    | create t thread first flags _ _ other forged =>
        exact fits_create _ true [] _ t thread first flags other.2 forged (home _)
    | reap _ => exact fits_reaper _

end X86OS.Sched
