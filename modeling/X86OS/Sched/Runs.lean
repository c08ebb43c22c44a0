import X86OS.Sched.Model
import Mathlib.Logic.Relation

set_option autoImplicit false

namespace X86OS.Sched

open Function Relation

-- Where a thread continues when it has the processor next. Threads that run programs are
-- at `running`, inside `thread_sleep` (before or after its atomic section) or past
-- `reaper_add`; the reaper is at a point of its loop.
inductive Point where
  | running
  | drowsy
  | asleep
  | exiting
  | check
  | pop
  | destroy (t : Nat)
  | parking
deriving DecidableEq

-- Bookkeeping beside the machine: the threads made ready and not yet destroyed, those
-- destroyed and not made anew, and whether the reaper has parked itself since it was last
-- woken.
structure Ghost where
  point : Nat → Point
  alive : List Nat
  destroyed : List Nat
  parked : Bool

@[grind] def Ghost.move (g : Ghost) (t : Nat) (point : Point) : Ghost := { g with point := update g.point t point }

@[grind] def Ghost.add (g : Ghost) (t : Nat) : Ghost :=
  { g.move t .running with alive := t :: g.alive, destroyed := g.destroyed.filter (· ≠ t) }

@[grind] def Ghost.remove (g : Ghost) (t : Nat) : Ghost :=
  { g with alive := g.alive.filter (· ≠ t), destroyed := t :: g.destroyed }

@[grind =] theorem Ghost.move_at (g : Ghost) (t x : Nat) (point : Point) :
    (g.move t point).point x = if x = t then point else g.point x := update_apply _ _ _ _

@[grind =] theorem Ghost.add_at (g : Ghost) (t x : Nat) : (g.add t).point x = if x = t then .running else g.point x :=
  update_apply _ _ _ _

@[grind =] theorem Ghost.remove_at (g : Ghost) (t x : Nat) : (g.remove t).point x = g.point x := rfl

structure Config where
  state : State
  ghost : Ghost

def State.install (s : State) (t : Nat) (thread : Thread) : State := s.modify t (fun _ => thread)

-- One atomic section, one list operation or one tick. Sections run with interrupts off,
-- so a tick falls between any two of them.
inductive Step : Config → Config → Prop
  | timer (s s' : State) (g : Ghost) (done : timer s = .ok s') : Step ⟨s, g⟩ ⟨s', g⟩
  | ready (s : State) (g : Ghost) (t : Nat) (thread : Thread) (new : t ∉ g.alive) (notIdle : t ≠ s.idleThread) :
      Step ⟨s, g⟩ ⟨threadReady t (s.install t thread), g.add t⟩
  | yield (s s' : State) (g : Ghost) (point : g.point s.curThread = .running) (done : scheduler s = .ok s') :
      Step ⟨s, g⟩ ⟨s', g⟩
  | sleepUntil (s : State) (g : Ghost) (time : Nat) (notIdle : s.curThread ≠ s.idleThread)
      (point : g.point s.curThread = .running) :
      Step ⟨s, g⟩ ⟨sleepUntil time s, g.move s.curThread .drowsy⟩
  | sleep (s s' : State) (g : Ghost) (notIdle : s.curThread ≠ s.idleThread) (point : g.point s.curThread = .drowsy)
      (done : goToSleep s = .ok s') : Step ⟨s, g⟩ ⟨s', g.move s.curThread .asleep⟩
  | sleepSwitch (s s' : State) (g : Ghost) (point : g.point s.curThread = .asleep) (done : scheduler s = .ok s') :
      Step ⟨s, g⟩ ⟨s', g.move s.curThread .running⟩
  | exit (s : State) (g : Ghost) (notIdle : s.curThread ≠ s.idleThread) (point : g.point s.curThread = .running) :
      Step ⟨s, g⟩ ⟨reaperAdd s.curThread s, { g.move s.curThread .exiting with parked := false }⟩
  | exitSwitch (s s' : State) (g : Ghost) (point : g.point s.curThread = .exiting) (done : scheduler s = .ok s') :
      Step ⟨s, g⟩ ⟨s', g⟩
  | reaperFound (s : State) (g : Ghost) (isReaper : s.curThread = s.reaper) (point : g.point s.reaper = .check)
      (found : s.zombieQue.head ≠ none) : Step ⟨s, g⟩ ⟨s, g.move s.reaper .pop⟩
  | reaperPark (s : State) (g : Ghost) (isReaper : s.curThread = s.reaper) (point : g.point s.reaper = .check)
      (nothing : s.zombieQue.head = none) : Step ⟨s, g⟩ ⟨park s, { g.move s.reaper .parking with parked := true }⟩
  | reaperSwitch (s s' : State) (g : Ghost) (isReaper : s.curThread = s.reaper) (point : g.point s.reaper = .parking)
      (done : scheduler s = .ok s') : Step ⟨s, g⟩ ⟨s', g.move s.reaper .check⟩
  | reaperPop (s s' : State) (g : Ghost) (t : Nat) (isReaper : s.curThread = s.reaper) (point : g.point s.reaper = .pop)
      (done : popZombie s = .ok (t, s')) : Step ⟨s, g⟩ ⟨s', g.move s.reaper (.destroy t)⟩
  | reaperDestroy (s : State) (g : Ghost) (t : Nat) (isReaper : s.curThread = s.reaper)
      (point : g.point s.reaper = .destroy t) :
      Step ⟨s, g⟩ ⟨s, (g.remove t).move s.reaper .check⟩

-- What holds even between the wake-ups of a tick and its switch.
structure Core (m : Model) (g : Ghost) : Prop where
  ready : ∀ t, t ∈ m.ready ↔ t ∈ g.alive ∧ m.status t = .runnable
  asleep : ∀ t, t ∈ m.asleep ↔ t ∈ g.alive ∧ m.status t = .sleeping ∧ t ≠ m.reaper
  dead : ∀ t, t ∈ m.dead ↔ t ∈ g.alive ∧ m.status t = .zombie ∧ g.point m.reaper ≠ .destroy t
  running : ∀ t ∈ g.alive, m.status t = .running → t = m.cur
  busy : ∀ t ∈ g.alive, m.status t ≠ .idle
  cur : m.cur = m.idle ∨ m.cur ∈ g.alive
  idleOut : m.idle ∉ g.alive
  idleStatus : m.status m.idle = .idle
  reaperIn : m.reaper ∈ g.alive
  reaperLives : m.status m.reaper ≠ .zombie
  parked : g.parked = true ↔ m.status m.reaper = .sleeping
  quiet : m.status m.reaper = .sleeping → m.dead = []
  exiting : ∀ t ∈ g.alive, t ≠ m.reaper → (m.status t = .zombie ↔ g.point t = .exiting)
  reaperPoint : g.point m.reaper = .check ∨ g.point m.reaper = .pop ∨ g.point m.reaper = .parking ∨
    ∃ t, g.point m.reaper = .destroy t
  found : g.point m.reaper = .pop → m.dead ≠ []
  victim : ∀ t, g.point m.reaper = .destroy t → t ∈ g.alive ∧ m.status t = .zombie
  gone : ∀ t ∈ g.alive, t ∉ g.destroyed
  idleKept : m.idle ∉ g.destroyed

structure Invariant (m : Model) (g : Ghost) : Prop extends Core m g where
  onCpu : m.status m.cur ≠ .runnable
  sleeping : m.cur ≠ m.reaper → m.status m.cur = .sleeping → g.point m.cur = .asleep
  parking : m.cur = m.reaper → m.status m.reaper = .sleeping → g.point m.reaper = .parking

section Core

variable {m : Model} {g : Ghost}

theorem loose_of_status (core : Core m g) (t : Nat) (notReady : m.status t ≠ .runnable)
    (notAsleep : m.status t = .sleeping → t = m.reaper) (notDead : m.status t ≠ .zombie) : m.Loose t :=
  ⟨fun member => notReady ((core.ready t).mp member).2,
    fun member => ((core.asleep t).mp member).2.2 (notAsleep ((core.asleep t).mp member).2.1),
    fun member => notDead ((core.dead t).mp member).2.1⟩

theorem loose_running (core : Core m g) (t : Nat) (running : m.status t = .running) : m.Loose t :=
  loose_of_status core t (by simp [running]) (by simp [running]) (by simp [running])

theorem cur_running (inv : Invariant m g) (notIdle : m.cur ≠ m.idle)
    (point : g.point m.cur = .running ∨ g.point m.cur = .drowsy) :
    m.cur ∈ g.alive ∧ m.cur ≠ m.reaper ∧ m.status m.cur = .running := by
  have alive := inv.cur.resolve_left notIdle
  have notReaper : m.cur ≠ m.reaper := by
    intro same
    have places := inv.reaperPoint
    rw [← same] at places
    rcases point with here | here <;> simp [here] at places
  refine ⟨alive, notReaper, ?_⟩
  have onCpu := inv.onCpu
  have busy := inv.busy _ alive
  have notAsleep := inv.sleeping notReaper
  have notDead := inv.exiting _ alive notReaper
  cases status : m.status m.cur with
  | running => rfl
  | runnable => exact absurd status onCpu
  | idle => exact absurd status busy
  | zombie =>
      have exiting := notDead.mp status
      rcases point with here | here <;> simp [here] at exiting
  | sleeping =>
      have asleep := notAsleep status
      rcases point with here | here <;> simp [here] at asleep

end Core

section Core

variable {m : Model} {g : Ghost}

theorem requeue_running (core : Core m g) (running : m.status m.cur = .running) :
    m.requeue = m.threadReady m.cur ∧ m.cur ∈ g.alive := by
  refine ⟨if_pos running, ?_⟩
  rcases core.cur with isIdle | alive
  · rw [isIdle, core.idleStatus] at running
    cases running
  · exact alive

theorem core_ready (core : Core m g) (t : Nat) (alive : t ∈ g.alive) (loose : m.Loose t)
    (notZombie : m.status t ≠ .zombie) :
    Core (m.threadReady t) { g with parked := if t = m.reaper then false else g.parked } :=
  { core with
    ready := by grind [core.ready]
    asleep := by grind [core.asleep]
    dead := by grind [core.dead]
    running := by grind [core.running]
    busy := by grind [core.busy]
    idleStatus := by grind [core.idleStatus, core.idleOut]
    reaperLives := by grind [core.reaperLives]
    parked := by grind [core.parked]
    quiet := by grind [core.quiet]
    exiting := by grind [core.exiting]
    victim := by grind [core.victim] }

theorem core_requeue (core : Core m g) : Core m.requeue g ∧ ∀ t ∈ g.alive, m.requeue.status t ≠ .running := by
  by_cases running : m.status m.cur = .running
  · obtain ⟨queued, alive⟩ := requeue_running core running
    have ready := core_ready core m.cur alive (loose_running core m.cur running) (by simp [running])
    rw [queued]
    constructor
    · exact { ready with parked := by grind [ready.parked, core.parked] }
    · intro t inAlive
      grind [core.running]
  · rw [Model.requeue, if_neg running]
    exact ⟨core, fun t alive isRunning => running (core.running t alive isRunning ▸ isRunning)⟩

theorem requeue_once (core : Core m g) (once : m.ready.Nodup) : m.requeue.ready.Nodup := by
  by_cases running : m.status m.cur = .running
  · rw [(requeue_running core running).1]
    exact List.Nodup.append once (List.nodup_singleton _) (by simpa using (loose_running core m.cur running).1)
  · rwa [Model.requeue, if_neg running]

theorem inv_dispatch (core : Core m g) (none : ∀ t ∈ g.alive, m.status t ≠ .running) (once : m.ready.Nodup) :
    Invariant m.dispatch g := by
  cases first : m.ready with
  | nil =>
      rw [Model.dispatch, first]
      exact { core with
        ready := by grind [core.ready]
        running := by grind
        cur := .inl rfl
        onCpu := by grind [core.idleStatus]
        sleeping := by grind [core.idleStatus]
        parking := by grind [core.idleStatus] }
  | cons t rest =>
      obtain ⟨alive, runnable⟩ := (core.ready t).mp (by simp [first])
      have notIdle : t ≠ m.idle := fun same => core.idleOut (same ▸ alive)
      have notRest : t ∉ rest := by
        rw [first] at once
        exact (List.nodup_cons.mp once).1
      rw [Model.dispatch, first]
      simp only [if_pos notIdle]
      exact { core with
        ready := by grind [core.ready]
        asleep := by grind [core.asleep]
        dead := by grind [core.dead]
        running := by grind
        busy := by grind [core.busy]
        cur := .inr alive
        idleStatus := by grind [core.idleStatus]
        reaperLives := by grind [core.reaperLives]
        parked := by grind [core.parked]
        quiet := by grind [core.quiet]
        exiting := by grind [core.exiting]
        victim := by grind [core.victim]
        onCpu := by grind
        sleeping := by grind
        parking := by grind }

theorem inv_scheduler (core : Core m g) (once : m.ready.Nodup) : Invariant m.scheduler g :=
  inv_dispatch (core_requeue core).1 (core_requeue core).2 (requeue_once core once)

theorem dispatch_cur (m : Model) : m.dispatch.cur = m.idle ∨ m.dispatch.status m.dispatch.cur = .running := by
  rw [Model.dispatch]
  cases m.ready with
  | nil => exact .inl rfl
  | cons t rest =>
      by_cases isIdle : t = m.idle
      · exact .inl isIdle
      · exact .inr (by simp [isIdle])

theorem scheduler_cur (m : Model) : m.scheduler.cur = m.idle ∨ m.scheduler.status m.scheduler.cur = .running := by
  have sameIdle : m.requeue.idle = m.idle := by
    rw [Model.requeue]
    split <;> rfl
  rw [← sameIdle]
  exact dispatch_cur m.requeue

theorem core_wake (core : Core m g) (once : m.asleep.Nodup) : Core m.wakeUpThreads g := by
  have parts : m.asleep.takeWhile m.due ++ m.asleep.dropWhile m.due = m.asleep := List.takeWhile_append_dropWhile
  have apart (t : Nat) (early : t ∈ m.asleep.takeWhile m.due) : t ∉ m.asleep.dropWhile m.due := by
    rw [← parts] at once
    exact fun late => (List.nodup_append.mp once).2.2 t early t late rfl
  have either (t : Nat) : t ∈ m.asleep ↔ t ∈ m.asleep.takeWhile m.due ∨ t ∈ m.asleep.dropWhile m.due := by
    rw [← List.mem_append, parts]
  have notReaper : m.reaper ∉ m.asleep.takeWhile m.due :=
    fun early => ((core.asleep _).mp ((either _).mpr (.inl early))).2.2 rfl
  have notIdle : m.idle ∉ m.asleep.takeWhile m.due :=
    fun early => core.idleOut ((core.asleep _).mp ((either _).mpr (.inl early))).1
  have slept (t : Nat) (early : t ∈ m.asleep.takeWhile m.due) := (core.asleep t).mp ((either t).mpr (.inl early))
  rw [Model.wakeUpThreads]
  generalize m.asleep.takeWhile m.due = early at *
  generalize m.asleep.dropWhile m.due = late at *
  exact { core with
    ready := by grind [core.ready]
    asleep := by grind [core.asleep]
    dead := by grind [core.dead]
    running := by grind [core.running]
    busy := by grind [core.busy]
    idleStatus := by grind [core.idleStatus]
    reaperLives := by grind [core.reaperLives]
    parked := by grind [core.parked]
    quiet := by grind [core.quiet]
    exiting := by grind [core.exiting]
    victim := by grind [core.victim] }

end Core

section Steps

variable {m : Model} {g : Ghost}

theorem inv_new (inv : Invariant m g) (t : Nat) (new : t ∉ g.alive) (notIdle : t ≠ m.idle) :
    Invariant (m.threadReady t) (g.add t) := by
  have notCur : t ≠ m.cur :=
    fun same => inv.cur.elim (fun isIdle => notIdle (same.trans isIdle)) (fun alive => new (same ▸ alive))
  have notReaper : t ≠ m.reaper := fun same => new (same ▸ inv.reaperIn)
  have notVictim : g.point m.reaper ≠ .destroy t := fun point => new (inv.victim t point).1
  exact { inv with
    ready := by grind [inv.ready]
    asleep := by grind [inv.asleep]
    dead := by grind [inv.dead]
    running := by grind [inv.running]
    busy := by grind [inv.busy]
    cur := by grind [inv.cur]
    idleOut := by grind [inv.idleOut]
    idleStatus := by grind [inv.idleStatus]
    reaperIn := by grind [inv.reaperIn]
    reaperLives := by grind [inv.reaperLives]
    parked := by grind [inv.parked]
    parking := by grind [inv.parking]
    quiet := by grind [inv.quiet]
    sleeping := by grind [inv.sleeping]
    exiting := by grind [inv.exiting]
    reaperPoint := by grind [inv.reaperPoint]
    found := by grind [inv.found]
    victim := by grind [inv.victim]
    gone := by grind [inv.gone]
    idleKept := by grind [inv.idleKept]
    onCpu := by grind [inv.onCpu] }

theorem inv_drowsy (inv : Invariant m g) (time : Nat) (notReaper : m.cur ≠ m.reaper)
    (running : m.status m.cur = .running) :
    Invariant (m.sleepUntil time) (g.move m.cur .drowsy) :=
  { inv with
    dead := by grind [inv.dead]
    parking := by grind [inv.parking]
    sleeping := by grind [inv.sleeping]
    exiting := by grind [inv.exiting]
    reaperPoint := by grind [inv.reaperPoint]
    found := by grind [inv.found]
    victim := by grind [inv.victim] }

theorem inv_sleep (inv : Invariant m g) (alive : m.cur ∈ g.alive) (notReaper : m.cur ≠ m.reaper)
    (running : m.status m.cur = .running) :
    Invariant m.goToSleep (g.move m.cur .asleep) := by
  have members (t : Nat) : t ∈ m.goToSleep.asleep ↔ t = m.cur ∨ t ∈ m.asleep := mem_sorted_insert m.wakeAt m.cur t
  exact { inv with
    ready := by grind [inv.ready]
    asleep := by grind [inv.asleep]
    dead := by grind [inv.dead]
    running := by grind [inv.running]
    busy := by grind [inv.busy]
    idleStatus := by grind [inv.idleStatus, inv.idleOut]
    reaperLives := by grind [inv.reaperLives]
    parked := by grind [inv.parked]
    parking := by grind [inv.parking]
    quiet := by grind [inv.quiet]
    sleeping := by grind [inv.sleeping]
    exiting := by grind [inv.exiting]
    reaperPoint := by grind [inv.reaperPoint]
    found := by grind [inv.found]
    victim := by grind [inv.victim]
    onCpu := by grind }

theorem inv_resume (inv : Invariant m g) (t : Nat) (notReaper : t ≠ m.reaper) (notZombie : m.status t ≠ .zombie)
    (switched : m.cur = m.idle ∨ m.status m.cur = .running) : Invariant m (g.move t .running) :=
  { inv with
    dead := by grind [inv.dead]
    exiting := by grind [inv.exiting]
    reaperPoint := by grind [inv.reaperPoint]
    found := by grind [inv.found]
    victim := by grind [inv.victim]
    sleeping := by grind [inv.idleStatus]
    parking := by grind [inv.parking] }

theorem inv_exit (inv : Invariant m g) (alive : m.cur ∈ g.alive) (notReaper : m.cur ≠ m.reaper)
    (running : m.status m.cur = .running) :
    Invariant (m.reaperAdd m.cur) { g.move m.cur .exiting with parked := false } := by
  have reaperRests : m.status m.reaper ≠ .running :=
    fun isRunning => notReaper (inv.running _ inv.reaperIn isRunning).symm
  have notVictim : g.point m.reaper ≠ .destroy m.cur := by
    intro point
    have zombie := (inv.victim _ point).2
    rw [running] at zombie
    cases zombie
  have buried : (m.bury m.cur).dead ≠ [] := by simp [Model.bury]
  rw [Model.reaperAdd]
  by_cases asleep : (m.bury m.cur).status m.reaper ≠ .runnable
  · rw [if_pos asleep]
    exact { inv with
      ready := by grind [inv.ready, inv.reaperIn]
      asleep := by grind [inv.asleep]
      dead := by grind [inv.dead, inv.reaperLives]
      running := by grind [inv.running]
      busy := by grind [inv.busy]
      idleStatus := by grind [inv.idleStatus, inv.idleOut, inv.reaperIn]
      reaperLives := by grind
      parked := by grind
      parking := by grind
      quiet := by grind
      sleeping := by grind [inv.sleeping]
      exiting := by grind [inv.exiting]
      reaperPoint := by grind [inv.reaperPoint]
      found := by grind
      victim := by grind [inv.victim, inv.reaperLives]
      onCpu := by grind }
  · rw [if_neg asleep]
    exact { inv with
      ready := by grind [inv.ready]
      asleep := by grind [inv.asleep]
      dead := by grind [inv.dead]
      running := by grind [inv.running]
      busy := by grind [inv.busy]
      idleStatus := by grind [inv.idleStatus, inv.idleOut]
      reaperLives := by grind [inv.reaperLives]
      parked := by grind
      parking := by grind
      quiet := by grind
      sleeping := by grind [inv.sleeping]
      exiting := by grind [inv.exiting]
      reaperPoint := by grind [inv.reaperPoint]
      found := by grind
      victim := by grind [inv.victim]
      onCpu := by grind }

theorem inv_found (inv : Invariant m g) (isReaper : m.cur = m.reaper) (point : g.point m.reaper = .check)
    (found : m.dead ≠ []) :
    Invariant m (g.move m.reaper .pop) :=
  { inv with
    dead := by grind [inv.dead]
    parking := by grind [inv.quiet]
    sleeping := by grind [inv.sleeping]
    exiting := by grind [inv.exiting]
    reaperPoint := by grind
    found := fun _ => found
    victim := by grind }

theorem inv_park (inv : Invariant m g) (isReaper : m.cur = m.reaper) (point : g.point m.reaper = .check)
    (nothing : m.dead = []) :
    Invariant m.park { g.move m.reaper .parking with parked := true } :=
  { inv with
    ready := by grind [inv.ready, inv.onCpu]
    asleep := by grind [inv.asleep]
    dead := by grind [inv.dead, inv.reaperLives]
    running := by grind [inv.running]
    busy := by grind [inv.busy]
    idleStatus := by grind [inv.idleStatus, inv.idleOut, inv.reaperIn]
    reaperLives := by grind
    parked := by grind
    parking := by grind
    quiet := by grind
    sleeping := by grind [inv.sleeping]
    exiting := by grind [inv.exiting]
    reaperPoint := by grind
    found := by grind
    victim := by grind
    onCpu := by grind }

theorem inv_unpark (inv : Invariant m g) (notVictim : ∀ t, g.point m.reaper ≠ .destroy t)
    (switched : m.cur = m.idle ∨ m.status m.cur = .running) : Invariant m (g.move m.reaper .check) :=
  { inv with
    dead := by grind [inv.dead]
    exiting := by grind [inv.exiting]
    reaperPoint := by grind
    found := by grind
    victim := by grind
    sleeping := by grind [inv.sleeping]
    parking := by grind [inv.idleStatus] }

theorem inv_pop (inv : Invariant m g) (t : Nat) (rest : List Nat) (point : g.point m.reaper = .pop)
    (first : m.dead = t :: rest) (once : m.dead.Nodup) : Invariant m.popZombie (g.move m.reaper (.destroy t)) := by
  have notRest : t ∉ rest := by
    rw [first] at once
    exact (List.nodup_cons.mp once).1
  have tail : m.popZombie.dead = rest := by simp [Model.popZombie, first]
  have old := inv.dead t
  exact { inv with
    dead := by grind [inv.dead]
    parking := by grind [inv.parking]
    quiet := by grind [inv.quiet]
    sleeping := by grind [inv.sleeping]
    exiting := by
      intro x inAlive other
      have here := inv.exiting x inAlive other
      grind
    reaperPoint := by grind
    found := by grind
    victim := by grind }

theorem inv_destroy (inv : Invariant m g) (t : Nat) (isReaper : m.cur = m.reaper)
    (point : g.point m.reaper = .destroy t) :
    Invariant m ((g.remove t).move m.reaper .check) := by
  obtain ⟨alive, zombie⟩ := inv.victim t point
  have notReaper : m.reaper ≠ t := fun same => inv.reaperLives (same ▸ zombie)
  exact { inv with
    ready := by grind [inv.ready]
    asleep := by grind [inv.asleep]
    dead := by grind [inv.dead]
    running := by grind [inv.running]
    busy := by grind [inv.busy]
    cur := by grind [inv.reaperIn]
    idleOut := by grind [inv.idleOut]
    reaperIn := by grind [inv.reaperIn]
    parking := by grind [inv.parking]
    sleeping := by grind
    exiting := by
      intro x inAlive other
      have here := inv.exiting x (List.mem_of_mem_filter inAlive) other
      grind
    reaperPoint := by grind
    found := by grind
    victim := by grind
    gone := by grind [inv.gone]
    idleKept := by grind [inv.idleKept, inv.idleOut] }

end Steps

section Runs

variable {s s' : State} {m : Model} {g : Ghost}

theorem dispatch_on_stack (before : Nat) (next : Option Nat) :
    (dispatch before next s).onStack = (dispatch before next s).curThread := by
  have marked (t : Nat) (r : State) : (markRunning t r).curThread = r.curThread := by
    rw [markRunning]
    split <;> rfl
  have switched (t : Nat) (r : State) : (switchSpace before t r).curThread = r.curThread := by
    rw [switchSpace]
    split <;> rfl
  change next.getD s.idleThread = (switchSpace before _ (markRunning _ _)).curThread
  rw [switched, marked]
  rfl

theorem scheduler_on_stack (done : scheduler s = .ok s') : s'.onStack = s'.curThread := by
  rw [scheduler] at done
  split at done
  · cases done
  · cases done
    exact dispatch_on_stack _ _

theorem timer_on_stack (done : timer s = .ok s') : s'.onStack = s'.curThread := by
  rw [timer] at done
  split at done
  · cases done
  · exact scheduler_on_stack done

-- The queues in memory, the bookkeeping and the stack agree.
structure Good (s : State) (g : Ghost) (m : Model) : Prop where
  sim : Sim s m
  inv : Invariant m g
  stack : s.onStack = s.curThread

theorem install_sim (sim : Sim s m) (t : Nat) (thread : Thread) :
    Sim (s.install t thread)
      { m with status := update m.status t thread.status, wakeAt := update m.wakeAt t thread.wakeAt } := by
  refine ⟨⟨sim.que, sim.sleepQue, sim.zombieQue, sim.readyAsleep, sim.readyDead, sim.asleepDead⟩, ?_, ?_,
    sim.ticks, sim.cur, sim.idle, sim.reaper⟩
  · intro x
    by_cases same : x = t
    · simp [State.install, State.modify, same]
    · simp [State.install, State.modify, same, sim.status]
  · intro x
    by_cases same : x = t
    · simp [State.install, State.modify, same]
    · simp [State.install, State.modify, same, sim.wakeAt]

-- What is said about a thread that is not alive does not matter.
theorem inv_forget (inv : Invariant m g) (t : Nat) (status : Status) (wakeAt : Nat → Nat) (new : t ∉ g.alive)
    (notIdle : t ≠ m.idle) :
    Invariant { m with status := update m.status t status, wakeAt := wakeAt } g := by
  have others (x : Nat) (other : x ≠ t) : update m.status t status x = m.status x := update_of_ne other _ _
  have alive (x : Nat) (member : x ∈ g.alive) : x ≠ t := fun same => new (same ▸ member)
  have cur : m.cur ≠ t := inv.cur.elim (fun isIdle same => notIdle (same.symm.trans isIdle)) (alive m.cur)
  have reaper := others _ (alive _ inv.reaperIn)
  exact { inv with
    ready := by grind [inv.ready]
    asleep := by grind [inv.asleep]
    dead := by grind [inv.dead]
    running := by grind [inv.running]
    busy := by grind [inv.busy]
    idleStatus := by grind [inv.idleStatus]
    reaperLives := by grind [inv.reaperLives]
    parked := by grind [inv.parked]
    quiet := by grind [inv.quiet]
    exiting := by grind [inv.exiting]
    victim := by grind [inv.victim]
    onCpu := by grind [inv.onCpu]
    sleeping := by grind [inv.sleeping]
    parking := by grind [inv.parking] }

theorem not_alive_loose (core : Core m g) (t : Nat) (new : t ∉ g.alive) : m.Loose t :=
  ⟨fun member => new ((core.ready t).mp member).1, fun member => new ((core.asleep t).mp member).1,
    fun member => new ((core.dead t).mp member).1⟩

theorem good_scheduler (good : Good s g m) : ∃ s', scheduler s = .ok s' ∧ Good s' g m.scheduler := by
  obtain ⟨s', done, sim⟩ := sim_scheduler good.sim (loose_running good.inv.toCore m.cur)
  exact ⟨s', done, sim, inv_scheduler good.inv.toCore good.sim.que.dll.1, scheduler_on_stack done⟩

theorem good_timer (good : Good s g m) : ∃ s', timer s = .ok s' ∧ Good s' g (m.timer s.tickRate) := by
  have ticked : Core (m.tick s.tickRate) g := { good.inv.toCore with }
  have woken := core_wake ticked good.sim.sleepQue.dll.1
  obtain ⟨s', done, sim⟩ := sim_timer good.sim (loose_running woken m.cur)
  obtain ⟨_, _, simWoken⟩ := sim_wake_up_threads (sim_tick good.sim)
  exact ⟨s', done, sim, inv_scheduler woken simWoken.que.dll.1, timer_on_stack done⟩

theorem good_pop (good : Good s g m) (point : g.point s.reaper = .pop) :
    ∃ t s', popZombie s = .ok (t, s') ∧ Good s' (g.move s.reaper (.destroy t)) m.popZombie := by
  rw [good.sim.reaper] at point ⊢
  obtain ⟨t, rest, first⟩ := List.exists_cons_of_ne_nil (good.inv.found point)
  obtain ⟨s', done, sim⟩ := sim_pop_dead good.sim t rest first
  refine ⟨t, s', done, sim, inv_pop good.inv t rest point first good.sim.zombieQue.dll.1, ?_⟩
  rw [popZombie] at done
  split at done
  · cases done
  · cases done
    exact good.stack

theorem zombie_head (sim : Sim s m) : s.zombieQue.head = none ↔ m.dead = [] := by
  rw [sim.zombieQue.head, List.head?_eq_none_iff]

theorem scheduler_same (m : Model) : m.scheduler.idle = m.idle ∧ m.scheduler.reaper = m.reaper := by
  rw [Model.scheduler, Model.dispatch, Model.requeue]
  split <;> split <;> exact ⟨rfl, rfl⟩

end Runs

end X86OS.Sched
