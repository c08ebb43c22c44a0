import X86OS.Sched.Frame

set_option autoImplicit false

namespace X86OS.Sched

open Function Relation

-- `init_sched`: the boot thread becomes the current and the idle thread.
def initSched (main rate kernelPd : Nat) (s : State) : State :=
  { s.modify main (fun thread => { thread with pd := kernelPd }) with
    tickRate := rate
    que := emptyList
    sleepQue := emptyList
    curThread := main
    idleThread := main
    onStack := main }

def initReaper (reaper : Nat) (thread : Thread) (s : State) : State :=
  { threadReady reaper ({ s with zombieQue := emptyList }.install reaper thread) with reaper := reaper }

-- `kmain` up to `sti`; interrupts are off until then.
def bootState (main reaper rate kernelPd : Nat) (thread : Thread) (s : State) : State :=
  (initReaper reaper thread (initSched main rate kernelPd s)).setStatus main .idle

def bootGhost (reaper : Nat) : Ghost := ⟨fun t => if t = reaper then .check else .running, [reaper], [], false⟩

def boot (main reaper rate kernelPd : Nat) (thread : Thread) (s : State) : Config :=
  ⟨bootState main reaper rate kernelPd thread s, bootGhost reaper⟩

-- The idle thread has the processor, and nothing sleeps or waits for the reaper.
structure Resting (m : Model) (ready : List Nat) : Prop where
  ready : m.ready = ready
  asleep : m.asleep = []
  dead : m.dead = []
  cur : m.cur = m.idle

theorem boot_resting (main reaper rate kernelPd : Nat) (thread : Thread) (s : State) (other : main ≠ reaper) :
    ∃ m, Good (boot main reaper rate kernelPd thread s).state (boot main reaper rate kernelPd thread s).ghost m ∧
      Resting m [reaper] := by
  let blank : State := { initSched main rate kernelPd s with zombieQue := emptyList, reaper := reaper }
  let m : Model :=
    ⟨[], [], [], fun t => (blank.thread t).status, fun t => (blank.thread t).wakeAt, blank.ticks, main, main, reaper⟩
  have start : Sim blank m := by
    refine ⟨⟨empty_queue _, empty_queue _, empty_queue _, ?_, ?_, ?_⟩, fun _ => rfl, fun _ => rfl, rfl, rfl,
      rfl, rfl⟩ <;> simp [m]
  have installed := install_sim start reaper thread
  have ready := sim_thread_ready installed reaper (by simp [Model.Loose, m])
  have marked := sim_status ready main .idle
  refine ⟨_, ⟨marked, ?_, rfl⟩, rfl, rfl, rfl, rfl⟩
  have status (x : Nat) : (Model.setStatus (Model.threadReady reaper
      { m with status := update m.status reaper thread.status, wakeAt := update m.wakeAt reaper thread.wakeAt })
        main .idle).status x =
      if x = main then .idle else if x = reaper then .runnable else m.status x := by
    grind [update_apply]
  exact {
    ready := by grind [boot, bootGhost]
    asleep := by grind [boot, bootGhost]
    dead := by grind [boot, bootGhost]
    running := by grind [boot, bootGhost]
    busy := by grind [boot, bootGhost]
    cur := .inl rfl
    idleOut := by grind [boot, bootGhost]
    idleStatus := by grind
    reaperIn := by grind [boot, bootGhost]
    reaperLives := by grind
    parked := by grind [boot, bootGhost]
    quiet := fun _ => rfl
    exiting := by grind [boot, bootGhost]
    reaperPoint := .inl (if_pos rfl)
    found := by grind [boot, bootGhost]
    victim := by grind [boot, bootGhost]
    gone := by grind [boot, bootGhost]
    idleKept := by grind [boot, bootGhost]
    onCpu := by grind
    sleeping := by grind
    parking := by grind }

theorem boot_good (main reaper rate kernelPd : Nat) (thread : Thread) (s : State) (other : main ≠ reaper) :
    ∃ m, Good (boot main reaper rate kernelPd thread s).state (boot main reaper rate kernelPd thread s).ghost m := by
  obtain ⟨m, good, -⟩ := boot_resting main reaper rate kernelPd thread s other
  exact ⟨m, good⟩

theorem good_run (c c' : Config) (m : Model) (good : Good c.state c.ghost m) (run : ReflTransGen Step c c') :
    ∃ m', Good c'.state c'.ghost m' := by
  induction run with
  | refl => exact ⟨m, good⟩
  | tail _ step ih =>
      obtain ⟨middle, goodMiddle⟩ := ih
      exact good_step _ goodMiddle step

-- A popped zombie waits for `destroy_thread`, the next step of the reaper.
def Popped (c : Config) (t : Nat) : Prop := c.ghost.point c.state.reaper = .destroy t

-- The reaper has put itself to sleep and nobody has woken it since.
def ParkedReaper (c : Config) (t : Nat) : Prop := t = c.state.reaper ∧ c.ghost.parked = true

def statusOf (c : Config) (t : Nat) : Status := (c.state.thread t).status

structure Consistent (c : Config) (que sleepQue zombieQue : List Nat) : Prop where
  wellFormed : IsQueue c.state.nodes c.state.que que ∧ IsQueue c.state.nodes c.state.sleepQue sleepQue ∧
    IsQueue c.state.nodes c.state.zombieQue zombieQue
  disjoint : (que ++ sleepQue ++ zombieQue).Nodup
  known : ∀ t ∈ que ++ sleepQue ++ zombieQue, t ∈ c.ghost.alive
  runnable : ∀ t ∈ c.ghost.alive, statusOf c t = .runnable ↔ t ∈ que
  zombie : ∀ t ∈ c.ghost.alive, statusOf c t = .zombie ↔ t ∈ zombieQue ∨ Popped c t
  sleeping : ∀ t ∈ c.ghost.alive, statusOf c t = .sleeping ↔ t ∈ sleepQue ∨ ParkedReaper c t
  running : ∀ t, t ∈ c.ghost.alive ∨ t = c.state.idleThread → statusOf c t = .running → t = c.state.curThread
  idle : c.state.idleThread ∉ que ++ sleepQue ++ zombieQue ∧ statusOf c c.state.idleThread = .idle
  notLost : ∀ t ∈ c.ghost.alive, ¬ Popped c t →
    (que ++ sleepQue ++ zombieQue).count t = 1 ∨ (t = c.state.curThread ∧ statusOf c t = .running) ∨ ParkedReaper c t

section Good

variable {c : Config} {m : Model}

theorem good_disjoint (good : Good c.state c.ghost m) : (m.ready ++ m.asleep ++ m.dead).Nodup := by
  have sim := good.sim
  refine List.nodup_append.mpr ⟨List.nodup_append.mpr ⟨sim.que.dll.1, sim.sleepQue.dll.1, ?_⟩, sim.zombieQue.dll.1, ?_⟩
  · rintro x inReady y inAsleep rfl
    exact sim.readyAsleep x inReady inAsleep
  · rintro x either y inDead rfl
    rcases List.mem_append.mp either with inReady | inAsleep
    · exact sim.readyDead x inReady inDead
    · exact sim.asleepDead x inAsleep inDead

theorem good_known (good : Good c.state c.ghost m) (t : Nat) (member : t ∈ m.ready ++ m.asleep ++ m.dead) :
    t ∈ c.ghost.alive := by
  simp only [List.mem_append] at member
  rcases member with (inReady | inAsleep) | inDead
  · exact ((good.inv.ready t).mp inReady).1
  · exact ((good.inv.asleep t).mp inAsleep).1
  · exact ((good.inv.dead t).mp inDead).1

theorem good_place (good : Good c.state c.ghost m) (t : Nat) (alive : t ∈ c.ghost.alive) (notPopped : ¬ Popped c t) :
    t ∈ m.ready ++ m.asleep ++ m.dead ∨ (t = c.state.curThread ∧ statusOf c t = .running) ∨ ParkedReaper c t := by
  have inv := good.inv
  rw [Popped, good.sim.reaper] at notPopped
  rw [statusOf, ParkedReaper, good.sim.status, good.sim.cur, good.sim.reaper, List.mem_append, List.mem_append]
  cases status : m.status t with
  | running => exact .inr (.inl ⟨inv.running t alive status, rfl⟩)
  | runnable => exact .inl (.inl (.inl ((inv.ready t).mpr ⟨alive, status⟩)))
  | idle => exact absurd status (inv.busy t alive)
  | zombie => exact .inl (.inr ((inv.dead t).mpr ⟨alive, status, notPopped⟩))
  | sleeping =>
      by_cases isReaper : t = m.reaper
      · exact .inr (.inr ⟨isReaper, inv.parked.mpr (isReaper ▸ status)⟩)
      · exact .inl (.inl (.inr ((inv.asleep t).mpr ⟨alive, status, isReaper⟩)))

theorem good_consistent (good : Good c.state c.ghost m) : Consistent c m.ready m.asleep m.dead := by
  have inv := good.inv
  have status (t : Nat) : statusOf c t = m.status t := good.sim.status t
  refine ⟨⟨good.sim.que, good.sim.sleepQue, good.sim.zombieQue⟩, good_disjoint good, good_known good, ?_,
    ?_, ?_, ?_, ?_, ?_⟩
  · intro t alive
    rw [status, inv.ready]
    simp [alive]
  · intro t alive
    rw [status, inv.dead, Popped, good.sim.reaper]
    by_cases popped : c.ghost.point m.reaper = .destroy t
    · simp [popped, (inv.victim t popped).2]
    · simp [popped, alive]
  · intro t alive
    rw [status, inv.asleep, ParkedReaper, good.sim.reaper, inv.parked]
    by_cases isReaper : t = m.reaper
    · simp [isReaper]
    · simp [isReaper, alive]
  · rintro t (alive | isIdle) running
    · rw [good.sim.cur]
      exact inv.running t alive (status t ▸ running)
    · rw [status, isIdle, good.sim.idle, inv.idleStatus] at running
      cases running
  · rw [status, good.sim.idle]
    exact ⟨fun member => inv.idleOut (good_known good _ member), inv.idleStatus⟩
  · intro t alive notPopped
    rcases good_place good t alive notPopped with queued | rest
    · exact .inl (List.count_eq_one_of_mem (good_disjoint good) queued)
    · exact .inr rest

end Good

-- Neither a switch nor a wake-up depends on the object at `t` or changes it.
def Untouched (s : State) (t : Nat) : Prop :=
  s.curThread ≠ t ∧ ∀ thread next prev,
    scheduler (s.poke t thread next prev) = (scheduler s).map (·.poke t thread next prev) ∧
      wakeUpThreads (s.poke t thread next prev) = (wakeUpThreads s).map (·.poke t thread next prev) ∧
      timer (s.poke t thread next prev) = (timer s).map (·.poke t thread next prev)

-- The configuration once `destroy_thread(t)` has returned.
def destroyed (c : Config) (t : Nat) : Config := ⟨c.state, (c.ghost.remove t).move c.state.reaper .check⟩

-- A step that makes no new thread of the memory at `t`.
def Elsewhere (t : Nat) (c c' : Config) : Prop := Step c c' ∧ t ∉ c'.ghost.alive

theorem elsewhere_steps (t : Nat) (c c' : Config) (run : ReflTransGen (Elsewhere t) c c') : ReflTransGen Step c c' :=
  ReflTransGen.mono (fun _ _ (step : Elsewhere t _ _) => step.1) _ _ run

theorem elsewhere_step (t : Nat) (c c' : Config) (gone : t ∈ c.ghost.destroyed) (step : Elsewhere t c c') :
    t ∈ c'.ghost.destroyed := by
  obtain ⟨step, notAlive⟩ := step
  cases step with
  | ready s g x thread new notIdle =>
      have other : t ≠ x := fun same => notAlive (by simp [Ghost.add, same])
      simpa [Ghost.add, other] using gone
  | reaperDestroy s g x isReaper point => exact List.mem_cons_of_mem x gone
  | _ => exact gone

theorem elsewhere_run (t : Nat) (c c' : Config) (gone : t ∈ c.ghost.destroyed) (run : ReflTransGen (Elsewhere t) c c') :
    t ∈ c'.ghost.destroyed := by
  induction run with
  | refl => exact gone
  | tail _ step ih => exact elsewhere_step t _ _ ih step

theorem good_untouched {c : Config} {m : Model} (good : Good c.state c.ghost m) (t : Nat)
    (gone : t ∈ c.ghost.destroyed) :
    Untouched c.state t := by
  have inv := good.inv
  have notAlive : t ∉ c.ghost.alive := fun alive => inv.gone t alive gone
  have loose := not_alive_loose inv.toCore t notAlive
  have notIdle : m.idle ≠ t := fun same => inv.idleKept (same ▸ gone)
  have notCur : m.cur ≠ t := inv.cur.elim (fun isIdle => isIdle ▸ notIdle) (fun alive same => notAlive (same ▸ alive))
  have ticked : Core (m.tick c.state.tickRate) c.ghost := { inv.toCore with }
  refine ⟨good.sim.cur ▸ notCur, fun thread next prev => ⟨?_, ?_, ?_⟩⟩
  · exact scheduler_poke thread next prev good.sim loose notCur notIdle (loose_running inv.toCore m.cur)
  · exact wake_loop_poke thread next prev _ good.sim loose
  · exact timer_poke thread next prev good.sim loose notCur notIdle
      (loose_running (core_wake ticked good.sim.sleepQue.dll.1) m.cur)

-- A small run: thread 3 starts, exits and is popped by the reaper 2; thread 1 is idle.
def blankThread : Thread := ⟨0, 0, .running, 0, 0⟩

def blankState : State :=
  ⟨⟨fun _ => none, fun _ => none⟩, fun _ => blankThread, emptyList, emptyList, emptyList, 0, 0, 0, 0, 0, 0, 0, 0, 0⟩

def result {α : Type} (fallback : α) (r : Except String α) : α :=
  match r with
  | .ok s => s
  | .error _ => fallback

def returns {α : Type} (r : Except String α) : Bool :=
  match r with
  | .ok _ => true
  | .error _ => false

theorem returns_ok {α : Type} (fallback : α) (r : Except String α) (done : returns r = true) :
    r = .ok (result fallback r) := by
  cases r with
  | ok s => rfl
  | error e => cases done

def smallBoot : Config := boot 1 2 1 0 blankThread blankState

def smallStarted : Config := ⟨threadReady 3 (smallBoot.state.install 3 blankThread), smallBoot.ghost.add 3⟩

def smallReaper : Config := ⟨result blankState (timer smallStarted.state), smallStarted.ghost⟩

def smallParked : Config := ⟨park smallReaper.state, { smallReaper.ghost.move 2 .parking with parked := true }⟩

def smallRunning : Config := ⟨result blankState (scheduler smallParked.state), smallParked.ghost.move 2 .check⟩

def smallExited : Config :=
  ⟨reaperAdd 3 smallRunning.state, { smallRunning.ghost.move 3 .exiting with parked := false }⟩

def smallSwitched : Config := ⟨result blankState (scheduler smallExited.state), smallExited.ghost⟩

def smallFound : Config := ⟨smallSwitched.state, smallSwitched.ghost.move 2 .pop⟩

def smallPop : Nat × State := result (0, blankState) (popZombie smallFound.state)

def smallPopped : Config := ⟨smallPop.2, smallFound.ghost.move 2 (.destroy smallPop.1)⟩

theorem small_run : ReflTransGen Step smallBoot smallFound := by
  have started : Step smallBoot smallStarted := .ready _ _ 3 blankThread (by decide) (by decide)
  have reaper : Step smallStarted smallReaper := .timer _ _ _ (returns_ok _ _ (by decide))
  have parked : Step smallReaper smallParked := .reaperPark _ _ (by decide) (by decide) (by decide)
  have running : Step smallParked smallRunning :=
    .reaperSwitch _ _ _ (by decide) (by decide) (returns_ok _ _ (by decide))
  have exited : Step smallRunning smallExited := .exit _ _ (by decide) (by decide)
  have switched : Step smallExited smallSwitched := .exitSwitch _ _ _ (by decide) (returns_ok _ _ (by decide))
  have found : Step smallSwitched smallFound := .reaperFound _ _ (by decide) (by decide) (by decide)
  exact ((((((ReflTransGen.single started).tail reaper).tail parked).tail running).tail exited).tail switched).tail
    found

theorem small_run_popped : ReflTransGen Step smallBoot smallPopped :=
  small_run.tail (.reaperPop _ _ _ smallPop.1 (by decide) (by decide) (returns_ok (0, blankState) _ (by decide)))

section Boot

variable (main reaper rate kernelPd : Nat) (thread : Thread) (s : State) (other : main ≠ reaper)

include other

-- Scheduler state invariant, and no call of a run panics.
theorem scheduler_invariant (c : Config) (run : ReflTransGen Step (boot main reaper rate kernelPd thread s) c) :
    (∃ que sleepQue zombieQue, Consistent c que sleepQue zombieQue) ∧
      (∃ s', timer c.state = .ok s') ∧ (∃ s', scheduler c.state = .ok s') ∧
      (c.ghost.point c.state.reaper = .pop → ∃ t s', popZombie c.state = .ok (t, s')) ∧
      (c.state.curThread ≠ c.state.idleThread → c.ghost.point c.state.curThread = .drowsy →
        ∃ s', goToSleep c.state = .ok s') := by
  obtain ⟨start, goodStart⟩ := boot_good main reaper rate kernelPd thread s other
  obtain ⟨m, good⟩ := good_run _ c start goodStart run
  refine ⟨⟨_, _, _, good_consistent good⟩, ?_, ?_, ?_, ?_⟩
  · obtain ⟨s', done, -⟩ := good_timer good
    exact ⟨s', done⟩
  · obtain ⟨s', done, -⟩ := good_scheduler good
    exact ⟨s', done⟩
  · intro point
    obtain ⟨t, s', done, -⟩ := good_pop good point
    exact ⟨t, s', done⟩
  · intro notIdle point
    rw [good.sim.cur] at notIdle point
    rw [good.sim.idle] at notIdle
    have running := (cur_running good.inv notIdle (.inr point)).2.2
    obtain ⟨s', done, -⟩ := sim_go_to_sleep good.sim (loose_running good.inv.toCore m.cur running)
    exact ⟨s', done⟩

omit other in
theorem scheduler_invariant_small :
    statusOf smallFound 3 = .zombie ∧ ∃ que sleepQue zombieQue, Consistent smallFound que sleepQue zombieQue :=
  ⟨by decide, (scheduler_invariant 1 2 1 0 blankThread blankState (by decide) smallFound small_run).1⟩

-- The reaper never sleeps while there is a zombie, and is in the queue at most once.
theorem reaper_wakes (c : Config) (run : ReflTransGen Step (boot main reaper rate kernelPd thread s) c) :
    (statusOf c c.state.reaper = .sleeping → c.state.zombieQue.head = none) ∧
      ∃ que, IsQueue c.state.nodes c.state.que que ∧ que.count c.state.reaper ≤ 1 ∧
        (c.state.zombieQue.head ≠ none → c.state.curThread = c.state.reaper ∨ que.count c.state.reaper = 1) := by
  obtain ⟨start, goodStart⟩ := boot_good main reaper rate kernelPd thread s other
  obtain ⟨m, good⟩ := good_run _ c start goodStart run
  have inv := good.inv
  have once := good.sim.que.dll.1
  rw [statusOf, good.sim.status, good.sim.reaper, good.sim.cur, zombie_head good.sim]
  refine ⟨inv.quiet, m.ready, good.sim.que, List.nodup_iff_count_le_one.mp once _, ?_⟩
  intro waiting
  cases status : m.status m.reaper with
  | running => exact .inl (inv.running _ inv.reaperIn status).symm
  | runnable => exact .inr (List.count_eq_one_of_mem once ((inv.ready _).mpr ⟨inv.reaperIn, status⟩))
  | idle => exact absurd status (inv.busy _ inv.reaperIn)
  | zombie => exact absurd status inv.reaperLives
  | sleeping => exact absurd ((zombie_head good.sim).mpr (inv.quiet status)) waiting

omit other in
theorem reaper_wakes_small : smallFound.state.zombieQue.head = some 3 ∧
    ∃ que, IsQueue smallFound.state.nodes smallFound.state.que que ∧ que.count 2 ≤ 1 := by
  obtain ⟨que, queue, once, -⟩ := (reaper_wakes 1 2 1 0 blankThread blankState (by decide) smallFound small_run).2
  exact ⟨by decide, que, queue, once⟩

-- A thread is reclaimed only after it has stopped for good.
theorem reclaimed_for_good (c : Config) (run : ReflTransGen Step (boot main reaper rate kernelPd thread s) c) (t : Nat)
    (isReaper : c.state.curThread = c.state.reaper) (popped : Popped c t) :
    c.ghost.point t = .exiting ∧ t ≠ c.state.curThread ∧ c.state.onStack ≠ t ∧ t ∉ c.ghost.destroyed ∧
      (∃ que sleepQue zombieQue, IsQueue c.state.nodes c.state.que que ∧
        IsQueue c.state.nodes c.state.sleepQue sleepQue ∧
        IsQueue c.state.nodes c.state.zombieQue zombieQue ∧ t ∉ que ++ sleepQue ++ zombieQue) ∧
      ∀ c', ReflTransGen (Elsewhere t) (destroyed c t) c' → t ∉ c'.ghost.alive ∧ Untouched c'.state t := by
  obtain ⟨start, goodStart⟩ := boot_good main reaper rate kernelPd thread s other
  obtain ⟨m, good⟩ := good_run _ c start goodStart run
  have inv := good.inv
  rw [Popped, good.sim.reaper] at popped
  obtain ⟨alive, zombie⟩ := inv.victim t popped
  have notReaper : t ≠ m.reaper := fun same => inv.reaperLives (same ▸ zombie)
  have onCpu : c.state.curThread ≠ t := by rw [isReaper, good.sim.reaper]; exact Ne.symm notReaper
  have loose : m.Loose t := by
    refine ⟨fun member => ?_, fun member => ?_, fun member => ((inv.dead t).mp member).2.2 popped⟩
    · cases zombie.symm.trans ((inv.ready t).mp member).2
    · cases zombie.symm.trans ((inv.asleep t).mp member).2.1
  refine ⟨(inv.exiting t alive notReaper).mp zombie, Ne.symm onCpu, good.stack ▸ onCpu, inv.gone t alive, ?_, ?_⟩
  · refine ⟨_, _, _, good.sim.que, good.sim.sleepQue, good.sim.zombieQue, ?_⟩
    simpa [Model.Loose, not_or, and_assoc] using loose
  · intro c' later
    have step : Step c (destroyed c t) :=
      .reaperDestroy c.state c.ghost t isReaper (by rw [good.sim.reaper]; exact popped)
    have gone : t ∈ c'.ghost.destroyed := elsewhere_run t _ c' (by simp [destroyed, Ghost.move, Ghost.remove]) later
    obtain ⟨m', good'⟩ := good_run _ c' start goodStart ((run.tail step).trans (elsewhere_steps t _ c' later))
    exact ⟨fun alive' => good'.inv.gone t alive' gone, good_untouched good' t gone⟩

omit other in
theorem reclaimed_for_good_small :
    Popped smallPopped 3 ∧ smallPopped.ghost.point 3 = .exiting ∧ smallPopped.state.onStack ≠ 3 := by
  have popped : Popped smallPopped 3 := by
    rw [Popped]
    decide
  obtain ⟨exiting, -, stack, -⟩ :=
    reclaimed_for_good 1 2 1 0 blankThread blankState (by decide) smallPopped small_run_popped 3
    (by decide) popped
  exact ⟨popped, exiting, stack⟩

end Boot

end X86OS.Sched
