import X86OS.Sched.Runs

set_option autoImplicit false

namespace X86OS.Sched

open Function Relation

-- A step by name. `call` is `thread_sleep` before its atomic section, `enqueue` the section.
inductive Event where
  | tick
  | ready (t : Nat) (thread : Thread)
  | yield
  | call (time : Nat)
  | enqueue
  | sleepSwitch
  | exit
  | exitSwitch
  | found
  | park
  | reaperSwitch
  | pop
  | destroy

-- The events that call `scheduler`.
def Event.switches : Event → Bool
  | .tick | .yield | .sleepSwitch | .exitSwitch | .reaperSwitch => true
  | _ => false

def outcome (g : Ghost) : Except String State → Option Config
  | .ok s => some ⟨s, g⟩
  | .error _ => none

-- What an event makes of a configuration, if it can happen there.
def fire (e : Event) (c : Config) : Option Config :=
  let s := c.state
  let g := c.ghost
  match e with
  | .tick => outcome g (timer s)
  | .ready t thread =>
      if t ∉ g.alive ∧ t ≠ s.idleThread then some ⟨threadReady t (s.install t thread), g.add t⟩ else none
  | .yield => if g.point s.curThread = .running then outcome g (scheduler s) else none
  | .call time =>
      if s.curThread ≠ s.idleThread ∧ g.point s.curThread = .running then
        some ⟨sleepUntil time s, g.move s.curThread .drowsy⟩
      else none
  | .enqueue =>
      if s.curThread ≠ s.idleThread ∧ g.point s.curThread = .drowsy then
        outcome (g.move s.curThread .asleep) (goToSleep s)
      else none
  | .sleepSwitch => if g.point s.curThread = .asleep then outcome (g.move s.curThread .running) (scheduler s) else none
  | .exit =>
      if s.curThread ≠ s.idleThread ∧ g.point s.curThread = .running then
        some ⟨reaperAdd s.curThread s, { g.move s.curThread .exiting with parked := false }⟩
      else none
  | .exitSwitch => if g.point s.curThread = .exiting then outcome g (scheduler s) else none
  | .found =>
      if s.curThread = s.reaper ∧ g.point s.reaper = .check ∧ s.zombieQue.head ≠ none then
        some ⟨s, g.move s.reaper .pop⟩
      else none
  | .park =>
      if s.curThread = s.reaper ∧ g.point s.reaper = .check ∧ s.zombieQue.head = none then
        some ⟨park s, { g.move s.reaper .parking with parked := true }⟩
      else none
  | .reaperSwitch =>
      if s.curThread = s.reaper ∧ g.point s.reaper = .parking then
        outcome (g.move s.reaper .check) (scheduler s)
      else none
  | .pop =>
      if s.curThread = s.reaper ∧ g.point s.reaper = .pop then
        match popZombie s with
        | .ok (t, s') => some ⟨s', g.move s.reaper (.destroy t)⟩
        | .error _ => none
      else none
  | .destroy =>
      match g.point s.reaper with
      | .destroy t => if s.curThread = s.reaper then some ⟨s, (g.remove t).move s.reaper .check⟩ else none
      | _ => none

theorem outcome_some (g : Ghost) (r : Except String State) (c : Config) (done : outcome g r = some c) :
    ∃ s, r = .ok s ∧ c = ⟨s, g⟩ := by
  cases r with
  | ok s => exact ⟨s, rfl, (Option.some.inj done).symm⟩
  | error e => cases done

theorem step_fires (c c' : Config) (step : Step c c') : ∃ e, fire e c = some c' := by
  cases step with
  | timer s s' g done => exact ⟨.tick, by simp only [fire, done, outcome]⟩
  | ready s g t thread new notIdle => exact ⟨.ready t thread, if_pos ⟨new, notIdle⟩⟩
  | yield s s' g point done => exact ⟨.yield, by simp only [fire, if_pos point, done, outcome]⟩
  | sleepUntil s g time notIdle point => exact ⟨.call time, if_pos ⟨notIdle, point⟩⟩
  | sleep s s' g notIdle point done =>
      exact ⟨.enqueue, (if_pos ⟨notIdle, point⟩).trans (by simp only [done, outcome])⟩
  | sleepSwitch s s' g point done => exact ⟨.sleepSwitch, by simp only [fire, if_pos point, done, outcome]⟩
  | exit s g notIdle point => exact ⟨.exit, if_pos ⟨notIdle, point⟩⟩
  | exitSwitch s s' g point done => exact ⟨.exitSwitch, by simp only [fire, if_pos point, done, outcome]⟩
  | reaperFound s g isReaper point found => exact ⟨.found, if_pos ⟨isReaper, point, found⟩⟩
  | reaperPark s g isReaper point nothing => exact ⟨.park, if_pos ⟨isReaper, point, nothing⟩⟩
  | reaperSwitch s s' g isReaper point done =>
      exact ⟨.reaperSwitch, (if_pos ⟨isReaper, point⟩).trans (by simp only [done, outcome])⟩
  | reaperPop s s' g t isReaper point done =>
      exact ⟨.pop, (if_pos ⟨isReaper, point⟩).trans (by simp only [done])⟩
  | reaperDestroy s g t isReaper point => exact ⟨.destroy, by simp only [fire, point, if_pos isReaper]⟩

-- The same event on the sequences of the model.
def Model.fire (e : Event) (rate : Nat) (m : Model) : Model :=
  match e with
  | .tick => m.timer rate
  | .ready t thread =>
      Model.threadReady t
        { m with status := update m.status t thread.status, wakeAt := update m.wakeAt t thread.wakeAt }
  | .yield | .sleepSwitch | .exitSwitch | .reaperSwitch => m.scheduler
  | .call time => m.sleepUntil time
  | .enqueue => m.goToSleep
  | .exit => m.reaperAdd m.cur
  | .park => m.park
  | .pop => m.popZombie
  | .found | .destroy => m

section Good

variable {s s' : State} {m : Model} {g : Ghost}

theorem good_switch (good : Good s g m) (done : scheduler s = .ok s') : Good s' g m.scheduler := by
  obtain ⟨s1, result, good'⟩ := good_scheduler good
  cases result.symm.trans done
  exact good'

theorem good_sleep_switch (good : Good s g m) (point : g.point m.cur = .asleep) (done : scheduler s = .ok s') :
    Good s' (g.move m.cur .running) m.scheduler := by
  have good' := good_switch good done
  obtain ⟨sameIdle, sameReaper⟩ := scheduler_same m
  have notReaper : m.cur ≠ m.reaper := by
    intro same
    have places := good.inv.reaperPoint
    simp [← same, point] at places
  have notZombie : m.scheduler.status m.cur ≠ .zombie := by
    intro zombie
    rcases good.inv.cur with isIdle | alive
    · rw [isIdle, ← sameIdle, good'.inv.idleStatus] at zombie
      cases zombie
    · have exiting := (good'.inv.exiting _ alive (sameReaper ▸ notReaper)).mp zombie
      rw [point] at exiting
      cases exiting
  exact ⟨good'.sim,
    inv_resume good'.inv m.cur (sameReaper ▸ notReaper) notZombie (sameIdle ▸ scheduler_cur m), good'.stack⟩

theorem good_reaper_switch (good : Good s g m) (point : g.point m.reaper = .parking) (done : scheduler s = .ok s') :
    Good s' (g.move m.reaper .check) m.scheduler := by
  have good' := good_switch good done
  obtain ⟨sameIdle, sameReaper⟩ := scheduler_same m
  have notVictim (t : Nat) : g.point m.scheduler.reaper ≠ .destroy t := by simp [sameReaper, point]
  have moved := inv_unpark good'.inv notVictim (sameIdle ▸ scheduler_cur m)
  rw [sameReaper] at moved
  exact ⟨good'.sim, moved, good'.stack⟩

theorem good_enqueue (good : Good s g m) (notIdle : m.cur ≠ m.idle) (point : g.point m.cur = .drowsy)
    (done : goToSleep s = .ok s') :
    Good s' (g.move m.cur .asleep) m.goToSleep := by
  obtain ⟨alive, notReaper, running⟩ := cur_running good.inv notIdle (.inr point)
  obtain ⟨s1, result, sim⟩ := sim_go_to_sleep good.sim (loose_running good.inv.toCore m.cur running)
  cases result.symm.trans done
  refine ⟨sim, inv_sleep good.inv alive notReaper running, ?_⟩
  simp only [goToSleep] at done
  split at done
  · cases done
  · cases done
    exact good.stack

theorem good_exit (good : Good s g m) (notIdle : m.cur ≠ m.idle) (point : g.point m.cur = .running) :
    Good (reaperAdd m.cur s) { g.move m.cur .exiting with parked := false } (m.reaperAdd m.cur) := by
  obtain ⟨alive, notReaper, running⟩ := cur_running good.inv notIdle (.inl point)
  have core := good.inv.toCore
  refine ⟨sim_reaper_add good.sim m.cur (loose_running core m.cur running) ?_ notReaper,
    inv_exit good.inv alive notReaper running, ?_⟩
  · exact fun notReady => loose_of_status core _ notReady (fun _ => rfl) core.reaperLives
  · simp only [reaperAdd]
    split
    · exact good.stack
    · exact good.stack

theorem good_fire (e : Event) (c' : Config) (good : Good s g m) (fired : fire e ⟨s, g⟩ = some c') :
    Good c'.state c'.ghost (m.fire e s.tickRate) := by
  have sim := good.sim
  have inv := good.inv
  cases e with
  | tick =>
      obtain ⟨s', done, rfl⟩ := outcome_some _ _ _ fired
      obtain ⟨s1, result, good'⟩ := good_timer good
      cases result.symm.trans done
      exact good'
  | ready t thread =>
      obtain ⟨⟨new, notIdle⟩, made⟩ := Option.ite_none_right_eq_some.mp fired
      cases made
      rw [sim.idle] at notIdle
      have placed := inv_forget inv t thread.status (update m.wakeAt t thread.wakeAt) new notIdle
      exact ⟨sim_thread_ready (install_sim sim t thread) t (not_alive_loose placed.toCore t new),
        inv_new placed t new notIdle, good.stack⟩
  | yield =>
      obtain ⟨point, made⟩ := Option.ite_none_right_eq_some.mp fired
      obtain ⟨s', done, rfl⟩ := outcome_some _ _ _ made
      exact good_switch good done
  | call time =>
      obtain ⟨⟨notIdle, point⟩, made⟩ := Option.ite_none_right_eq_some.mp fired
      cases made
      simp only [sim.cur, sim.idle] at notIdle point ⊢
      obtain ⟨-, notReaper, running⟩ := cur_running inv notIdle (.inl point)
      exact ⟨sim_sleep_until sim time, inv_drowsy inv time notReaper running, good.stack⟩
  | enqueue =>
      obtain ⟨⟨notIdle, point⟩, made⟩ := Option.ite_none_right_eq_some.mp fired
      obtain ⟨s', done, rfl⟩ := outcome_some _ _ _ made
      simp only [sim.cur, sim.idle] at notIdle point ⊢
      exact good_enqueue good notIdle point done
  | sleepSwitch =>
      obtain ⟨point, made⟩ := Option.ite_none_right_eq_some.mp fired
      obtain ⟨s', done, rfl⟩ := outcome_some _ _ _ made
      simp only [sim.cur] at point ⊢
      exact good_sleep_switch good point done
  | exit =>
      obtain ⟨⟨notIdle, point⟩, made⟩ := Option.ite_none_right_eq_some.mp fired
      cases made
      simp only [sim.cur, sim.idle] at notIdle point ⊢
      exact good_exit good notIdle point
  | exitSwitch =>
      obtain ⟨point, made⟩ := Option.ite_none_right_eq_some.mp fired
      obtain ⟨s', done, rfl⟩ := outcome_some _ _ _ made
      exact good_switch good done
  | found =>
      obtain ⟨⟨isReaper, point, found⟩, made⟩ := Option.ite_none_right_eq_some.mp fired
      cases made
      simp only [sim.cur, sim.reaper] at isReaper point ⊢
      exact ⟨sim, inv_found inv isReaper point (fun empty => found ((zombie_head sim).mpr empty)), good.stack⟩
  | park =>
      obtain ⟨⟨isReaper, point, nothing⟩, made⟩ := Option.ite_none_right_eq_some.mp fired
      cases made
      simp only [sim.cur, sim.reaper] at isReaper point ⊢
      exact ⟨sim_park sim, inv_park inv isReaper point ((zombie_head sim).mp nothing), good.stack⟩
  | reaperSwitch =>
      obtain ⟨⟨-, point⟩, made⟩ := Option.ite_none_right_eq_some.mp fired
      obtain ⟨s', done, rfl⟩ := outcome_some _ _ _ made
      simp only [sim.reaper] at point ⊢
      exact good_reaper_switch good point done
  | pop =>
      obtain ⟨⟨-, point⟩, made⟩ := Option.ite_none_right_eq_some.mp fired
      obtain ⟨t, s1, result, good'⟩ := good_pop good point
      simp only [result, Option.some.injEq] at made
      exact made ▸ good'
  | destroy =>
      simp only [fire] at fired
      split at fired
      · rename_i t point
        obtain ⟨isReaper, made⟩ := Option.ite_none_right_eq_some.mp fired
        cases made
        simp only [sim.cur, sim.reaper] at isReaper point ⊢
        exact ⟨sim, inv_destroy inv t isReaper point, good.stack⟩
      · cases fired

theorem good_step (c' : Config) (good : Good s g m) (step : Step ⟨s, g⟩ c') : ∃ m', Good c'.state c'.ghost m' := by
  obtain ⟨e, fired⟩ := step_fires _ c' step
  exact ⟨_, good_fire e c' good fired⟩

end Good

-- A run as the list of its events.
def execute : List Event → Config → Option Config
  | [], c => some c
  | e :: es, c => (fire e c).bind (execute es)

end X86OS.Sched
