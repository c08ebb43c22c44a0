import X86OS.Sched.Properties

set_option autoImplicit false

namespace X86OS.Sched

open Function Relation

-- Steps that neither make nor destroy a thread.
def Quiet (c c' : Config) : Prop := Step c c' ∧ c'.ghost.alive = c.ghost.alive ∧ c'.ghost.destroyed = c.ghost.destroyed

section Exit

variable {s : State} {g : Ghost} {m : Model} {t : Nat}

theorem timer_resting (rate first : Nat) (rest : List Nat) (resting : Resting m (first :: rest))
    (idle : m.status m.idle = .idle) :
    (m.timer rate).cur = first ∧ (m.timer rate).ready = rest ∧ (m.timer rate).dead = [] ∧
      (m.timer rate).reaper = m.reaper ∧
      (m.timer rate).idle = m.idle := by
  obtain ⟨ready, asleep, dead, cur⟩ := resting
  simp [Model.timer, Model.tick, Model.wakeUpThreads, Model.scheduler, Model.requeue, Model.dispatch, ready,
    asleep, dead, cur, idle]

theorem scheduler_next (first : Nat) (rest : List Nat) (ready : m.ready = first :: rest)
    (stopped : m.status m.cur ≠ .running) :
    m.scheduler.cur = first ∧ m.scheduler.ready = rest ∧ m.scheduler.dead = m.dead := by
  simp [Model.scheduler, Model.requeue, Model.dispatch, ready, stopped]

-- The reaper gets the processor, finds nothing and leaves it to the only other thread.
theorem reaper_yields (good : Good s g m) (resting : Resting m [m.reaper, t]) (check : g.point m.reaper = .check)
    (other : t ≠ m.reaper) :
    ∃ s' g' m', ReflTransGen Quiet ⟨s, g⟩ ⟨s', g'⟩ ∧ Good s' g' m' ∧ m'.reaper = m.reaper ∧ m'.idle = m.idle ∧
      m'.cur = t ∧ m'.ready = [] ∧ m'.dead = [] ∧ g'.point m.reaper = .check ∧ g'.point t = g.point t := by
  obtain ⟨s1, ticked, good1⟩ := good_timer good
  obtain ⟨cur1, ready1, dead1, reaper1, idle1⟩ := timer_resting s.tickRate m.reaper [t] resting good.inv.idleStatus
  generalize m.timer s.tickRate = m1 at *
  have isReaper : s1.curThread = s1.reaper := by rw [good1.sim.cur, good1.sim.reaper, cur1, reaper1]
  have point1 : g.point s1.reaper = .check := by rw [good1.sim.reaper, reaper1, check]
  have nothing := (zombie_head good1.sim).mpr dead1
  have good2 := good_fire .park _ good1 (if_pos ⟨isReaper, point1, nothing⟩)
  have point2 : (g.move s1.reaper .parking).point s1.reaper = .parking := update_self _ _ _
  obtain ⟨s3, switched, -⟩ := good_scheduler good2
  have good3 := good_reaper_switch good2 (good1.sim.reaper ▸ point2) switched
  have stopped : m1.park.status m1.park.cur ≠ .running := by
    rw [show m1.park.cur = m1.reaper from cur1.trans reaper1.symm, Model.park, Model.set_status_at, if_pos rfl]
    decide
  obtain ⟨cur3, ready3, dead3⟩ := scheduler_next t [] (show m1.park.ready = [t] from ready1) stopped
  obtain ⟨idle3, reaper3⟩ := scheduler_same m1.park
  refine ⟨s3, _, m1.park.scheduler, ?_, good3, reaper3.trans reaper1, idle3.trans idle1, cur3, ready3,
    dead3.trans dead1, ?_, ?_⟩
  · have tick : Quiet ⟨s, g⟩ ⟨s1, g⟩ := ⟨.timer s s1 g ticked, rfl, rfl⟩
    have park : Quiet ⟨s1, g⟩ ⟨park s1, { g.move s1.reaper .parking with parked := true }⟩ :=
      ⟨.reaperPark s1 g isReaper point1 nothing, rfl, rfl⟩
    refine .tail (.tail (.single tick) park) ⟨?_, rfl, rfl⟩
    have step :=
      Step.reaperSwitch (Sched.park s1) s3 { g.move s1.reaper .parking with parked := true } isReaper point2 switched
    rwa [show (Sched.park s1).reaper = m1.park.reaper from good1.sim.reaper] at step
  · rw [← reaper1]
    exact update_self _ _ _
  · have apart : t ≠ m1.reaper := reaper1 ▸ other
    exact (update_of_ne apart _ _).trans (update_of_ne (good1.sim.reaper ▸ apart) _ _)

-- The last thread exits; the reaper was asleep, is woken and gets the processor.
theorem last_exits (good : Good s g m) (cur : m.cur = t) (ready : m.ready = []) (dead : m.dead = [])
    (notIdle : t ≠ m.idle) (running : g.point t = .running) :
    ∃ s' m', ReflTransGen Quiet ⟨s, g⟩ ⟨s', { g.move t .exiting with parked := false }⟩ ∧
      Good s' { g.move t .exiting with parked := false } m' ∧ m'.reaper = m.reaper ∧ m'.cur = m.reaper ∧
        m'.dead = [t] := by
  obtain ⟨-, other, -⟩ := cur_running good.inv (cur ▸ notIdle) (.inl (cur ▸ running))
  rw [cur] at other
  have good1 := good_exit good (cur ▸ notIdle) (cur ▸ running)
  rw [cur] at good1
  have asleep : m.status m.reaper ≠ .runnable := by
    intro runnable
    have member := (good.inv.ready m.reaper).mpr ⟨good.inv.reaperIn, runnable⟩
    rw [ready] at member
    cases member
  have woken : m.reaperAdd t = (m.bury t).threadReady m.reaper := by
    apply if_pos
    rw [Model.bury_at, if_neg other.symm]
    exact asleep
  rw [woken] at good1
  obtain ⟨s', switched, good2⟩ := good_scheduler good1
  have stopped : ((m.bury t).threadReady m.reaper).status m.cur ≠ .running := by
    rw [Model.thread_ready_at, cur, if_neg other, Model.bury_at, if_pos rfl]
    decide
  have queue : ((m.bury t).threadReady m.reaper).ready = [m.reaper] := by
    change m.ready ++ [m.reaper] = _
    rw [ready, List.nil_append]
  have grave : ((m.bury t).threadReady m.reaper).dead = [t] := by
    change m.dead ++ [t] = _
    rw [dead, List.nil_append]
  obtain ⟨cur2, -, dead2⟩ := scheduler_next m.reaper [] queue stopped
  refine ⟨s', _, ?_, good2, (scheduler_same _).2, cur2, dead2.trans grave⟩
  have here : s.curThread = t := good.sim.cur.trans cur
  have left : (reaperAdd t s).curThread = t := good1.sim.cur.trans cur
  have exit : Quiet ⟨s, g⟩ ⟨reaperAdd t s, { g.move t .exiting with parked := false }⟩ := by
    have step := Step.exit s g (by rw [here, good.sim.idle]; exact notIdle) (by rw [here]; exact running)
    rw [here] at step
    exact ⟨step, rfl, rfl⟩
  exact .tail (.single exit) ⟨.exitSwitch _ s' _ (by rw [left]; exact update_self _ _ _) switched, rfl, rfl⟩

theorem reaper_pops (good : Good s g m) (cur : m.cur = m.reaper) (dead : m.dead = [t])
    (check : g.point m.reaper = .check) :
    ∃ s' g', ReflTransGen Quiet ⟨s, g⟩ ⟨s', g'⟩ ∧ s'.curThread = s'.reaper ∧ g'.point s'.reaper = .destroy t := by
  have isReaper : s.curThread = s.reaper := by rw [good.sim.cur, good.sim.reaper, cur]
  obtain ⟨s', popped, sim⟩ := sim_pop_dead good.sim t [] dead
  have found : s.zombieQue.head ≠ none := by
    intro none
    have empty := (zombie_head good.sim).mp none
    rw [dead] at empty
    cases empty
  have find : Quiet ⟨s, g⟩ ⟨s, g.move s.reaper .pop⟩ :=
    ⟨.reaperFound s g isReaper (by rw [good.sim.reaper]; exact check) found, rfl, rfl⟩
  have pop : Quiet ⟨s, g.move s.reaper .pop⟩ ⟨s', (g.move s.reaper .pop).move s.reaper (.destroy t)⟩ :=
    ⟨.reaperPop s s' _ t isReaper (update_self _ _ _) popped, rfl, rfl⟩
  refine ⟨s', _, .tail (.single find) pop, ?_, ?_⟩
  · rw [sim.cur, sim.reaper]
    exact cur
  · rw [sim.reaper, good.sim.reaper]
    exact update_self _ _ _

theorem exits_to_reaper (good : Good s g m) (resting : Resting m [m.reaper, t]) (check : g.point m.reaper = .check)
    (running : g.point t = .running) :
    ∃ s' g', ReflTransGen Quiet ⟨s, g⟩ ⟨s', g'⟩ ∧ s'.curThread = s'.reaper ∧ g'.point s'.reaper = .destroy t := by
  have alive : t ∈ g.alive := ((good.inv.ready t).mp (by simp [resting.ready])).1
  have other : t ≠ m.reaper := by
    rintro rfl
    cases check.symm.trans running
  obtain ⟨s1, g1, m1, run1, good1, reaper1, idle1, cur1, ready1, dead1, check1, same⟩ :=
    reaper_yields good resting check other
  have notIdle : t ≠ m1.idle := idle1 ▸ ne_of_mem_of_not_mem alive good.inv.idleOut
  obtain ⟨s2, m2, run2, good2, reaper2, cur2, dead2⟩ := last_exits good1 cur1 ready1 dead1 notIdle (same.trans running)
  obtain ⟨s3, g3, run3, isReaper, point⟩ := reaper_pops good2 (cur2.trans reaper2.symm) dead2
    (by rw [reaper2, reaper1]; exact (update_of_ne other.symm _ _).trans check1)
  exact ⟨s3, g3, (run1.trans run2).trans run3, isReaper, point⟩

end Exit

end X86OS.Sched
