import X86OS.Sched.Properties

set_option autoImplicit false

namespace X86OS.Sched

open Function Relation

-- What only a switch changes: who runs, the loaded directory and the stack for the next interrupt of ring 3.
-- The directories and stacks of the threads stay even then.
structure SamePlace (s s' : State) : Prop where
  cur : s'.curThread = s.curThread
  idle : s'.idleThread = s.idleThread
  cr3 : s'.cr3 = s.cr3
  esp0 : s'.esp0 = s.esp0
  pd : ∀ t, (s'.thread t).pd = (s.thread t).pd
  stack : ∀ t, (s'.thread t).stack = (s.thread t).stack

theorem same_place_refl (s : State) : SamePlace s s := ⟨rfl, rfl, rfl, rfl, fun _ => rfl, fun _ => rfl⟩

theorem same_place_trans (s s1 s2 : State) (first : SamePlace s s1) (second : SamePlace s1 s2) : SamePlace s s2 :=
  ⟨second.cur.trans first.cur, second.idle.trans first.idle, second.cr3.trans first.cr3, second.esp0.trans first.esp0,
    fun t => (second.pd t).trans (first.pd t), fun t => (second.stack t).trans (first.stack t)⟩

section Calls

variable (s s' : State)

theorem modify_place (t : Nat) (change : Thread → Thread) (pd : ∀ thread, (change thread).pd = thread.pd)
    (stack : ∀ thread, (change thread).stack = thread.stack) : SamePlace s (s.modify t change) := by
  refine ⟨rfl, rfl, rfl, rfl, fun x => ?_, fun x => ?_⟩
  · by_cases here : x = t
    · simp only [State.modify, here, update_self, pd]
    · simp only [State.modify, update_of_ne here]
  · by_cases here : x = t
    · simp only [State.modify, here, update_self, stack]
    · simp only [State.modify, update_of_ne here]

theorem status_place (t : Nat) (status : Status) : SamePlace s (s.setStatus t status) :=
  modify_place s t _ (fun _ => rfl) (fun _ => rfl)

theorem thread_ready_place (t : Nat) : SamePlace s (threadReady t s) := by
  have ready := status_place s t .runnable
  exact ⟨ready.cur, ready.idle, ready.cr3, ready.esp0, ready.pd, ready.stack⟩

theorem wake_loop_place (fuel : Nat) (done : wakeLoop fuel s = .ok s') : SamePlace s s' := by
  induction fuel generalizing s with
  | zero =>
      cases done
      exact same_place_refl _
  | succ fuel ih =>
      rw [wakeLoop] at done
      split at done
      · cases done
        exact same_place_refl _
      · split at done
        · split at done
          · cases done
          · rename_i t queue popped
            have woken := thread_ready_place (s.setSleepQue queue) t
            exact same_place_trans _ _ _
              ⟨woken.cur, woken.idle, woken.cr3, woken.esp0, woken.pd, woken.stack⟩ (ih _ done)
        · cases done
          exact same_place_refl _

theorem go_to_sleep_place (done : goToSleep s = .ok s') : SamePlace s s' := by
  have asleep := status_place s s.curThread .sleeping
  rw [goToSleep] at done
  split at done
  · cases done
  · cases done
    exact ⟨asleep.cur, asleep.idle, asleep.cr3, asleep.esp0, asleep.pd, asleep.stack⟩

theorem reaper_add_place (zombie : Nat) : SamePlace s (reaperAdd zombie s) := by
  have dead := status_place s zombie .zombie
  have queued (queue : DLList × Nodes) : SamePlace s ((s.setStatus zombie .zombie).setZombieQue queue) :=
    ⟨dead.cur, dead.idle, dead.cr3, dead.esp0, dead.pd, dead.stack⟩
  simp only [reaperAdd]
  split
  · exact same_place_trans _ _ _ (queued _) (thread_ready_place _ _)
  · exact queued _

-- A call either leaves all this alone or ends in a switch.
def Relocates : Prop := SamePlace s s' ∨ ∃ s1 next, SamePlace s s1 ∧ s' = dispatch s1.curThread next s1

theorem scheduler_relocates (done : scheduler s = .ok s') : Relocates s s' := by
  have queued : SamePlace s (requeue s) := by
    rw [requeue]
    split
    · exact thread_ready_place s _
    · exact same_place_refl s
  rw [scheduler] at done
  split at done
  · cases done
  · rename_i next s1 chosen
    cases done
    refine .inr ⟨s1, next, ?_, rfl⟩
    rw [getNextThread] at chosen
    split at chosen
    · cases chosen
      exact queued
    · split at chosen
      · cases chosen
      · cases chosen
        exact ⟨queued.cur, queued.idle, queued.cr3, queued.esp0, queued.pd, queued.stack⟩

theorem timer_relocates (done : timer s = .ok s') : Relocates s s' := by
  rw [timer] at done
  split at done
  · cases done
  · rename_i s1 woken
    have wakes := wake_loop_place (advance s) s1 _ woken
    have first : SamePlace s s1 := ⟨wakes.cur, wakes.idle, wakes.cr3, wakes.esp0, wakes.pd, wakes.stack⟩
    rcases scheduler_relocates s1 s' done with same | ⟨s2, next, second, made⟩
    · exact .inl (same_place_trans _ _ _ first same)
    · exact .inr ⟨s2, next, same_place_trans _ _ _ first second, made⟩

end Calls

theorem step_moves (s s' : State) (g g' : Ghost) (step : Step ⟨s, g⟩ ⟨s', g'⟩) :
    Relocates s s' ∨ ∃ t thread, t ∉ g.alive ∧ t ≠ s.idleThread ∧ s' = threadReady t (s.install t thread) ∧
      g' = g.add t := by
  cases step with
  | timer _ _ _ done => exact .inl (timer_relocates s s' done)
  | ready _ _ t thread new notIdle => exact .inr ⟨t, thread, new, notIdle, rfl, rfl⟩
  | yield _ _ _ point done => exact .inl (scheduler_relocates s s' done)
  | sleepUntil _ _ time notIdle point => exact .inl (.inl (modify_place s _ _ (fun _ => rfl) (fun _ => rfl)))
  | sleep _ _ _ notIdle point done => exact .inl (.inl (go_to_sleep_place s s' done))
  | sleepSwitch _ _ _ point done => exact .inl (scheduler_relocates s s' done)
  | exit _ _ notIdle point => exact .inl (.inl (reaper_add_place s _))
  | exitSwitch _ _ _ point done => exact .inl (scheduler_relocates s s' done)
  | reaperFound _ _ isReaper point found => exact .inl (.inl (same_place_refl s))
  | reaperPark _ _ isReaper point nothing => exact .inl (.inl (status_place s s.reaper .sleeping))
  | reaperSwitch _ _ _ isReaper point done => exact .inl (scheduler_relocates s s' done)
  | reaperPop _ _ _ t isReaper point done =>
      rw [popZombie] at done
      split at done
      · cases done
      · cases done
        exact .inl (.inl ⟨rfl, rfl, rfl, rfl, fun _ => rfl, fun _ => rfl⟩)
  | reaperDestroy _ _ t isReaper point => exact .inl (.inl (same_place_refl s))

-- The processor is where the current thread is: in its directory and, when a program is
-- interrupted, on its stack. The boot thread has no program.
structure InPlace (s : State) : Prop where
  space : s.cr3 = v2p (s.thread s.curThread).pd
  stack : s.curThread ≠ s.idleThread → s.esp0 = Word.add (s.thread s.curThread).stack 0x1000

theorem in_place_same (s s' : State) (same : SamePlace s s') (place : InPlace s) : InPlace s' := by
  refine ⟨?_, ?_⟩
  · rw [same.cr3, same.cur, same.pd]
    exact place.space
  · intro notIdle
    rw [same.cur, same.idle] at notIdle
    rw [same.esp0, same.cur, same.stack]
    exact place.stack notIdle

section Dispatch

variable (s : State) (prev : Nat) (next : Option Nat)

theorem mark_running_place (cur : Nat) : SamePlace s (markRunning cur s) := by
  rw [markRunning]
  split
  · exact status_place _ _ _
  · exact same_place_refl _

theorem switch_space_thread (cur : Nat) : (switchSpace prev cur s).thread = s.thread := by
  rw [switchSpace]
  split
  · rfl
  · rfl

theorem dispatch_thread (t : Nat) : ((dispatch prev next s).thread t).pd = (s.thread t).pd ∧
    ((dispatch prev next s).thread t).stack = (s.thread t).stack := by
  have marked := mark_running_place (s.setCur (next.getD s.idleThread)) (next.getD s.idleThread)
  rw [dispatch]
  generalize markRunning (next.getD s.idleThread) (s.setCur (next.getD s.idleThread)) = s1 at marked
  have before : (setEsp0 (next.getD s.idleThread) (switchSpace prev (next.getD s.idleThread) s1)).thread = s1.thread :=
    switch_space_thread s1 prev _
  generalize setEsp0 (next.getD s.idleThread) (switchSpace prev (next.getD s.idleThread) s1) = s2 at before
  have saved :=
    modify_place s2 prev (fun thread => { thread with esp := Word.sub s2.esp 32 }) (fun _ => rfl) (fun _ => rfl)
  refine ⟨(saved.pd t).trans ?_, (saved.stack t).trans ?_⟩
  · rw [before, marked.pd]
    rfl
  · rw [before, marked.stack]
    rfl

theorem dispatch_registers : (dispatch prev next s).curThread = next.getD s.idleThread ∧
    (dispatch prev next s).esp0 = Word.add (s.thread (next.getD s.idleThread)).stack 0x1000 ∧
    (dispatch prev next s).cr3 =
      if (s.thread (next.getD s.idleThread)).pd ≠ (s.thread prev).pd
        then v2p (s.thread (next.getD s.idleThread)).pd else s.cr3 := by
  obtain ⟨cur, -, cr3, -, pd, stack⟩ := mark_running_place (s.setCur (next.getD s.idleThread)) (next.getD s.idleThread)
  rw [dispatch]
  generalize markRunning (next.getD s.idleThread) (s.setCur (next.getD s.idleThread)) = s1 at cur cr3 pd stack
  simp only [State.setCur] at pd stack cur cr3
  simp only [contextSwitch, State.modify, setEsp0, switchSpace, refreshCr3, pd]
  split
  · exact ⟨cur, by rw [stack], rfl⟩
  · exact ⟨cur, by rw [stack], cr3⟩

theorem dispatch_idle : (dispatch prev next s).idleThread = s.idleThread := by
  have idle := (mark_running_place (s.setCur (next.getD s.idleThread)) (next.getD s.idleThread)).idle
  rw [dispatch]
  generalize markRunning (next.getD s.idleThread) (s.setCur (next.getD s.idleThread)) = s1 at idle
  simp only [contextSwitch, State.modify, setEsp0, switchSpace]
  split
  · exact idle
  · exact idle

theorem dispatch_in_place (place : InPlace s) : InPlace (dispatch s.curThread next s) := by
  obtain ⟨cur, esp0, cr3⟩ := dispatch_registers s s.curThread next
  refine ⟨?_, fun _ => ?_⟩
  · rw [cr3, cur, (dispatch_thread s s.curThread next _).1]
    split
    · rfl
    · rename_i same
      rw [place.space, not_not.mp same]
  · rw [esp0, cur, (dispatch_thread s s.curThread next _).2]

end Dispatch

theorem relocates_pd (s s' : State) (moves : Relocates s s') (t : Nat) : (s'.thread t).pd = (s.thread t).pd := by
  rcases moves with same | ⟨s1, next, same, rfl⟩
  · exact same.pd t
  · rw [(dispatch_thread s1 s1.curThread next t).1, same.pd]

theorem step_stacks (s s' : State) (g g' : Ghost) (step : Step ⟨s, g⟩ ⟨s', g'⟩) (same : g'.alive = g.alive) :
    (∀ t, (s'.thread t).stack = (s.thread t).stack) ∧ s'.idleThread = s.idleThread := by
  rcases step_moves s s' g g' step with (kept | ⟨s1, next, kept, rfl⟩) | ⟨t, thread, -, -, -, rfl⟩
  · exact ⟨kept.stack, kept.idle⟩
  · refine ⟨fun t => ?_, ?_⟩
    · rw [(dispatch_thread s1 s1.curThread next t).2, kept.stack]
    · rw [dispatch_idle, kept.idle]
  · exact absurd (congrArg List.length same) (by simp [Ghost.add])

theorem relocates_in_place (s s' : State) (moves : Relocates s s') (place : InPlace s) : InPlace s' := by
  rcases moves with same | ⟨s1, next, same, rfl⟩
  · exact in_place_same s s' same place
  · exact dispatch_in_place s1 next (in_place_same s s1 same place)

theorem ready_in_place (s : State) (t : Nat) (thread : Thread) (other : t ≠ s.curThread) (place : InPlace s) :
    InPlace (threadReady t (s.install t thread)) := by
  refine in_place_same _ _ (thread_ready_place _ t) ?_
  have same : (s.install t thread).thread s.curThread = s.thread s.curThread := update_of_ne other.symm _ _
  refine ⟨?_, fun notIdle => ?_⟩
  · change s.cr3 = v2p ((s.install t thread).thread s.curThread).pd
    rw [same]
    exact place.space
  · change s.esp0 = Word.add ((s.install t thread).thread s.curThread).stack 0x1000
    rw [same]
    exact place.stack notIdle

theorem step_in_place (s s' : State) (g g' : Ghost) (m : Model) (good : Good s g m) (step : Step ⟨s, g⟩ ⟨s', g'⟩)
    (place : InPlace s) :
    InPlace s' := by
  rcases step_moves s s' g g' step with moves | ⟨t, thread, new, notIdle, rfl, -⟩
  · exact relocates_in_place s s' moves place
  · refine ready_in_place s t thread ?_ place
    rintro rfl
    rcases good.inv.cur with idle | alive
    · exact notIdle (by rw [good.sim.cur, good.sim.idle, idle])
    · exact new (good.sim.cur ▸ alive)

theorem run_in_place (c c' : Config) (m : Model) (good : Good c.state c.ghost m) (run : ReflTransGen Step c c')
    (place : InPlace c.state) :
    InPlace c'.state := by
  induction run with
  | refl => exact place
  | @tail c1 c2 before step ih =>
      obtain ⟨m1, good1⟩ := good_run c c1 m good before
      exact step_in_place c1.state c2.state c1.ghost c2.ghost m1 good1 step ih

theorem boot_in_place (main reaper rate kernelPd : Nat) (thread : Thread) (s : State) (other : main ≠ reaper)
    (paging : s.cr3 = v2p kernelPd) : InPlace (boot main reaper rate kernelPd thread s).state := by
  refine ⟨?_, fun notIdle => absurd rfl notIdle⟩
  have pd : ((boot main reaper rate kernelPd thread s).state.thread main).pd = kernelPd := by
    simp [boot, bootState, initReaper, initSched, threadReady, State.install, State.setStatus, State.setQue,
      State.modify, other]
  change s.cr3 = v2p ((boot main reaper rate kernelPd thread s).state.thread main).pd
  rw [pd, paging]

-- Whatever has run, the processor translates with the directory of the current thread and works on its stack, and
-- `tss.esp0` is a page above what its `stack` field says.
theorem cpu_follows_thread (main reaper rate kernelPd : Nat) (thread : Thread) (s : State) (other : main ≠ reaper)
    (paging : s.cr3 = v2p kernelPd) (c : Config) (run : ReflTransGen Step (boot main reaper rate kernelPd thread s) c) :
    c.state.cr3 = v2p (c.state.thread c.state.curThread).pd ∧ c.state.onStack = c.state.curThread ∧
      (c.state.curThread ≠ c.state.idleThread →
        c.state.esp0 = Word.add (c.state.thread c.state.curThread).stack 0x1000) := by
  obtain ⟨m, good⟩ := boot_good main reaper rate kernelPd thread s other
  obtain ⟨m', good'⟩ := good_run _ c m good run
  have place := run_in_place _ c m good run (boot_in_place main reaper rate kernelPd thread s other paging)
  exact ⟨place.space, good'.stack, place.stack⟩

-- The directory at 0xC0100000 is loaded when the scheduler starts; a timer tick has switched to the reaper.
def pagedBoot : Config := boot 1 2 1 0xC0100000 ⟨0, 0x5000, .running, 0, 0xC0200000⟩ { blankState with cr3 := 0x100000 }

def pagedTick : Config := ⟨result blankState (timer pagedBoot.state), pagedBoot.ghost⟩

theorem cpu_follows_thread_tick :
    pagedTick.state.curThread = 2 ∧ pagedTick.state.cr3 = 0x200000 ∧ pagedTick.state.esp0 = 0x6000 := by
  have tick : Step pagedBoot pagedTick := .timer _ _ _ (returns_ok _ _ (by decide))
  obtain ⟨space, -, stack⟩ :=
    cpu_follows_thread 1 2 1 0xC0100000 ⟨0, 0x5000, .running, 0, 0xC0200000⟩ { blankState with cr3 := 0x100000 }
    (by decide) (by decide +kernel) pagedTick (.single tick)
  exact ⟨by decide, space.trans (by decide +kernel), (stack (by decide)).trans (by decide +kernel)⟩

end X86OS.Sched
