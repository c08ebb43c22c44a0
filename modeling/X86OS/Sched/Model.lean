import X86OS.Sched.Sched

set_option autoImplicit false

namespace X86OS.Sched

open Function Dll

-- The scheduler as its users see it: three sequences of threads and a status for each.
structure Model where
  ready : List Nat
  asleep : List Nat
  dead : List Nat
  status : Nat → Status
  wakeAt : Nat → Nat
  ticks : Nat
  cur : Nat
  idle : Nat
  reaper : Nat

namespace Model

@[grind] def setStatus (m : Model) (t : Nat) (status : Status) : Model := { m with status := update m.status t status }

@[grind] def threadReady (t : Nat) (m : Model) : Model := { m.setStatus t .runnable with ready := m.ready ++ [t] }

@[grind] def due (m : Model) (t : Nat) : Bool := m.wakeAt t ≤ m.ticks

@[grind] def wakeUpThreads (m : Model) : Model :=
  { m with
    status := fun t => if t ∈ m.asleep.takeWhile m.due then .runnable else m.status t
    ready := m.ready ++ m.asleep.takeWhile m.due
    asleep := m.asleep.dropWhile m.due }

@[grind] def requeue (m : Model) : Model := if m.status m.cur = .running then m.threadReady m.cur else m

@[grind] def dispatch (m : Model) : Model :=
  match m.ready with
  | [] => { m with cur := m.idle }
  | t :: rest =>
      { m with cur := t, ready := rest, status := if t ≠ m.idle then update m.status t .running else m.status }

@[grind] def scheduler (m : Model) : Model := m.requeue.dispatch

@[grind] def tick (rate : Nat) (m : Model) : Model := { m with ticks := (m.ticks + rate) % 2 ^ 64 }

@[grind] def timer (rate : Nat) (m : Model) : Model := (m.tick rate).wakeUpThreads.scheduler

@[grind] def sleepUntil (time : Nat) (m : Model) : Model :=
  { m with wakeAt := update m.wakeAt m.cur ((m.ticks + time * pitCrystal) % 2 ^ 64) }

@[grind] def goToSleep (m : Model) : Model :=
  { m.setStatus m.cur .sleeping with asleep := sortedInsert m.wakeAt m.cur m.asleep }

@[grind] def bury (t : Nat) (m : Model) : Model := { m.setStatus t .zombie with dead := m.dead ++ [t] }

@[grind] def reaperAdd (t : Nat) (m : Model) : Model :=
  if (m.bury t).status m.reaper ≠ .runnable then (m.bury t).threadReady m.reaper else m.bury t

@[grind] def popZombie (m : Model) : Model := { m with dead := m.dead.tail }

@[grind] def park (m : Model) : Model := m.setStatus m.reaper .sleeping

@[grind =] theorem set_status_at (m : Model) (t x : Nat) (status : Status) :
    (m.setStatus t status).status x = if x = t then status else m.status x := update_apply _ _ _ _

@[grind =] theorem thread_ready_at (m : Model) (t x : Nat) :
    (m.threadReady t).status x = if x = t then .runnable else m.status x := update_apply _ _ _ _

@[grind =] theorem go_to_sleep_at (m : Model) (x : Nat) :
    m.goToSleep.status x = if x = m.cur then .sleeping else m.status x := update_apply _ _ _ _

@[grind =] theorem bury_at (m : Model) (t x : Nat) : (m.bury t).status x = if x = t then .zombie else m.status x :=
  update_apply _ _ _ _

@[grind =] theorem park_at (m : Model) (x : Nat) : m.park.status x = if x = m.reaper then .sleeping else m.status x :=
  update_apply _ _ _ _

@[grind =] theorem sleep_until_at (m : Model) (time x : Nat) : (m.sleepUntil time).status x = m.status x := rfl

@[grind =] theorem pop_zombie_at (m : Model) (x : Nat) : m.popZombie.status x = m.status x := rfl

-- In no queue.
@[grind] def Loose (m : Model) (t : Nat) : Prop := t ∉ m.ready ∧ t ∉ m.asleep ∧ t ∉ m.dead

end Model

-- The three queues in memory are the sequences of the model, on different nodes.
structure Queues (s : State) (m : Model) : Prop where
  que : IsQueue s.nodes s.que m.ready
  sleepQue : IsQueue s.nodes s.sleepQue m.asleep
  zombieQue : IsQueue s.nodes s.zombieQue m.dead
  readyAsleep : ∀ t ∈ m.ready, t ∉ m.asleep
  readyDead : ∀ t ∈ m.ready, t ∉ m.dead
  asleepDead : ∀ t ∈ m.asleep, t ∉ m.dead

structure Sim (s : State) (m : Model) : Prop extends Queues s m where
  status : ∀ t, (s.thread t).status = m.status t
  wakeAt : ∀ t, (s.thread t).wakeAt = m.wakeAt t
  ticks : s.ticks = m.ticks
  cur : s.curThread = m.cur
  idle : s.idleThread = m.idle
  reaper : s.reaper = m.reaper

section Threads

variable {s : State} {m : Model}

theorem sim_status (sim : Sim s m) (t : Nat) (status : Status) : Sim (s.setStatus t status) (m.setStatus t status) := by
  refine ⟨⟨sim.que, sim.sleepQue, sim.zombieQue, sim.readyAsleep, sim.readyDead, sim.asleepDead⟩, ?_, ?_,
    sim.ticks, sim.cur, sim.idle, sim.reaper⟩
  · intro x
    by_cases same : x = t
    · simp [State.setStatus, State.modify, Model.setStatus, same]
    · simp [State.setStatus, State.modify, Model.setStatus, same, sim.status]
  · intro x
    by_cases same : x = t
    · simp [State.setStatus, State.modify, Model.setStatus, same, sim.wakeAt]
    · simp [State.setStatus, State.modify, Model.setStatus, same, sim.wakeAt]

theorem sim_sleep_until (sim : Sim s m) (time : Nat) : Sim (sleepUntil time s) (m.sleepUntil time) := by
  refine ⟨⟨sim.que, sim.sleepQue, sim.zombieQue, sim.readyAsleep, sim.readyDead, sim.asleepDead⟩, ?_, ?_,
    sim.ticks, sim.cur, sim.idle, sim.reaper⟩
  · intro x
    by_cases same : x = s.curThread
    · simp [sleepUntil, State.modify, Model.sleepUntil, same, sim.status]
    · simp [sleepUntil, State.modify, Model.sleepUntil, same, sim.status]
  · intro x
    by_cases same : x = m.cur
    · simp [sleepUntil, State.modify, Model.sleepUntil, same, sim.cur, sim.ticks]
    · simp [sleepUntil, State.modify, Model.sleepUntil, same, sim.cur, sim.wakeAt]

end Threads

section Queues

variable {s : State} {m : Model}

theorem sim_push_ready (sim : Sim s m) (t : Nat) (loose : m.Loose t) :
    Sim (s.setQue (listPushBack s.que t s.nodes)) { m with ready := m.ready ++ [t] } := by
  obtain ⟨pushed, frame⟩ := push_back_spec sim.que t loose.1
  refine ⟨⟨pushed, ?_, ?_, ?_, ?_, sim.asleepDead⟩, sim.status, sim.wakeAt, sim.ticks, sim.cur, sim.idle, sim.reaper⟩
  · apply queue_congr _ _ _ _ sim.sleepQue
    exact fun x member => frame x (fun both => sim.readyAsleep x both member) (fun same => loose.2.1 (same ▸ member))
  · apply queue_congr _ _ _ _ sim.zombieQue
    exact fun x member => frame x (fun both => sim.readyDead x both member) (fun same => loose.2.2 (same ▸ member))
  · intro x member
    rcases List.mem_append.mp member with old | new
    · exact sim.readyAsleep x old
    · rw [List.mem_singleton.mp new]
      exact loose.2.1
  · intro x member
    rcases List.mem_append.mp member with old | new
    · exact sim.readyDead x old
    · rw [List.mem_singleton.mp new]
      exact loose.2.2

theorem sim_push_dead (sim : Sim s m) (t : Nat) (loose : m.Loose t) :
    Sim (s.setZombieQue (listPushBack s.zombieQue t s.nodes)) { m with dead := m.dead ++ [t] } := by
  obtain ⟨pushed, frame⟩ := push_back_spec sim.zombieQue t loose.2.2
  refine ⟨⟨?_, ?_, pushed, sim.readyAsleep, ?_, ?_⟩, sim.status, sim.wakeAt, sim.ticks, sim.cur, sim.idle, sim.reaper⟩
  · apply queue_congr _ _ _ _ sim.que
    exact fun x member => frame x (sim.readyDead x member) (fun same => loose.1 (same ▸ member))
  · apply queue_congr _ _ _ _ sim.sleepQue
    exact fun x member => frame x (sim.asleepDead x member) (fun same => loose.2.1 (same ▸ member))
  · intro x member inDead
    rcases List.mem_append.mp inDead with old | new
    · exact sim.readyDead x member old
    · exact loose.1 (List.mem_singleton.mp new ▸ member)
  · intro x member inDead
    rcases List.mem_append.mp inDead with old | new
    · exact sim.asleepDead x member old
    · exact loose.2.1 (List.mem_singleton.mp new ▸ member)

theorem sim_push_asleep (sim : Sim s m) (t : Nat) (loose : m.Loose t) :
    ∃ queue, listSortedPush (fun x => (s.thread x).wakeAt) s.sleepQue t s.nodes = .ok queue ∧
      Sim (s.setSleepQue queue) { m with asleep := sortedInsert m.wakeAt t m.asleep } := by
  have sameTimes : (fun x => (s.thread x).wakeAt) = m.wakeAt := funext sim.wakeAt
  obtain ⟨list, n, done, pushed, frame⟩ := sorted_push_spec (fun x => (s.thread x).wakeAt) sim.sleepQue t loose.2.1
  refine ⟨(list, n), done, ⟨?_, sameTimes ▸ pushed, ?_, ?_, sim.readyDead, ?_⟩, sim.status, sim.wakeAt, sim.ticks,
    sim.cur, sim.idle, sim.reaper⟩
  · apply queue_congr _ _ _ _ sim.que
    exact fun x member => frame x (sim.readyAsleep x member) (fun same => loose.1 (same ▸ member))
  · apply queue_congr _ _ _ _ sim.zombieQue
    exact fun x member => frame x (fun both => sim.asleepDead x both member) (fun same => loose.2.2 (same ▸ member))
  · intro x member inside
    rcases (mem_sorted_insert m.wakeAt t x).mp inside with rfl | old
    · exact loose.1 member
    · exact sim.readyAsleep x member old
  · intro x inside
    rcases (mem_sorted_insert m.wakeAt t x).mp inside with rfl | old
    · exact loose.2.2
    · exact sim.asleepDead x old

theorem sim_pop_ready (sim : Sim s m) (t : Nat) (rest : List Nat) (first : m.ready = t :: rest) :
    ∃ queue, listPopFront s.que s.nodes = .ok (t, queue) ∧ Sim (s.setQue queue) { m with ready := rest } := by
  have que := sim.que
  rw [first] at que
  obtain ⟨list, n, done, popped, frame⟩ := pop_front_spec t que
  have kept (x : Nat) (member : x ∈ rest) : x ∈ m.ready := by simp [first, member]
  refine ⟨(list, n), done, ⟨popped, ?_, ?_, ?_, ?_, sim.asleepDead⟩, sim.status, sim.wakeAt, sim.ticks, sim.cur,
    sim.idle, sim.reaper⟩
  · apply queue_congr _ _ _ _ sim.sleepQue
    exact fun x member => frame x (fun both => sim.readyAsleep x (first ▸ both) member)
  · apply queue_congr _ _ _ _ sim.zombieQue
    exact fun x member => frame x (fun both => sim.readyDead x (first ▸ both) member)
  · exact fun x member => sim.readyAsleep x (kept x member)
  · exact fun x member => sim.readyDead x (kept x member)

theorem sim_pop_asleep (sim : Sim s m) (t : Nat) (rest : List Nat) (first : m.asleep = t :: rest) :
    ∃ queue, listPopFront s.sleepQue s.nodes = .ok (t, queue) ∧
      Sim (s.setSleepQue queue) { m with asleep := rest } := by
  have que := sim.sleepQue
  rw [first] at que
  obtain ⟨list, n, done, popped, frame⟩ := pop_front_spec t que
  have kept (x : Nat) (member : x ∈ rest) : x ∈ m.asleep := by simp [first, member]
  refine ⟨(list, n), done, ⟨?_, popped, ?_, ?_, sim.readyDead, ?_⟩, sim.status, sim.wakeAt, sim.ticks, sim.cur,
    sim.idle, sim.reaper⟩
  · apply queue_congr _ _ _ _ sim.que
    exact fun x member => frame x (fun both => sim.readyAsleep x member (first ▸ both))
  · apply queue_congr _ _ _ _ sim.zombieQue
    exact fun x member => frame x (fun both => sim.asleepDead x (first ▸ both) member)
  · exact fun x member inRest => sim.readyAsleep x member (kept x inRest)
  · exact fun x member => sim.asleepDead x (kept x member)

theorem sim_pop_dead (sim : Sim s m) (t : Nat) (rest : List Nat) (first : m.dead = t :: rest) :
    ∃ s', popZombie s = .ok (t, s') ∧ Sim s' m.popZombie := by
  have que := sim.zombieQue
  rw [first] at que
  obtain ⟨list, n, done, popped, frame⟩ := pop_front_spec t que
  have kept (x : Nat) (member : x ∈ rest) : x ∈ m.dead := by simp [first, member]
  refine ⟨s.setZombieQue (list, n), by simp only [popZombie, done], ?_⟩
  have tail : m.popZombie = { m with dead := rest } := by simp [Model.popZombie, first]
  rw [tail]
  refine ⟨⟨?_, ?_, popped, sim.readyAsleep, ?_, ?_⟩, sim.status, sim.wakeAt, sim.ticks, sim.cur, sim.idle, sim.reaper⟩
  · apply queue_congr _ _ _ _ sim.que
    exact fun x member => frame x (fun both => sim.readyDead x member (first ▸ both))
  · apply queue_congr _ _ _ _ sim.sleepQue
    exact fun x member => frame x (fun both => sim.asleepDead x member (first ▸ both))
  · exact fun x member inRest => sim.readyDead x member (kept x inRest)
  · exact fun x member inRest => sim.asleepDead x member (kept x inRest)

end Queues

section Calls

variable {s : State} {m : Model}

theorem sim_thread_ready (sim : Sim s m) (t : Nat) (loose : m.Loose t) : Sim (threadReady t s) (m.threadReady t) :=
  sim_push_ready (sim_status sim t .runnable) t loose

theorem sim_go_to_sleep (sim : Sim s m) (loose : m.Loose m.cur) : ∃ s', goToSleep s = .ok s' ∧ Sim s' m.goToSleep := by
  have marked := sim_status sim m.cur .sleeping
  obtain ⟨queue, done, pushed⟩ := sim_push_asleep marked m.cur loose
  refine ⟨(s.setStatus m.cur .sleeping).setSleepQue queue, ?_, pushed⟩
  have cur : (s.setStatus m.cur .sleeping).curThread = m.cur := sim.cur
  simp only [goToSleep, sim.cur]
  rw [cur, done]

theorem sim_reaper_add (sim : Sim s m) (t : Nat) (loose : m.Loose t)
    (reaperLoose : m.status m.reaper ≠ .runnable → m.Loose m.reaper) (other : t ≠ m.reaper) :
    Sim (reaperAdd t s) (m.reaperAdd t) := by
  have buried : Sim ((s.setStatus t .zombie).setZombieQue
      (listPushBack (s.setStatus t .zombie).zombieQue t (s.setStatus t .zombie).nodes))
      (m.bury t) := sim_push_dead (sim_status sim t .zombie) t loose
  have sameStatus : (m.bury t).status m.reaper = m.status m.reaper := by
    simp [Model.bury, Model.setStatus, Ne.symm other]
  simp only [reaperAdd, Model.reaperAdd]
  have sameReaper : (m.bury t).reaper = m.reaper := rfl
  rw [buried.status, buried.reaper, sameReaper]
  by_cases asleep : (m.bury t).status m.reaper ≠ .runnable
  · rw [if_pos asleep, if_pos asleep]
    apply sim_thread_ready buried
    obtain ⟨notReady, notAsleep, notDead⟩ := reaperLoose (sameStatus ▸ asleep)
    refine ⟨notReady, notAsleep, ?_⟩
    simpa [Model.bury] using ⟨notDead, Ne.symm other⟩
  · rw [if_neg asleep, if_neg asleep]
    exact buried

theorem sim_park (sim : Sim s m) : Sim (park s) m.park := by
  rw [park, Model.park, sim.reaper]
  exact sim_status sim m.reaper .sleeping

theorem sim_requeue (sim : Sim s m) (loose : m.status m.cur = .running → m.Loose m.cur) :
    Sim (requeue s) m.requeue := by
  rw [requeue, Model.requeue, sim.status, sim.cur]
  by_cases running : m.status m.cur = .running
  · rw [if_pos running, if_pos running]
    exact sim_thread_ready sim m.cur (loose running)
  · rw [if_neg running, if_neg running]
    exact sim

theorem sim_set_cur (sim : Sim s m) (t : Nat) : Sim (s.setCur t) { m with cur := t } :=
  ⟨⟨sim.que, sim.sleepQue, sim.zombieQue, sim.readyAsleep, sim.readyDead, sim.asleepDead⟩, sim.status,
    sim.wakeAt, sim.ticks, rfl, sim.idle, sim.reaper⟩

theorem sim_mark_running (sim : Sim s m) (t : Nat) :
    Sim (markRunning t s) { m with status := if t ≠ m.idle then update m.status t .running else m.status } := by
  rw [markRunning, sim.idle]
  by_cases other : t ≠ m.idle
  · rw [if_pos other, if_pos other]
    exact sim_status sim t .running
  · rw [if_neg other, if_neg other]
    exact sim

theorem sim_switch_space (sim : Sim s m) (before cur : Nat) : Sim (switchSpace before cur s) m := by
  rw [switchSpace]
  split
  · exact ⟨⟨sim.que, sim.sleepQue, sim.zombieQue, sim.readyAsleep, sim.readyDead, sim.asleepDead⟩, sim.status,
      sim.wakeAt, sim.ticks, sim.cur, sim.idle, sim.reaper⟩
  · exact sim

theorem sim_set_esp0 (sim : Sim s m) (cur : Nat) : Sim (setEsp0 cur s) m :=
  ⟨⟨sim.que, sim.sleepQue, sim.zombieQue, sim.readyAsleep, sim.readyDead, sim.asleepDead⟩, sim.status,
    sim.wakeAt, sim.ticks, sim.cur, sim.idle, sim.reaper⟩

theorem sim_context_switch (sim : Sim s m) (before cur : Nat) : Sim (contextSwitch before cur s) m := by
  refine ⟨⟨sim.que, sim.sleepQue, sim.zombieQue, sim.readyAsleep, sim.readyDead, sim.asleepDead⟩, ?_, ?_, sim.ticks,
    sim.cur, sim.idle, sim.reaper⟩
  · intro t
    by_cases same : t = before
    · simp [contextSwitch, State.modify, same, sim.status]
    · simp [contextSwitch, State.modify, same, sim.status]
  · intro t
    by_cases same : t = before
    · simp [contextSwitch, State.modify, same, sim.wakeAt]
    · simp [contextSwitch, State.modify, same, sim.wakeAt]

theorem sim_dispatch (sim : Sim s m) (before : Nat) (next : Option Nat) :
    Sim (dispatch before next s)
      { m with cur := next.getD m.idle,
               status :=
                 if next.getD m.idle ≠ m.idle then update m.status (next.getD m.idle) .running else m.status } := by
  rw [dispatch, sim.idle]
  exact sim_context_switch (sim_set_esp0 (sim_switch_space (sim_mark_running (sim_set_cur sim _) _) _ _) _) _ _

theorem sim_scheduler (sim : Sim s m) (loose : m.status m.cur = .running → m.Loose m.cur) :
    ∃ s', scheduler s = .ok s' ∧ Sim s' m.scheduler := by
  have queued := sim_requeue sim loose
  have head : (requeue s).que.head = m.requeue.ready.head? := queued.que.head
  rw [scheduler, Model.scheduler, Model.dispatch]
  cases first : m.requeue.ready with
  | nil =>
      rw [first] at head
      have next : getNextThread (requeue s) = .ok (none, requeue s) := by
        simp only [getNextThread, head, List.head?_nil]
      simp only [next]
      refine ⟨_, rfl, ?_⟩
      have switched := sim_dispatch queued (requeue s).curThread none
      simpa only [Option.getD_none, ne_eq, not_true, if_false, first] using switched
  | cons t rest =>
      rw [first] at head
      obtain ⟨queue, popped, simRest⟩ := sim_pop_ready queued t rest first
      have next : getNextThread (requeue s) = .ok (some t, (requeue s).setQue queue) := by
        simp only [getNextThread, head, List.head?_cons, popped]
      simp only [next]
      exact ⟨_, rfl, sim_dispatch simRest ((requeue s).setQue queue).curThread (some t)⟩

theorem wake_none (early : m.asleep.takeWhile m.due = []) (late : m.asleep.dropWhile m.due = m.asleep) :
    m.wakeUpThreads = m := by
  simp only [Model.wakeUpThreads, early, late, List.not_mem_nil, if_false, List.append_nil]

-- Waking the first sleeper leaves the others to the rest of the loop.
theorem wake_cons (t : Nat) (rest : List Nat) (first : m.asleep = t :: rest) (due : m.due t = true) :
    m.wakeUpThreads = (Model.threadReady t { m with asleep := rest }).wakeUpThreads := by
  have same : (Model.threadReady t { m with asleep := rest }).due = m.due := rfl
  simp only [Model.wakeUpThreads, same]
  simp only [Model.threadReady, Model.setStatus, first, List.takeWhile_cons, List.dropWhile_cons, due, if_true,
    List.append_assoc, List.singleton_append, Model.mk.injEq, true_and, and_true]
  funext x
  by_cases isFirst : x = t
  · simp [isFirst]
  · simp [isFirst]

theorem wake_loop_sim (fuel : Nat) (sim : Sim s m) (enough : m.asleep.length < fuel) :
    ∃ s', wakeLoop fuel s = .ok s' ∧ Sim s' m.wakeUpThreads := by
  induction fuel generalizing s m with
  | zero => omega
  | succ fuel step =>
      have head : s.sleepQue.head = m.asleep.head? := sim.sleepQue.head
      cases first : m.asleep with
      | nil =>
          rw [first] at head
          refine ⟨s, by simp only [wakeLoop, head, List.head?_nil], ?_⟩
          rw [wake_none (by simp [first]) (by simp [first])]
          exact sim
      | cons t rest =>
          rw [first] at head
          have timely : ((s.thread t).wakeAt ≤ s.ticks) = (m.wakeAt t ≤ m.ticks) := by rw [sim.wakeAt, sim.ticks]
          simp only [wakeLoop, head, List.head?_cons, timely]
          by_cases due : m.wakeAt t ≤ m.ticks
          · obtain ⟨queue, popped, simRest⟩ := sim_pop_asleep sim t rest first
            have loose : ({ m with asleep := rest } : Model).Loose t := by
              have nodup := sim.sleepQue.dll.1
              rw [first, List.nodup_cons] at nodup
              exact ⟨fun ready => sim.readyAsleep t ready (by simp [first]), nodup.1,
                sim.asleepDead t (by simp [first])⟩
            have woken := sim_thread_ready simRest t loose
            have shorter : rest.length < fuel := by
              rw [first, List.length_cons] at enough
              omega
            obtain ⟨s', done, simEnd⟩ := step woken shorter
            rw [if_pos due, popped, wake_cons t rest first (by simpa [Model.due] using due)]
            exact ⟨s', done, simEnd⟩
          · rw [if_neg due]
            refine ⟨s, rfl, ?_⟩
            have late : m.due t = false := by simpa [Model.due] using due
            rw [wake_none (by rw [first, List.takeWhile_cons, late]; rfl)
              (by rw [first, List.dropWhile_cons, late]; rfl)]
            exact sim

theorem sim_wake_up_threads (sim : Sim s m) : ∃ s', wakeUpThreads s = .ok s' ∧ Sim s' m.wakeUpThreads :=
  wake_loop_sim _ sim (by rw [sim.sleepQue.size]; omega)

theorem sim_tick (sim : Sim s m) : Sim (advance s) (m.tick s.tickRate) := by
  refine ⟨⟨sim.que, sim.sleepQue, sim.zombieQue, sim.readyAsleep, sim.readyDead, sim.asleepDead⟩, sim.status,
    sim.wakeAt, ?_, sim.cur, sim.idle, sim.reaper⟩
  simp only [Model.tick, advance, sim.ticks]

theorem sim_timer (sim : Sim s m)
    (loose : (m.tick s.tickRate).wakeUpThreads.status m.cur = .running →
      (m.tick s.tickRate).wakeUpThreads.Loose m.cur) :
    ∃ s', timer s = .ok s' ∧ Sim s' (m.timer s.tickRate) := by
  obtain ⟨woken, done, simWoken⟩ := sim_wake_up_threads (sim_tick sim)
  obtain ⟨s', switched, simEnd⟩ := sim_scheduler simWoken loose
  exact ⟨s', by simp only [timer, done, switched], simEnd⟩

end Calls

end X86OS.Sched
