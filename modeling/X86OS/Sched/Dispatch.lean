import X86OS.Sched.Properties

set_option autoImplicit false

namespace X86OS.Sched

open Function Relation

section Queue

variable (m : Model)

theorem dispatch_queue : m.dispatch.ready = m.ready.tail ∧ m.dispatch.cur = m.ready.headD m.idle := by
  rw [Model.dispatch]
  cases m.ready with
  | nil => exact ⟨rfl, rfl⟩
  | cons t rest => exact ⟨rfl, rfl⟩

theorem requeue_queue :
    m.requeue.idle = m.idle ∧ ∃ more, m.requeue.ready = m.ready ++ more ∧ (m.status m.cur = .running → more ≠ []) := by
  rw [Model.requeue]
  by_cases running : m.status m.cur = .running
  · rw [if_pos running]
    exact ⟨rfl, [m.cur], rfl, fun _ => List.cons_ne_nil _ _⟩
  · rw [if_neg running]
    exact ⟨rfl, [], (List.append_nil _).symm, fun isRunning => absurd isRunning running⟩

theorem scheduler_queue :
    ∃ more, m.scheduler.ready = (m.ready ++ more).tail ∧ m.scheduler.cur = (m.ready ++ more).headD m.idle ∧
    (m.status m.cur = .running → more ≠ []) := by
  obtain ⟨sameIdle, more, queue, caller⟩ := requeue_queue m
  obtain ⟨rest, first⟩ := dispatch_queue m.requeue
  refine ⟨more, ?_, ?_, caller⟩
  · rw [Model.scheduler, rest, queue]
  · rw [Model.scheduler, first, queue, sameIdle]

theorem fire_stays (e : Event) (rate : Nat) (stays : e.switches = false) :
    (m.fire e rate).cur = m.cur ∧ ∃ more, (m.fire e rate).ready = m.ready ++ more := by
  cases e with
  | ready t thread => exact ⟨rfl, [t], rfl⟩
  | call time => exact ⟨rfl, [], (List.append_nil _).symm⟩
  | enqueue => exact ⟨rfl, [], (List.append_nil _).symm⟩
  | exit =>
      simp only [Model.fire, Model.reaperAdd]
      split
      · exact ⟨rfl, [m.reaper], rfl⟩
      · exact ⟨rfl, [], (List.append_nil _).symm⟩
  | found => exact ⟨rfl, [], (List.append_nil _).symm⟩
  | park => exact ⟨rfl, [], (List.append_nil _).symm⟩
  | pop => exact ⟨rfl, [], (List.append_nil _).symm⟩
  | destroy => exact ⟨rfl, [], (List.append_nil _).symm⟩
  | _ => cases stays

theorem fire_switches (e : Event) (rate : Nat) (switches : e.switches = true) :
    ∃ more, (m.fire e rate).ready = (m.ready ++ more).tail ∧ (m.fire e rate).cur = (m.ready ++ more).headD m.idle := by
  have plain :
      ∃ more, m.scheduler.ready = (m.ready ++ more).tail ∧ m.scheduler.cur = (m.ready ++ more).headD m.idle := by
    obtain ⟨more, rest, first, -⟩ := scheduler_queue m
    exact ⟨more, rest, first⟩
  cases e with
  | tick =>
      obtain ⟨more, rest, first, -⟩ := scheduler_queue (m.tick rate).wakeUpThreads
      have woken : (m.tick rate).wakeUpThreads.ready = m.ready ++ m.asleep.takeWhile (m.tick rate).due := rfl
      rw [woken, List.append_assoc] at rest first
      exact ⟨_, rest, first⟩
  | yield => exact plain
  | sleepSwitch => exact plain
  | exitSwitch => exact plain
  | reaperSwitch => exact plain
  | _ => cases switches

theorem fire_position (e : Event) (rate k t : Nat) (placed : m.ready[k]? = some t) (early : e.switches = true → 0 < k) :
    (m.fire e rate).ready[k - [e].countP Event.switches]? = some t := by
  have inside : k < m.ready.length := (List.getElem?_eq_some_iff.mp placed).1
  cases switches : e.switches with
  | false =>
      obtain ⟨-, more, queue⟩ := fire_stays m e rate switches
      simp only [List.countP_cons, List.countP_nil, switches, queue]
      rw [List.getElem?_append_left (by simpa using inside)]
      simpa using placed
  | true =>
      obtain ⟨more, queue, -⟩ := fire_switches m e rate switches
      simp only [List.countP_cons, List.countP_nil, switches, queue]
      have position : k - 1 + 1 = k := Nat.sub_add_cancel (early switches)
      rw [List.getElem?_tail, if_pos trivial, Nat.zero_add, position, List.getElem?_append_left inside]
      exact placed

end Queue

theorem execute_position (es : List Event) (c c' : Config) (m : Model) (k t : Nat) (good : Good c.state c.ghost m)
    (placed : m.ready[k]? = some t) (few : es.countP Event.switches ≤ k) (done : execute es c = some c') :
    ∃ m', Good c'.state c'.ghost m' ∧ m'.ready[k - es.countP Event.switches]? = some t := by
  induction es generalizing c m k with
  | nil =>
      cases done
      exact ⟨m, good, placed⟩
  | cons e es ih =>
      obtain ⟨next, fired, rest⟩ := Option.bind_eq_some_iff.mp done
      have count : ([e] ++ es).countP Event.switches = [e].countP Event.switches + es.countP Event.switches :=
        List.countP_append
      rw [List.singleton_append] at count
      have early (switches : e.switches = true) : 0 < k := by
        rw [List.countP_cons, if_pos switches] at few
        omega
      rw [count] at few ⊢
      rw [Nat.sub_add_eq]
      exact ih next _ _ (good_fire e next good fired)
        (fire_position m e c.state.tickRate k t placed early) (by omega) rest

-- The state in which the event calls `scheduler`.
def atSwitch : Event → State → Except String State
  | .tick, s => wakeUpThreads (advance s)
  | _, s => .ok s

theorem scheduler_idle (s : State) (m : Model) (g : Ghost) (sim : Sim s m) (core : Core m g)
    (idle : m.scheduler.cur = m.idle) :
    (∀ t, t ∈ g.alive ∨ t = s.idleThread → (s.thread t).status ≠ .runnable) ∧
      (s.thread s.curThread).status ≠ .running := by
  obtain ⟨more, -, first, caller⟩ := scheduler_queue m
  have empty : m.requeue.ready = [] := by
    by_contra waiting
    obtain ⟨t, rest, queue⟩ := List.exists_cons_of_ne_nil waiting
    have isIdle : t = m.idle := by
      have head := (dispatch_queue m.requeue).2
      rw [queue] at head
      exact head.symm.trans idle
    exact core.idleOut (isIdle ▸ (((core_requeue core).1.ready t).mp (by rw [queue]; exact List.mem_cons_self)).1)
  obtain ⟨-, added, queue, joined⟩ := requeue_queue m
  rw [queue, List.append_eq_nil_iff] at empty
  constructor
  · rintro t (alive | rfl) runnable
    · rw [sim.status] at runnable
      have member := (core.ready t).mpr ⟨alive, runnable⟩
      rw [empty.1] at member
      cases member
    · rw [sim.status, sim.idle, core.idleStatus] at runnable
      cases runnable
  · rw [sim.status, sim.cur]
    exact fun running => joined running empty.2

theorem fire_idle (e : Event) (s : State) (g : Ghost) (m : Model) (good : Good s g m) (switches : e.switches = true)
    (idle : (m.fire e s.tickRate).cur = m.idle) :
    ∃ s', atSwitch e s = .ok s' ∧ (∀ t, t ∈ g.alive ∨ t = s'.idleThread → (s'.thread t).status ≠ .runnable) ∧
      (s'.thread s'.curThread).status ≠ .running := by
  have plain (idle : m.scheduler.cur = m.idle) := scheduler_idle s m g good.sim good.inv.toCore idle
  cases e with
  | tick =>
      have ticked : Core (m.tick s.tickRate) g := { good.inv.toCore with }
      obtain ⟨s', woken, sim⟩ := sim_wake_up_threads (sim_tick good.sim)
      exact ⟨s', woken, scheduler_idle s' _ g sim (core_wake ticked good.sim.sleepQue.dll.1) idle⟩
  | yield => exact ⟨s, rfl, plain idle⟩
  | sleepSwitch => exact ⟨s, rfl, plain idle⟩
  | exitSwitch => exact ⟨s, rfl, plain idle⟩
  | reaperSwitch => exact ⟨s, rfl, plain idle⟩
  | _ => cases switches

-- Round robin: the thread at position k is dispatched by the (k+1)-th call of `scheduler`
-- from here on, whatever else happens in between, and the idle thread only when nobody
-- can run.
theorem round_robin (main reaper rate kernelPd : Nat) (thread : Thread) (s : State) (other : main ≠ reaper) (c : Config)
    (run : ReflTransGen Step (boot main reaper rate kernelPd thread s) c) :
    (∃ que, IsQueue c.state.nodes c.state.que que ∧ ∀ k t, que[k]? = some t →
      ∀ es c₁ e c₂, execute es c = some c₁ → e.switches = true → fire e c₁ = some c₂ →
        (es.countP Event.switches = k → c₂.state.curThread = t) ∧
          (es.countP Event.switches < k → c₂.state.curThread ≠ t)) ∧
    ∀ e c', e.switches = true → fire e c = some c' → c'.state.curThread = c.state.idleThread →
      ∃ s', atSwitch e c.state = .ok s' ∧
        (∀ t, t ∈ c.ghost.alive ∨ t = s'.idleThread → (s'.thread t).status ≠ .runnable) ∧
        (s'.thread s'.curThread).status ≠ .running := by
  obtain ⟨start, goodStart⟩ := boot_good main reaper rate kernelPd thread s other
  obtain ⟨m, good⟩ := good_run _ c start goodStart run
  refine ⟨⟨m.ready, good.sim.que, ?_⟩, ?_⟩
  · intro k t placed es c₁ e c₂ before switches fired
    have turn (few : es.countP Event.switches ≤ k) : ∃ m', Good c₁.state c₁.ghost m' ∧
        m'.ready[k - es.countP Event.switches]? = some t ∧ some c₂.state.curThread = m'.ready.head? := by
      obtain ⟨m', good', position⟩ := execute_position es c c₁ m k t good placed few before
      obtain ⟨more, -, first⟩ := fire_switches m' e c₁.state.tickRate switches
      rw [← (good_fire e c₂ good' fired).sim.cur] at first
      refine ⟨m', good', position, ?_⟩
      obtain ⟨head, rest, queue⟩ := List.exists_cons_of_ne_nil
        (show m'.ready ≠ [] by intro empty; simp [empty] at position)
      rw [queue] at first ⊢
      exact congrArg some first
    constructor
    · rintro rfl
      obtain ⟨m', -, position, first⟩ := turn (Nat.le_refl _)
      rw [Nat.sub_self, ← List.head?_eq_getElem?, ← first] at position
      exact Option.some.inj position
    · intro early same
      obtain ⟨m', good', position, first⟩ := turn (Nat.le_of_lt early)
      rw [same, List.head?_eq_getElem?] at first
      have unique := (List.getElem?_inj (List.getElem?_eq_some_iff.mp first.symm).1 good'.sim.que.dll.1).mp
        (first.symm.trans position.symm)
      omega
  · intro e c' switches fired idle
    rw [(good_fire e c' good fired).sim.cur, good.sim.idle] at idle
    exact fire_idle e c.state c.ghost m good switches idle

-- The reaper is first in the queue after boot; a thread made ready in between does not overtake it.
theorem round_robin_small :
    ∃ c₁ c₂, execute [.ready 3 blankThread] smallBoot = some c₁ ∧ fire .tick c₁ = some c₂ ∧ c₂.state.curThread = 2 := by
  have started : execute [.ready 3 blankThread] smallBoot = some smallStarted := rfl
  have ticked : fire .tick smallStarted = some smallReaper :=
    congrArg (outcome smallStarted.ghost) (returns_ok blankState (timer smallStarted.state) (by decide))
  obtain ⟨⟨que, queue, turn⟩, -⟩ := round_robin 1 2 1 0 blankThread blankState (by decide) smallBoot .refl
  have first : que[0]? = some 2 := by
    rw [← List.head?_eq_getElem?, ← queue.head]
    decide
  exact ⟨_, _, started, ticked, (turn 0 2 first _ _ .tick _ started rfl ticked).1 rfl⟩

end X86OS.Sched
