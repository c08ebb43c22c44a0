import X86OS.Sched.Properties

set_option autoImplicit false

namespace X86OS.Sched

open Function Relation

-- The order of the sleep queue: by deadline, equal deadlines by turn.
def WakesBefore (wakeAt turn : Nat → Nat) (a b : Nat) : Prop :=
  wakeAt a < wakeAt b ∨ wakeAt a = wakeAt b ∧ turn a < turn b

theorem sorted_insert_sorted (wakeAt turn : Nat → Nat) (node : Nat) (nodes : List Nat)
    (sorted : nodes.Pairwise (WakesBefore wakeAt turn)) (latest : ∀ x ∈ nodes, turn x < turn node) :
    (sortedInsert wakeAt node nodes).Pairwise (WakesBefore wakeAt turn) := by
  induction nodes with
  | nil => exact List.pairwise_singleton _ _
  | cons x rest ih =>
      obtain ⟨first, sortedRest⟩ := List.pairwise_cons.mp sorted
      by_cases early : wakeAt x ≤ wakeAt node
      · have step : sortedInsert wakeAt node (x :: rest) = x :: sortedInsert wakeAt node rest := by
          simp [sortedInsert, early]
        rw [step, List.pairwise_cons]
        refine ⟨?_, ih sortedRest (fun y member => latest y (List.mem_cons_of_mem x member))⟩
        intro y member
        rcases (mem_sorted_insert wakeAt node y).mp member with rfl | old
        · have turns := latest x List.mem_cons_self
          simp only [WakesBefore]
          omega
        · exact first y old
      · have step : sortedInsert wakeAt node (x :: rest) = node :: x :: rest := by
          simp [sortedInsert, early]
        rw [step, List.pairwise_cons]
        refine ⟨?_, sorted⟩
        intro y member
        left
        rcases List.mem_cons.mp member with rfl | later
        · omega
        · rcases first y later with less | same <;> omega

-- What the calls of `thread_sleep` were: for each thread the deadline its last call asked for, as a
-- number that does not wrap, and the turn in which the atomic section of a call last queued it.
structure History where
  deadline : Nat → Nat
  turn : Nat → Nat
  calls : Nat

def History.note (h : History) (e : Event) (s : State) : History :=
  match e with
  | .call time => { h with deadline := update h.deadline s.curThread (s.ticks + time * pitCrystal) }
  | .enqueue => { h with turn := update h.turn s.curThread h.calls, calls := h.calls + 1 }
  | _ => h

def record : List Event → Config → History → History
  | [], _, h => h
  | e :: es, c, h =>
      match fire e c with
      | none => h
      | some c' => record es c' (h.note e c.state)

-- A call asks for a deadline within 64 bits.
def inReach (e : Event) (s : State) : Bool :=
  match e with
  | .call time => s.ticks + time * pitCrystal < 2 ^ 64
  | _ => true

def allInReach : List Event → Config → Bool
  | [], _ => true
  | e :: es, c =>
      inReach e c.state &&
        match fire e c with
        | none => true
        | some c' => allInReach es c'

-- The counter after each timer call of the run.
def updatedTicks : List Event → Config → List Nat
  | [], _ => []
  | e :: es, c =>
      match e, fire e c with
      | _, none => []
      | .tick, some c' => (advance c.state).ticks :: updatedTicks es c'
      | _, some c' => updatedTicks es c'

structure Timely (c : Config) (m : Model) (h : History) : Prop where
  good : Good c.state c.ghost m
  drowsy : ∀ t ∈ c.ghost.alive, c.ghost.point t = .drowsy → m.wakeAt t = h.deadline t
  asleep : ∀ t ∈ m.asleep, m.wakeAt t = h.deadline t ∧ h.turn t < h.calls
  sorted : m.asleep.Pairwise (WakesBefore m.wakeAt h.turn)

section Events

variable {c c' : Config} {m m' : Model} {h : History}

theorem timely_keep (timely : Timely c m h) (good : Good c'.state c'.ghost m') (fewer : m'.asleep.Sublist m.asleep)
    (times : ∀ t ∈ c.ghost.alive, m'.wakeAt t = m.wakeAt t)
    (points : ∀ t ∈ c'.ghost.alive, c'.ghost.point t = .drowsy → t ∈ c.ghost.alive ∧ c.ghost.point t = .drowsy) :
    Timely c' m' h := by
  have time (t : Nat) (member : t ∈ m'.asleep) : m'.wakeAt t = m.wakeAt t :=
    times t ((timely.good.inv.asleep t).mp (fewer.subset member)).1
  refine ⟨good, ?_, ?_, ?_⟩
  · intro t alive point
    obtain ⟨before, pointBefore⟩ := points t alive point
    rw [times t before]
    exact timely.drowsy t before pointBefore
  · intro t member
    rw [time t member]
    exact timely.asleep t (fewer.subset member)
  · apply List.Pairwise.imp_of_mem _ (timely.sorted.sublist fewer)
    intro a b memberA memberB before
    rw [WakesBefore, time a memberA, time b memberB]
    exact before

theorem move_drowsy (g : Ghost) (t x : Nat) (point : Point) (awake : point ≠ .drowsy)
    (drowsy : (g.move t point).point x = .drowsy) :
    g.point x = .drowsy := by
  by_cases same : x = t
  · rw [Ghost.move, same] at drowsy
    exact absurd ((update_self ..).symm.trans drowsy) awake
  · rw [Ghost.move] at drowsy
    exact (update_of_ne same ..).symm.trans drowsy

-- The two parts of `thread_sleep` before its switch.
def Event.sleeps : Event → Bool
  | .call _ | .enqueue => true
  | _ => false

theorem fire_points (e : Event) (awake : e.sleeps = false) (fired : fire e c = some c') (t : Nat)
    (alive : t ∈ c'.ghost.alive) (drowsy : c'.ghost.point t = .drowsy) :
    t ∈ c.ghost.alive ∧ c.ghost.point t = .drowsy := by
  have switched (g : Ghost) (r : Except String State) (same : g.alive = c.ghost.alive)
      (points : g.point t = .drowsy → c.ghost.point t = .drowsy) (made : outcome g r = some c') :
      t ∈ c.ghost.alive ∧ c.ghost.point t = .drowsy := by
    obtain ⟨s', -, rfl⟩ := outcome_some _ _ _ made
    exact ⟨same ▸ alive, points drowsy⟩
  cases e with
  | tick => exact switched _ _ rfl id fired
  | ready x thread =>
      obtain ⟨-, made⟩ := Option.ite_none_right_eq_some.mp fired
      cases made
      have pointBefore := move_drowsy c.ghost x t .running (by decide) drowsy
      have other : t ≠ x := by
        rintro rfl
        exact absurd ((update_self ..).symm.trans drowsy) (by decide)
      exact ⟨(List.mem_cons.mp alive).resolve_left other, pointBefore⟩
  | yield =>
      obtain ⟨-, made⟩ := Option.ite_none_right_eq_some.mp fired
      exact switched _ _ rfl id made
  | sleepSwitch =>
      obtain ⟨-, made⟩ := Option.ite_none_right_eq_some.mp fired
      exact switched (c.ghost.move _ .running) _ rfl (move_drowsy c.ghost _ t .running (by decide)) made
  | exit =>
      obtain ⟨-, made⟩ := Option.ite_none_right_eq_some.mp fired
      cases made
      exact ⟨alive, move_drowsy c.ghost _ t .exiting (by decide) drowsy⟩
  | exitSwitch =>
      obtain ⟨-, made⟩ := Option.ite_none_right_eq_some.mp fired
      exact switched _ _ rfl id made
  | found =>
      obtain ⟨-, made⟩ := Option.ite_none_right_eq_some.mp fired
      cases made
      exact ⟨alive, move_drowsy c.ghost _ t .pop (by decide) drowsy⟩
  | park =>
      obtain ⟨-, made⟩ := Option.ite_none_right_eq_some.mp fired
      cases made
      exact ⟨alive, move_drowsy c.ghost _ t .parking (by decide) drowsy⟩
  | reaperSwitch =>
      obtain ⟨-, made⟩ := Option.ite_none_right_eq_some.mp fired
      exact switched (c.ghost.move _ .check) _ rfl (move_drowsy c.ghost _ t .check (by decide)) made
  | pop =>
      obtain ⟨-, made⟩ := Option.ite_none_right_eq_some.mp fired
      split at made
      · rename_i x s' done
        cases made
        exact ⟨alive, move_drowsy c.ghost _ t (.destroy x) (by simp) drowsy⟩
      · cases made
  | destroy =>
      simp only [fire] at fired
      split at fired
      · rename_i x point
        obtain ⟨-, made⟩ := Option.ite_none_right_eq_some.mp fired
        cases made
        exact ⟨List.mem_of_mem_filter alive, move_drowsy (c.ghost.remove x) _ t .check (by decide) drowsy⟩
      · cases fired
  | _ => cases awake

theorem scheduler_asleep (m : Model) : m.scheduler.asleep = m.asleep ∧ m.scheduler.wakeAt = m.wakeAt := by
  rw [Model.scheduler, Model.dispatch, Model.requeue]
  split <;> split <;> exact ⟨rfl, rfl⟩

theorem fire_asleep (e : Event) (awake : e.sleeps = false) (rate : Nat) (fired : fire e c = some c') :
    (m.fire e rate).asleep.Sublist m.asleep ∧ ∀ t ∈ c.ghost.alive, (m.fire e rate).wakeAt t = m.wakeAt t := by
  have switched : m.scheduler.asleep.Sublist m.asleep ∧ ∀ t ∈ c.ghost.alive, m.scheduler.wakeAt t = m.wakeAt t := by
    obtain ⟨asleep, times⟩ := scheduler_asleep m
    exact ⟨asleep ▸ List.Sublist.refl _, fun t _ => congrFun times t⟩
  cases e with
  | tick =>
      obtain ⟨asleep, times⟩ := scheduler_asleep (m.tick rate).wakeUpThreads
      simp only [Model.fire, Model.timer, asleep, times]
      exact ⟨List.dropWhile_sublist _, fun _ _ => rfl⟩
  | ready x thread =>
      obtain ⟨⟨new, -⟩, -⟩ := Option.ite_none_right_eq_some.mp fired
      refine ⟨List.Sublist.refl _, ?_⟩
      intro t alive
      exact update_of_ne (fun same : t = x => new (same ▸ alive)) _ _
  | exit =>
      simp only [Model.fire, Model.reaperAdd]
      split
      · exact ⟨List.Sublist.refl _, fun _ _ => rfl⟩
      · exact ⟨List.Sublist.refl _, fun _ _ => rfl⟩
  | yield => exact switched
  | sleepSwitch => exact switched
  | exitSwitch => exact switched
  | reaperSwitch => exact switched
  | found => exact ⟨List.Sublist.refl _, fun _ _ => rfl⟩
  | park => exact ⟨List.Sublist.refl _, fun _ _ => rfl⟩
  | pop => exact ⟨List.Sublist.refl _, fun _ _ => rfl⟩
  | destroy => exact ⟨List.Sublist.refl _, fun _ _ => rfl⟩
  | _ => cases awake

theorem timely_call (time : Nat) (timely : Timely c m h) (exact : c.state.ticks + time * pitCrystal < 2 ^ 64)
    (fired : fire (.call time) c = some c') : Timely c' (m.sleepUntil time) (h.note (.call time) c.state) := by
  have good' := good_fire (.call time) c' timely.good fired
  have sim := timely.good.sim
  obtain ⟨⟨notIdle, point⟩, made⟩ := Option.ite_none_right_eq_some.mp fired
  cases made
  rw [sim.cur] at notIdle point
  rw [sim.idle] at notIdle
  have running := (cur_running timely.good.inv notIdle (.inl point)).2.2
  have awake := (loose_running timely.good.inv.toCore m.cur running).2.1
  have others (t : Nat) (other : t ≠ m.cur) : (m.sleepUntil time).wakeAt t = m.wakeAt t ∧
      (h.note (.call time) c.state).deadline t = h.deadline t :=
    ⟨update_of_ne other _ _, update_of_ne (sim.cur ▸ other) _ _⟩
  have asleep (t : Nat) (member : t ∈ m.asleep) := others t (fun same => awake (same ▸ member))
  refine ⟨good', ?_, ?_, ?_⟩
  · intro t alive drowsy
    by_cases same : t = m.cur
    · have deadline : (h.note (.call time) c.state).deadline t = c.state.ticks + time * pitCrystal := by
        rw [same, ← sim.cur]
        exact update_self ..
      have wakeAt : (m.sleepUntil time).wakeAt t = (m.ticks + time * pitCrystal) % 2 ^ 64 := by
        rw [same]
        exact update_self ..
      rw [deadline, wakeAt, ← sim.ticks, Nat.mod_eq_of_lt exact]
    · rw [(others t same).1, (others t same).2]
      exact timely.drowsy t alive ((update_of_ne (sim.cur ▸ same) _ _).symm.trans drowsy)
  · intro t member
    rw [(asleep t member).1, (asleep t member).2]
    exact timely.asleep t member
  · apply List.Pairwise.imp_of_mem _ timely.sorted
    intro a b memberA memberB before
    rw [WakesBefore, (asleep a memberA).1, (asleep b memberB).1]
    exact before

theorem timely_enqueue (timely : Timely c m h) (fired : fire .enqueue c = some c') :
    Timely c' m.goToSleep (h.note .enqueue c.state) := by
  have good' := good_fire .enqueue c' timely.good fired
  have sim := timely.good.sim
  obtain ⟨⟨notIdle, point⟩, made⟩ := Option.ite_none_right_eq_some.mp fired
  obtain ⟨s', done, rfl⟩ := outcome_some _ _ _ made
  simp only [sim.cur, sim.idle] at notIdle point good' ⊢
  obtain ⟨alive, -, running⟩ := cur_running timely.good.inv notIdle (.inr point)
  have awake := (loose_running timely.good.inv.toCore m.cur running).2.1
  have cur : (h.note .enqueue c.state).turn m.cur = h.calls := by
    rw [← sim.cur]
    exact update_self ..
  have others (t : Nat) (member : t ∈ m.asleep) : (h.note .enqueue c.state).turn t = h.turn t :=
    update_of_ne (fun same => awake ((same.trans sim.cur) ▸ member)) _ _
  refine ⟨good', ?_, ?_, ?_⟩
  · intro t inAlive drowsy
    exact timely.drowsy t inAlive (move_drowsy c.ghost _ t .asleep (by decide) drowsy)
  · intro t member
    have calls : (h.note .enqueue c.state).calls = h.calls + 1 := rfl
    rcases (mem_sorted_insert m.wakeAt m.cur t).mp member with rfl | old
    · rw [cur, calls]
      exact ⟨timely.drowsy _ alive point, Nat.lt_succ_self _⟩
    · rw [others t old, calls]
      exact ⟨(timely.asleep t old).1, Nat.lt_succ_of_lt (timely.asleep t old).2⟩
  · apply sorted_insert_sorted m.wakeAt
    · apply List.Pairwise.imp_of_mem _ timely.sorted
      intro a b memberA memberB before
      rw [WakesBefore, others a memberA, others b memberB]
      exact before
    · intro t member
      rw [others t member, cur]
      exact (timely.asleep t member).2

theorem timely_fire (e : Event) (timely : Timely c m h) (exact : inReach e c.state = true)
    (fired : fire e c = some c') : Timely c' (m.fire e c.state.tickRate) (h.note e c.state) := by
  have keep (awake : e.sleeps = false) : Timely c' (m.fire e c.state.tickRate) h := by
    obtain ⟨fewer, times⟩ := fire_asleep (m := m) e awake c.state.tickRate fired
    exact timely_keep timely (good_fire e c' timely.good fired) fewer times (fire_points e awake fired)
  cases e with
  | call time => exact timely_call time timely (of_decide_eq_true exact) fired
  | enqueue => exact timely_enqueue timely fired
  | _ => exact keep rfl

end Events

theorem timely_execute (es : List Event) (c c' : Config) (m : Model) (h : History) (timely : Timely c m h)
    (exact : allInReach es c = true) (done : execute es c = some c') : ∃ m', Timely c' m' (record es c h) := by
  induction es generalizing c m h with
  | nil =>
      cases done
      exact ⟨m, timely⟩
  | cons e es ih =>
      obtain ⟨next, fired, rest⟩ := Option.bind_eq_some_iff.mp done
      simp only [allInReach, fired, Bool.and_eq_true] at exact
      simp only [record, fired]
      exact ih next _ _ (timely_fire e timely exact.1 fired) exact.2 rest

theorem tick_due (m : Model) (rate : Nat) (h : History) (times : ∀ t ∈ m.asleep, m.wakeAt t = h.deadline t)
    (sorted : m.asleep.Pairwise (WakesBefore m.wakeAt h.turn)) :
    m.asleep.takeWhile (m.tick rate).due = m.asleep.filter (fun t => h.deadline t ≤ (m.tick rate).ticks) ∧
      m.asleep.dropWhile (m.tick rate).due =
        m.asleep.filter (fun t => !decide (h.deadline t ≤ (m.tick rate).ticks)) := by
  have parts := due_first (m.tick rate).due m.asleep (by
    apply List.Pairwise.imp _ sorted
    intro a b before due
    simp only [Model.due, decide_eq_true_eq] at due ⊢
    have later : m.wakeAt b ≤ (m.tick rate).ticks := due
    change m.wakeAt a ≤ (m.tick rate).ticks
    rcases before with less | same <;> omega)
  have due (t : Nat) (member : t ∈ m.asleep) : (m.tick rate).due t = decide (h.deadline t ≤ (m.tick rate).ticks) := by
    rw [← times t member]
    rfl
  rw [parts.1, parts.2]
  exact ⟨List.filter_congr due, List.filter_congr (fun t member => congrArg _ (due t member))⟩

theorem sleeper_kept (e : Event) (c c' : Config) (m : Model) (h : History) (t : Nat) (timely : Timely c m h)
    (member : t ∈ m.asleep) (fired : fire e c = some c') (early : e = .tick → (advance c.state).ticks < h.deadline t) :
    t ∈ (m.fire e c.state.tickRate).asleep ∧ (h.note e c.state).deadline t = h.deadline t := by
  have switched : t ∈ m.scheduler.asleep := (scheduler_asleep m).1 ▸ member
  cases e with
  | tick =>
      refine ⟨?_, rfl⟩
      simp only [Model.fire, Model.timer, (scheduler_asleep _).1]
      change t ∈ m.asleep.dropWhile (m.tick c.state.tickRate).due
      rw [(tick_due m _ h (fun x inside => (timely.asleep x inside).1) timely.sorted).2, List.mem_filter]
      have later := early rfl
      rw [(sim_tick timely.good.sim).ticks] at later
      exact ⟨member, by simpa using later⟩
  | call time =>
      obtain ⟨⟨notIdle, point⟩, -⟩ := Option.ite_none_right_eq_some.mp fired
      rw [timely.good.sim.cur] at notIdle point
      rw [timely.good.sim.idle] at notIdle
      have running := (cur_running timely.good.inv notIdle (.inl point)).2.2
      have awake := (loose_running timely.good.inv.toCore m.cur running).2.1
      exact ⟨member,
        update_of_ne (fun same : t = c.state.curThread => awake ((same.trans timely.good.sim.cur) ▸ member)) _ _⟩
  | enqueue => exact ⟨(mem_sorted_insert m.wakeAt m.cur t).mpr (.inr member), rfl⟩
  | ready x thread => exact ⟨member, rfl⟩
  | yield => exact ⟨switched, rfl⟩
  | sleepSwitch => exact ⟨switched, rfl⟩
  | exit =>
      simp only [Model.fire, Model.reaperAdd]
      split
      · exact ⟨member, rfl⟩
      · exact ⟨member, rfl⟩
  | exitSwitch => exact ⟨switched, rfl⟩
  | found => exact ⟨member, rfl⟩
  | park => exact ⟨member, rfl⟩
  | reaperSwitch => exact ⟨switched, rfl⟩
  | pop => exact ⟨member, rfl⟩
  | destroy => exact ⟨member, rfl⟩

theorem sleeper_until (es : List Event) (c c' : Config) (m : Model) (h : History) (t : Nat) (timely : Timely c m h)
    (exact : allInReach es c = true) (member : t ∈ m.asleep) (early : ∀ n ∈ updatedTicks es c, n < h.deadline t)
    (done : execute es c = some c') :
    ∃ m', Timely c' m' (record es c h) ∧ t ∈ m'.asleep ∧ (record es c h).deadline t = h.deadline t := by
  induction es generalizing c m h with
  | nil =>
      cases done
      exact ⟨m, timely, member, rfl⟩
  | cons e es ih =>
      obtain ⟨next, fired, rest⟩ := Option.bind_eq_some_iff.mp done
      simp only [allInReach, fired, Bool.and_eq_true] at exact
      have ticks :
          (∀ n ∈ updatedTicks es next, n < h.deadline t) ∧ (e = .tick → (advance c.state).ticks < h.deadline t) := by
        cases e <;> simp_all [updatedTicks]
      obtain ⟨kept, sameDeadline⟩ := sleeper_kept e c next m h t timely member fired ticks.2
      obtain ⟨m', timely', member', deadline⟩ :=
        ih next _ (h.note e c.state) (timely_fire e timely exact.1 fired) exact.2 kept
        (by rw [sameDeadline]; exact ticks.1) rest
      simp only [record, fired]
      exact ⟨m', timely', member', deadline.trans sameDeadline⟩

-- One call of `wake_up_threads`, made by a tick.
structure WakesDue (s s' : State) (que sleepQue : List Nat) (deadline : Nat → Nat) : Prop where
  ready : IsQueue s'.nodes s'.que (que ++ sleepQue.filter (fun t => deadline t ≤ s.ticks))
  asleep : IsQueue s'.nodes s'.sleepQue (sleepQue.filter (fun t => !decide (deadline t ≤ s.ticks)))
  woken : ∀ t, (s'.thread t).status = if t ∈ sleepQue ∧ deadline t ≤ s.ticks then .runnable else (s.thread t).status
  times : ∀ t, (s'.thread t).wakeAt = (s.thread t).wakeAt
  ticks : s'.ticks = s.ticks

theorem wakes_due (c : Config) (m : Model) (h : History) (timely : Timely c m h) :
    ∃ s', wakeUpThreads (advance c.state) = .ok s' ∧ WakesDue (advance c.state) s' m.ready m.asleep h.deadline := by
  have ticked := sim_tick timely.good.sim
  obtain ⟨s', done, sim⟩ := sim_wake_up_threads ticked
  obtain ⟨early, late⟩ := tick_due m c.state.tickRate h (fun x inside => (timely.asleep x inside).1) timely.sorted
  have ready :
      (m.tick c.state.tickRate).wakeUpThreads.ready = m.ready ++ m.asleep.takeWhile (m.tick c.state.tickRate).due := rfl
  have asleep : (m.tick c.state.tickRate).wakeUpThreads.asleep = m.asleep.dropWhile (m.tick c.state.tickRate).due := rfl
  refine ⟨s', done, ?_, ?_, ?_, ?_, ?_⟩
  · rw [ticked.ticks, ← early, ← ready]
    exact sim.que
  · rw [ticked.ticks, ← late, ← asleep]
    exact sim.sleepQue
  · intro t
    rw [sim.status, ticked.status, ticked.ticks]
    change (if t ∈ m.asleep.takeWhile (m.tick c.state.tickRate).due then _ else _) = _
    simp only [early, List.mem_filter, decide_eq_true_eq]
  · intro t
    rw [sim.wakeAt, ticked.wakeAt]
    rfl
  · rw [sim.ticks, ticked.ticks]
    rfl

theorem boot_timely (main reaper rate kernelPd : Nat) (thread : Thread) (s : State)
    (other : main ≠ reaper) (h : History) :
    ∃ m, Timely (boot main reaper rate kernelPd thread s) m h := by
  obtain ⟨m, good⟩ := boot_good main reaper rate kernelPd thread s other
  have nobody : m.asleep = [] := List.head?_eq_none_iff.mp good.sim.sleepQue.head.symm
  refine ⟨m, good, ?_, ?_, ?_⟩
  · intro t _ drowsy
    simp only [boot, bootGhost] at drowsy
    split at drowsy <;> cases drowsy
  · simp [nobody]
  · simp [nobody]

-- Sleepers are queued by deadline and turn; a sleeper wakes in the first timer call whose
-- counter reaches its deadline; and each wake-up moves exactly the threads due, in order.
theorem sleepers_wake_on_time (main reaper rate kernelPd : Nat) (thread : Thread) (s : State) (other : main ≠ reaper)
    (es : List Event) (c : Config) (before : History)
    (done : execute es (boot main reaper rate kernelPd thread s) = some c)
    (exact : allInReach es (boot main reaper rate kernelPd thread s) = true) :
    ∃ que sleepQue h, h = record es (boot main reaper rate kernelPd thread s) before ∧
      IsQueue c.state.nodes c.state.que que ∧ IsQueue c.state.nodes c.state.sleepQue sleepQue ∧
      sleepQue.Pairwise (WakesBefore (fun t => (c.state.thread t).wakeAt) h.turn) ∧
      (∀ t ∈ sleepQue, (c.state.thread t).wakeAt = h.deadline t ∧ statusOf c t = .sleeping) ∧
      (∃ s', wakeUpThreads (advance c.state) = .ok s' ∧ WakesDue (advance c.state) s' que sleepQue h.deadline) ∧
      ∀ t ∈ sleepQue, ∀ more c', execute more c = some c' → allInReach more c = true →
        (∀ n ∈ updatedTicks more c, n < h.deadline t) →
        statusOf c' t = .sleeping ∧ ∃ s', wakeUpThreads (advance c'.state) = .ok s' ∧
          ((s'.thread t).status = .runnable ↔ h.deadline t ≤ (advance c'.state).ticks) := by
  obtain ⟨start, timelyStart⟩ := boot_timely main reaper rate kernelPd thread s other before
  obtain ⟨m, timely⟩ := timely_execute es _ c start before timelyStart exact done
  have sleeping (c : Config) (m : Model) (h : History) (timely : Timely c m h) (t : Nat) (member : t ∈ m.asleep) :
      statusOf c t = .sleeping := (timely.good.sim.status t).trans ((timely.good.inv.asleep t).mp member).2.1
  have times : (fun t => (c.state.thread t).wakeAt) = m.wakeAt := funext timely.good.sim.wakeAt
  refine ⟨m.ready, m.asleep, _, rfl, timely.good.sim.que, timely.good.sim.sleepQue, times ▸ timely.sorted, ?_,
    wakes_due c m _ timely, ?_⟩
  · intro t member
    exact ⟨(timely.good.sim.wakeAt t).trans (timely.asleep t member).1, sleeping c m _ timely t member⟩
  · intro t member more c' run exactMore early
    obtain ⟨m', timely', member', deadline⟩ := sleeper_until more c c' m _ t timely exactMore member early run
    have status := sleeping c' m' _ timely' t member'
    obtain ⟨s', woke, wakes⟩ := wakes_due c' m' _ timely'
    refine ⟨status, s', woke, ?_⟩
    rw [wakes.woken, deadline]
    have asleep : ((advance c'.state).thread t).status = .sleeping := status
    by_cases due : (record es (boot main reaper rate kernelPd thread s) before).deadline t ≤ (advance c'.state).ticks
    · simp [due, member']
    · simp [due, asleep]

-- Thread 3 starts, gets the processor behind the reaper and asks to sleep for no time at all.
def smallSleep : List Event := [.ready 3 blankThread, .tick, .park, .reaperSwitch, .call 0, .enqueue]

theorem sleepers_wake_small :
    ∃ c, execute smallSleep smallBoot = some c ∧ c.state.sleepQue.head = some 3 ∧
      ∃ s', wakeUpThreads (advance c.state) = .ok s' ∧ (s'.thread 3).status = .runnable := by
  have facts : (execute smallSleep smallBoot).map
      (fun c => (c.state.sleepQue.head, (c.state.thread 3).wakeAt, (advance c.state).ticks)) =
      some (some 3, 1, 2) := by decide
  obtain ⟨c, done, values⟩ := Option.map_eq_some_iff.mp facts
  simp only [Prod.mk.injEq] at values
  obtain ⟨que, sleepQue, h, -, -, queue, -, deadlines, -, wakes⟩ :=
    sleepers_wake_on_time 1 2 1 0 blankThread blankState (by decide) smallSleep c
      ⟨fun _ => 0, fun _ => 0, 0⟩ done (by decide)
  have member : 3 ∈ sleepQue := List.mem_of_mem_head? (queue.head.symm.trans values.1)
  obtain ⟨-, s', woke, status⟩ := wakes 3 member [] c rfl rfl (by simp [updatedTicks])
  refine ⟨c, done, values.1, s', woke, status.mpr ?_⟩
  rw [← (deadlines 3 member).1, values.2.1, values.2.2]
  decide

theorem execute_append (es more : List Event) (c : Config) :
    execute (es ++ more) c = (execute es c).bind (execute more) := by
  induction es generalizing c with
  | nil => rfl
  | cons e es ih =>
      rw [List.cons_append, execute, execute, Option.bind_assoc]
      exact congrArg _ (funext ih)

-- Thread 3 starts and gets the processor behind the reaper. It calls `thread_sleep(0)`, which reads
-- the counter before its atomic section, and a timer call comes between the two.
def lateBoot : Config := boot 1 2 11931 0 blankThread blankState
def lateStart : List Event := [.ready 3 blankThread, .tick, .park, .reaperSwitch]
def lateCall : List Event := [.call 0, .tick]
def lateQueue : List Event := [.enqueue]
def lateWake : List Event := [.sleepSwitch, .tick]

-- The timer call passes the deadline and cannot wake the thread, which sleeps until the next one.
theorem sleeper_wakes_late :
    ∃ called ticked c c', execute lateStart lateBoot = some called ∧ called.state.curThread = 3 ∧
      execute lateCall called = some ticked ∧ called.state.ticks + 0 * pitCrystal ≤ ticked.state.ticks ∧
      statusOf ticked 3 = .running ∧ execute lateQueue ticked = some c ∧ statusOf c 3 = .sleeping ∧
      called.state.ticks + 0 * pitCrystal ≤ c.state.ticks ∧
      execute lateWake c = some c' ∧ c.state.ticks < c'.state.ticks ∧ statusOf c' 3 = .running := by
  have calls : (execute lateStart lateBoot).map (fun c => (c.state.curThread, c.state.ticks)) = some (3, 11931) := by
    decide +kernel
  have ticks : (execute (lateStart ++ lateCall) lateBoot).map (fun c => (statusOf c 3, c.state.ticks)) =
      some (.running, 23862) := by
    decide +kernel
  have queues : (execute (lateStart ++ (lateCall ++ lateQueue)) lateBoot).map (fun c => (statusOf c 3, c.state.ticks)) =
      some (.sleeping, 23862) := by
    decide +kernel
  have wakes : (execute (lateStart ++ (lateCall ++ (lateQueue ++ lateWake))) lateBoot).map
      (fun c => (statusOf c 3, c.state.ticks)) =
      some (.running, 35793) := by
    decide +kernel
  obtain ⟨called, first, atCall⟩ := Option.map_eq_some_iff.mp calls
  rw [execute_append, first, Option.bind_some] at ticks queues wakes
  obtain ⟨ticked, second, atTick⟩ := Option.map_eq_some_iff.mp ticks
  rw [execute_append, second, Option.bind_some] at queues wakes
  obtain ⟨c, third, atQueue⟩ := Option.map_eq_some_iff.mp queues
  rw [execute_append, third, Option.bind_some] at wakes
  obtain ⟨c', fourth, atWake⟩ := Option.map_eq_some_iff.mp wakes
  simp only [Prod.mk.injEq] at atCall atTick atQueue atWake
  refine ⟨called, ticked, c, c', first, atCall.1, second, ?_, atTick.1, third, atQueue.1, ?_, fourth, ?_, atWake.1⟩
  · omega
  · omega
  · omega

end X86OS.Sched
