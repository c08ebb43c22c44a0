import X86OS.Sched.Atomic
import X86OS.Sched.Properties

set_option autoImplicit false

namespace X86OS.Sched

open Function Relation Sections

-- Where a thread is in its code when interrupts are on.
def codeAt : Point → Body
  | .running | .check => .home
  | .drowsy => sleepSection .home
  | .asleep => schedulerCode (some .running) .home
  | .exiting => schedulerCode none .home
  | .pop => popCode
  | .destroy _ => destroyCode
  | .parking => schedulerCode (some .check) .home

def Point.reaping : Point → Bool
  | .check | .pop | .destroy _ | .parking => true
  | .running | .drowsy | .asleep | .exiting => false

-- The threads other than `t`, and what `t` cannot change about itself. A thread past `reaper_add` that has lost the
-- processor does not get it back.
structure Around (m : Machine Nat Config) (t : Nat) : Prop where
  here : m.state.state.onStack = t
  idle : m.state.ghost.point m.state.state.idleThread = .running
  kind : ∀ u ∈ m.state.ghost.alive, u ≠ m.state.state.reaper → (m.state.ghost.point u).reaping = false
  waits : ∀ u, u ∈ m.state.ghost.alive ∨ u = m.state.state.idleThread → u ≠ t →
    m.state.ghost.point u = .exiting ∨ Resumes (codeAt (m.state.ghost.point u)) (m.saved u) (m.code u)

-- What holds whenever interrupts are on.
structure Stands (m : Machine Nat Config) : Prop where
  flag : m.flag = true
  good : ∃ model, Good m.state.state m.state.ghost model
  around : Around m m.state.state.onStack
  saved : m.saved m.state.state.onStack = []
  code : m.code m.state.state.onStack = codeAt (m.state.ghost.point m.state.state.onStack)

-- The thread on the processor changes its own point and nothing that the others rest on.
structure Own (t : Nat) (c c' : Config) : Prop where
  idleThread : c'.state.idleThread = c.state.idleThread
  reaper : c'.state.reaper = c.state.reaper
  alive : ∀ u, u ∈ c'.ghost.alive → u ∈ c.ghost.alive
  others : ∀ u, u ≠ t → c'.ghost.point u = c.ghost.point u
  idle : c'.ghost.point c.state.idleThread = .running
  kind : t ∈ c.ghost.alive → t ≠ c.state.reaper → (c'.ghost.point t).reaping = false

section Own

variable {m : Machine Nat Config} {t : Nat} {c' : Config}

theorem own_kind (around : Around m t) (own : Own t m.state c') (u : Nat) (alive : u ∈ c'.ghost.alive)
    (notReaper : u ≠ c'.state.reaper) :
    (c'.ghost.point u).reaping = false := by
  rw [own.reaper] at notReaper
  by_cases same : u = t
  · rw [same] at alive notReaper ⊢
    exact own.kind (own.alive t alive) notReaper
  · rw [own.others u same]
    exact around.kind u (own.alive u alive) notReaper

theorem own_idle (own : Own t m.state c') : c'.ghost.point c'.state.idleThread = .running := by
  rw [own.idleThread]
  exact own.idle

theorem own_waits (code : Body) (saved : List Bool) (around : Around m t) (own : Own t m.state c') (u : Nat)
    (known : u ∈ c'.ghost.alive ∨ u = c'.state.idleThread) (other : u ≠ t) :
    c'.ghost.point u = .exiting ∨
      Resumes (codeAt (c'.ghost.point u)) (update m.saved t saved u) (update m.code t code u) := by
  rw [own.others u other, update_of_ne other, update_of_ne other]
  exact around.waits u (known.imp (own.alive u) (fun isIdle => isIdle.trans own.idleThread)) other

theorem around_own (flag : Bool) (code : Body) (saved : List Bool) (around : Around m t) (own : Own t m.state c')
    (stack : c'.state.onStack = m.state.state.onStack) :
    Around ⟨c', flag, update m.code t code, update m.saved t saved⟩ t :=
  ⟨stack.trans around.here, own_idle own, own_kind around own, own_waits code saved around own⟩

end Own

section Switch

theorem finish_scheduler (c : Config) (flag : Bool) (code : Nat → Body) (saved : Nat → List Bool) (t : Nat)
    (after : Option Point) (next : Body) (s' : State) (here : c.state.onStack = t) (cur : c.state.curThread = t)
    (done : scheduler c.state = .ok s') :
    finish t (schedulerCode after next) ⟨c, flag, code, saved⟩ =
      some ⟨⟨s', moved t after c.ghost⟩, false, update code t (.stop next), update saved t (flag :: saved t)⟩ := by
  rw [scheduler] at done
  split at done
  · cases done
  · rename_i chosen s1 popped
    cases done
    obtain ⟨cur1, stack1⟩ := next_stays _ _ _ popped
    obtain ⟨cur0, stack0⟩ := requeue_stays c.state
    have onStack : s1.onStack = t := (stack1.trans stack0).trans here
    have curThread : s1.curThread = t := (cur1.trans cur0).trans cur
    have picked : pick (requeue c.state) = .ok (s1.setCur (chosen.getD s1.idleThread)) := by rw [pick, popped]
    simp only [schedulerCode, schedulerBody, finish, Machine.save, always, checked, picked, outcome, turn,
      Option.bind_some, Option.map_some, Machine.go, dispatch, State.setCur, setEsp0, mark_running_stays,
      switch_space_stays, onStack, curThread]

theorem finish_sleep (c : Config) (before : Bool) (rest : List Bool) (code : Nat → Body) (saved : Nat → List Bool)
    (t : Nat) (next : Body) (s' : State) (top : saved t = before :: rest) (done : goToSleep c.state = .ok s') :
    finish t (sleepBody next) ⟨c, false, code, saved⟩ =
      if before then
        some ⟨⟨s', c.ghost.move c.state.curThread .asleep⟩, true, update code t (schedulerCode (some .running) next),
          update saved t rest⟩
      else
        finish t (schedulerCode (some .running) next)
          ⟨⟨s', c.ghost.move c.state.curThread .asleep⟩, false, code, update saved t rest⟩ := by
  have sorted : sortIn (c.state.setStatus c.state.curThread .sleeping) = .ok s' := done
  have same : (c.state.setStatus c.state.curThread .sleeping).curThread = c.state.curThread := rfl
  simp only [sleepBody, finish, always, Option.bind_some, sorted, same, outcome, Machine.restore, top]
  cases before with
  | true => rfl
  | false => rfl

theorem finish_exit (c : Config) (before : Bool) (rest : List Bool) (code : Nat → Body) (saved : Nat → List Bool)
    (t : Nat) (next : Body) (top : saved t = before :: rest) :
    finish t (exitBody next) ⟨c, false, code, saved⟩ =
      if before then
        some ⟨⟨reaperAdd c.state.curThread c.state, { c.ghost.move c.state.curThread .exiting with parked := false }⟩,
          true, update code t (schedulerCode none next), update saved t rest⟩
      else
        finish t (schedulerCode none next)
          ⟨⟨reaperAdd c.state.curThread c.state, { c.ghost.move c.state.curThread .exiting with parked := false }⟩,
            false, code, update saved t rest⟩ := by
  have stop (s : State) (g : Ghost) : finish t (.stop (schedulerCode none next)) ⟨⟨s, g⟩, false, code, saved⟩ =
      if before then some ⟨⟨s, g⟩, true, update code t (schedulerCode none next), update saved t rest⟩
      else finish t (schedulerCode none next) ⟨⟨s, g⟩, false, code, update saved t rest⟩ := by
    simp only [finish, Machine.restore, top, Option.bind_some]
    cases before with
    | true => rfl
    | false => rfl
  -- `thread_ready` inside the section finds interrupts off and leaves them so.
  have woken (s : State) (g : Ghost) :
      finish t (wakeReaper (.stop (schedulerCode none next))) ⟨⟨s, g⟩, false, code, saved⟩ =
      finish t (.stop (schedulerCode none next)) ⟨⟨threadReady s.reaper s, g⟩, false, code, saved⟩ := by
    have nested : finish t (wakeReaper (.stop (schedulerCode none next))) ⟨⟨s, g⟩, false, code, saved⟩ =
        (Machine.restore ⟨⟨threadReady s.reaper s, g⟩, false, code, update saved t (false :: saved t)⟩ t).bind
          (fun m' => if m'.flag then some (m'.go t (.stop (schedulerCode none next)))
            else finish t (.stop (schedulerCode none next)) m') := rfl
    simp only [nested, Machine.restore, update_self, Option.bind_some, update_idem, update_eq_self]
    rfl
  let dead := c.state.setStatus c.state.curThread .zombie
  let queued := dead.setZombieQue (listPushBack dead.zombieQue c.state.curThread dead.nodes)
  have tested : finish t (exitBody next) ⟨c, false, code, saved⟩ =
      if reaperWaits ⟨queued, { c.ghost.move c.state.curThread .exiting with parked := false }⟩ then
        finish t (wakeReaper (.stop (schedulerCode none next)))
          ⟨⟨queued, { c.ghost.move c.state.curThread .exiting with parked := false }⟩, false, code, saved⟩
      else
        finish t (.stop (schedulerCode none next))
          ⟨⟨queued, { c.ghost.move c.state.curThread .exiting with parked := false }⟩, false, code, saved⟩ := rfl
  have added : reaperAdd c.state.curThread c.state = if (queued.thread queued.reaper).status ≠ .runnable
      then threadReady queued.reaper queued else queued := rfl
  have decision (g : Ghost) : reaperWaits ⟨queued, g⟩ = true ↔ (queued.thread queued.reaper).status ≠ .runnable :=
    decide_eq_true_iff
  rw [tested, woken, stop, stop, added]
  by_cases waits : (queued.thread queued.reaper).status ≠ .runnable
  · rw [if_pos waits, if_pos ((decision _).mpr waits)]
  · rw [if_neg waits, if_neg (fun held => waits ((decision _).mp held))]

theorem good_known_cur {s : State} {g : Ghost} {model : Model} (good : Good s g model) :
    s.onStack ∈ g.alive ∨ s.onStack = s.idleThread := by
  rw [good.stack, good.sim.cur, good.sim.idle]
  exact good.inv.cur.symm

theorem fresh_not_exiting {s : State} {g : Ghost} {model : Model} (good : Good s g model)
    (idle : g.point s.idleThread = .running) (fresh : model.cur = model.idle ∨ model.status model.cur = .running) :
    g.point s.onStack ≠ .exiting := by
  intro exiting
  rw [good.stack, good.sim.cur] at exiting
  rcases fresh with isIdle | running
  · rw [isIdle, ← good.sim.idle, idle] at exiting
    cases exiting
  · by_cases same : model.cur = model.reaper
    · have places := good.inv.reaperPoint
      rw [← same, exiting] at places
      simp at places
    · rcases good.inv.cur with isIdle | alive
      · rw [isIdle, ← good.sim.idle, idle] at exiting
        cases exiting
      · have zombie := (good.inv.exiting _ alive same).mpr exiting
        rw [running] at zombie
        cases zombie

theorem switch_runs (m : Machine Nat Config) (t : Nat) (c' : Config) (code : Body) (saved : List Bool) (model : Model)
    (around : Around m t) (own : Own t m.state c') (good : Good c'.state c'.ghost model)
    (fresh : model.cur = model.idle ∨ model.status model.cur = .running)
    (left : c'.ghost.point t = .exiting ∨ Resumes (codeAt (c'.ghost.point t)) saved code)
    (balanced : Balanced kernel ⟨c', false, update m.code t code, update m.saved t saved⟩) :
    ∃ m', ReflTransGen (Locked kernel) ⟨c', false, update m.code t code, update m.saved t saved⟩ m' ∧ Stands m' ∧
      m'.state = c' := by
  have waits (u : Nat) (known : u ∈ c'.ghost.alive ∨ u = c'.state.idleThread) :
      c'.ghost.point u = .exiting ∨
        Resumes (codeAt (c'.ghost.point u)) (update m.saved t saved u) (update m.code t code u) := by
    by_cases same : u = t
    · rw [same, update_self, update_self]
      exact left
    · exact own_waits code saved around own u known same
  have back := (waits _ (good_known_cur good)).resolve_left (fresh_not_exiting good (own_idle own) fresh)
  refine ⟨_, resumes_run _ _ balanced rfl back,
    ⟨rfl, ⟨model, good⟩, ⟨rfl, own_idle own, own_kind around own, fun u known other => ?_⟩, ?_, ?_⟩,
    rfl⟩
  · have notCur : u ≠ c'.state.onStack := other
    simpa only [Machine.go, kernel, update_of_ne notCur] using waits u known
  · simp only [Machine.go, kernel, update_self]
  · simp only [Machine.go, kernel, update_self]

end Switch

-- What a move from a point with interrupts on leads to: the next such point, and the steps of the scheduler in between.
def Lands (m entered : Machine Nat Config) : Prop :=
  ∃ m', ReflTransGen (Locked kernel) entered m' ∧ Stands m' ∧ ReflTransGen Step m.state m'.state

section Landing

variable {m : Machine Nat Config} {t : Nat}

theorem own_point (around : Around m t) (s' : State) (g' : Ghost) (p : Point)
    (idleThread : s'.idleThread = m.state.state.idleThread) (reaper : s'.reaper = m.state.state.reaper)
    (alive : ∀ u, u ∈ g'.alive → u ∈ m.state.ghost.alive) (points : g'.point = update m.state.ghost.point t p)
    (atIdle : t = m.state.state.idleThread → p = .running)
    (kind : t ∈ m.state.ghost.alive → t ≠ m.state.state.reaper → p.reaping = false) : Own t m.state ⟨s', g'⟩ := by
  refine ⟨idleThread, reaper, alive, fun u other => ?_, ?_, fun member notReaper => ?_⟩
  · rw [points, update_of_ne other]
  · rw [points]
    by_cases same : m.state.state.idleThread = t
    · rw [same, update_self]
      exact atIdle same.symm
    · rw [update_of_ne same]
      exact around.idle
  · rw [points, update_self]
    exact kind member notReaper

theorem own_same (around : Around m t) (s' : State) (idleThread : s'.idleThread = m.state.state.idleThread)
    (reaper : s'.reaper = m.state.state.reaper) : Own t m.state ⟨s', m.state.ghost⟩ :=
  ⟨idleThread, reaper, fun _ => id, fun _ _ => rfl, around.idle, around.kind t⟩

theorem lands_on (c' : Config) (model : Model) (around : Around m t) (own : Own t m.state c')
    (stack : c'.state.onStack = t) (good : Good c'.state c'.ghost model) :
    Stands ⟨c', true, update m.code t (codeAt (c'.ghost.point t)), update m.saved t []⟩ := by
  refine ⟨rfl, ⟨model, good⟩, ?_, ?_, ?_⟩
  · rw [stack]
    exact around_own true _ _ around own (stack.trans around.here.symm)
  · simp only [stack, update_self]
  · simp only [stack, update_self]

theorem entered_fits (code : Body) (around : Around m t) (balanced : Balanced kernel ((m.save t).go t code)) :
    Fits kernel.cur t false ((m.save t).saved t) code := by
  have fits := balanced.now
  have here : kernel.cur ((m.save t).go t code).state = t := around.here
  rw [here] at fits
  simp only [Machine.go, update_self] at fits
  exact fits

theorem finish_lands (code target : Body) (c' : Config) (model : Model) (around : Around m t)
    (balanced : Balanced kernel ((m.save t).go t code)) (own : Own t m.state c') (stack : c'.state.onStack = t)
    (good : Good c'.state c'.ghost model) (steps : ReflTransGen Step m.state c')
    (place : target = codeAt (c'.ghost.point t))
    (done : finish t code (m.save t) = some ⟨c', true, update m.code t target, update m.saved t []⟩) :
    Lands m ((m.save t).go t code) := by
  refine ⟨_, finish_run t code _ _ around.here rfl (entered_fits code around balanced) done, ?_, steps⟩
  rw [place]
  exact lands_on c' model around own stack good

theorem finish_switches (code left : Body) (saved : List Bool) (c' : Config) (model : Model) (around : Around m t)
    (balanced : Balanced kernel ((m.save t).go t code)) (own : Own t m.state c') (good : Good c'.state c'.ghost model)
    (fresh : model.cur = model.idle ∨ model.status model.cur = .running) (steps : ReflTransGen Step m.state c')
    (waits : c'.ghost.point t = .exiting ∨ Resumes (codeAt (c'.ghost.point t)) saved left)
    (done : finish t code (m.save t) = some ⟨c', false, update m.code t left, update m.saved t saved⟩) :
    Lands m ((m.save t).go t code) := by
  have run := finish_run t code _ _ around.here rfl (entered_fits code around balanced) done
  obtain ⟨m', rest, stands, state⟩ :=
    switch_runs m t c' left saved model around own good fresh waits (locked_balanced kernel_lawful _ _ balanced run)
  exact ⟨m', run.trans rest, stands, state ▸ steps⟩

end Landing

section Entries

variable {m : Machine Nat Config}

theorem scheduler_fresh (model : Model) :
    model.scheduler.cur = model.scheduler.idle ∨ model.scheduler.status model.scheduler.cur = .running := by
  rw [(scheduler_same model).1]
  exact scheduler_cur model

theorem timer_same (model : Model) (rate : Nat) :
    (model.timer rate).idle = model.idle ∧ (model.timer rate).reaper = model.reaper :=
  scheduler_same (model.tick rate).wakeUpThreads

theorem good_places {s s' : State} {g g' : Ghost} {model model' : Model} (good : Good s g model)
    (good' : Good s' g' model') (same : model'.idle = model.idle ∧ model'.reaper = model.reaper) :
    s'.idleThread = s.idleThread ∧ s'.reaper = s.reaper := by
  rw [good.sim.idle, good.sim.reaper, good'.sim.idle, good'.sim.reaper]
  exact same

theorem act_lands (c' : Config) (target : Body) (model : Model) (stands : Stands m)
    (own : Own m.state.state.onStack m.state c') (stack : c'.state.onStack = m.state.state.onStack)
    (good : Good c'.state c'.ghost model) (steps : ReflTransGen Step m.state c')
    (place : target = codeAt (c'.ghost.point m.state.state.onStack)) :
    Lands m { m.go m.state.state.onStack target with state := c' } := by
  refine ⟨_, .refl, ?_, steps⟩
  have landed := lands_on c' model stands.around own stack good
  rw [← place, ← stands.flag, ← stands.saved, update_eq_self] at landed
  exact landed

theorem home_point (stands : Stands m) (program : m.code m.state.state.onStack = .home) :
    m.state.ghost.point m.state.state.onStack = .running ∨ m.state.ghost.point m.state.state.onStack = .check := by
  rw [stands.code] at program
  cases place : m.state.ghost.point m.state.state.onStack with
  | running => exact .inl rfl
  | check => exact .inr rfl
  | drowsy | asleep | exiting | pop | destroy | parking =>
      rw [place] at program
      cases program

theorem ordinary_running (stands : Stands m) (ordinary : Ordinary m.state)
    (program : m.code m.state.state.onStack = .home) :
    m.state.ghost.point m.state.state.onStack = .running := by
  obtain ⟨model, good⟩ := stands.good
  have alive := (good_known_cur good).resolve_right ordinary.1
  have kind := stands.around.kind _ alive ordinary.2
  rcases home_point stands program with running | check
  · exact running
  · rw [check] at kind
    cases kind

theorem reaping_reaper (stands : Stands m) (reaping : (m.state.ghost.point m.state.state.onStack).reaping = true) :
    m.state.state.onStack = m.state.state.reaper := by
  obtain ⟨model, good⟩ := stands.good
  by_contra other
  rcases good_known_cur good with alive | isIdle
  · rw [stands.around.kind _ alive other] at reaping
    cases reaping
  · rw [isIdle, stands.around.idle] at reaping
    cases reaping

theorem working_not_idle (stands : Stands m) (working : m.state.ghost.point m.state.state.onStack ≠ .running) :
    m.state.state.onStack ≠ m.state.state.idleThread := by
  intro isIdle
  rw [isIdle] at working
  exact working stands.around.idle

section Sleep

variable {s : State} {g : Ghost} {model : Model}

theorem good_sleep_until (good : Good s g model) (time : Nat) (notIdle : s.onStack ≠ s.idleThread)
    (point : g.point s.onStack = .running) :
    Step ⟨s, g⟩ ⟨sleepUntil time s, g.move s.onStack .drowsy⟩ ∧
    Good (sleepUntil time s) (g.move s.onStack .drowsy) (model.sleepUntil time) := by
  rw [good.stack] at notIdle point ⊢
  exact ⟨.sleepUntil s g time notIdle point, good_fire (.call time) ⟨_, _⟩ good (if_pos ⟨notIdle, point⟩)⟩

theorem good_goes_to_sleep (good : Good s g model) (notIdle : s.onStack ≠ s.idleThread)
    (point : g.point s.onStack = .drowsy) :
    ∃ s', goToSleep s = .ok s' ∧ s'.onStack = s.onStack ∧ Step ⟨s, g⟩ ⟨s', g.move s.onStack .asleep⟩ ∧
      Good s' (g.move s.onStack .asleep) model.goToSleep := by
  rw [good.stack] at notIdle point ⊢
  have notIdle' := notIdle
  have point' := point
  rw [good.sim.cur, good.sim.idle] at notIdle'
  rw [good.sim.cur] at point'
  obtain ⟨-, -, running⟩ := cur_running good.inv notIdle' (.inr point')
  obtain ⟨s', done, -⟩ := sim_go_to_sleep good.sim (loose_running good.inv.toCore _ running)
  have good' := good_enqueue good notIdle' point' done
  rw [← good.sim.cur] at good'
  have stack : s'.onStack = s.onStack := by
    rw [goToSleep] at done
    split at done
    · cases done
    · cases done
      rfl
  exact ⟨s', done, stack.trans good.stack, .sleep s s' g notIdle point done, good'⟩

theorem good_switches_asleep (good : Good s g model) (point : g.point s.onStack = .asleep) :
    ∃ s', scheduler s = .ok s' ∧ Step ⟨s, g⟩ ⟨s', g.move s.onStack .running⟩ ∧
      Good s' (g.move s.onStack .running) model.scheduler := by
  rw [good.stack] at point ⊢
  obtain ⟨s', done, -⟩ := good_scheduler good
  have good' := good_sleep_switch good (good.sim.cur ▸ point) done
  rw [← good.sim.cur] at good'
  exact ⟨s', done, .sleepSwitch s s' g point done, good'⟩

end Sleep

end Entries

end X86OS.Sched
