import X86OS.Sched.Landing

set_option autoImplicit false

namespace X86OS.Sched

open Function Relation Sections

section Entries

variable {m : Machine Nat Config}

theorem stands_saves (stands : Stands m) : m.flag :: m.saved m.state.state.onStack = [true] := by
  rw [stands.flag, stands.saved]

theorem timer_lands (stands : Stands m)
    (balanced : Balanced kernel
      ((m.save m.state.state.onStack).go m.state.state.onStack (timerCode (.iret (m.code m.state.state.onStack))))) :
    Lands m
      ((m.save m.state.state.onStack).go m.state.state.onStack (timerCode (.iret (m.code m.state.state.onStack)))) := by
  obtain ⟨model, good⟩ := stands.good
  obtain ⟨s', ticked, good'⟩ := good_timer good
  obtain ⟨sameIdle, sameReaper⟩ := good_places good good' (timer_same model _)
  have done := ticked
  rw [timer] at done
  split at done
  · cases done
  · rename_i s1 woken
    refine finish_switches _ (.stop (.iret (m.code m.state.state.onStack))) [false, true] ⟨s', m.state.ghost⟩ _
      stands.around balanced (own_same stands.around s' sameIdle sameReaper) good' (scheduler_fresh _)
        (.single (.timer _ _ _ ticked)) (.inr ?_) ?_
    · rw [stands.code]
      exact ⟨false, [true], rfl, .inr ⟨rfl, true, [], rfl, .inl ⟨rfl, rfl, rfl⟩⟩⟩
    · obtain ⟨cur, stack⟩ := wake_loop_stays _ _ _ woken
      simp only [timerCode, finish, always, checked, Machine.save, woken, outcome, Option.bind_some]
      rw [finish_scheduler _ _ _ _ _ none _ s' stack (cur.trans good.stack.symm) done]
      simp only [moved, update_self, update_idem, stands.flag, stands.saved, Option.elim]

theorem scheduler_lands (after : Option Point) (s' : State) (model model' : Model) (stands : Stands m)
    (good : Good m.state.state m.state.ghost model) (done : scheduler m.state.state = .ok s')
    (balanced : Balanced kernel ((m.save m.state.state.onStack).go m.state.state.onStack (schedulerBody after .home)))
    (own : Own m.state.state.onStack m.state ⟨s', moved m.state.state.onStack after m.state.ghost⟩)
    (good' : Good s' (moved m.state.state.onStack after m.state.ghost) model'.scheduler)
    (step : Step m.state ⟨s', moved m.state.state.onStack after m.state.ghost⟩)
    (waits : (moved m.state.state.onStack after m.state.ghost).point m.state.state.onStack = .exiting ∨
      codeAt ((moved m.state.state.onStack after m.state.ghost).point m.state.state.onStack) = .home) :
    Lands m ((m.save m.state.state.onStack).go m.state.state.onStack (schedulerBody after .home)) := by
  refine finish_switches _ (.stop .home) [true] ⟨s', moved m.state.state.onStack after m.state.ghost⟩ _ stands.around
    balanced own good'
    (scheduler_fresh model') (.single step) (waits.imp id (fun home => ?_)) ?_
  · rw [home]
    exact ⟨true, [], rfl, .inl ⟨rfl, rfl, rfl⟩⟩
  · have ran :=
      finish_scheduler m.state m.flag m.code m.saved m.state.state.onStack after .home s' rfl good.stack.symm done
    rw [stands_saves stands] at ran
    exact ran

theorem yield_lands (stands : Stands m) (point : m.state.ghost.point m.state.state.onStack = .running ∨
      m.state.ghost.point m.state.state.onStack = .exiting)
    (balanced : Balanced kernel ((m.save m.state.state.onStack).go m.state.state.onStack (schedulerBody none .home))) :
    Lands m ((m.save m.state.state.onStack).go m.state.state.onStack (schedulerBody none .home)) := by
  obtain ⟨model, good⟩ := stands.good
  obtain ⟨s', done, good'⟩ := good_scheduler good
  obtain ⟨sameIdle, sameReaper⟩ := good_places good good' (scheduler_same model)
  have own := own_same stands.around s' sameIdle sameReaper
  rcases point with running | exiting
  · refine scheduler_lands none s' model model stands good done balanced own good'
      (.yield _ _ _ (good.stack ▸ running) done) (.inr ?_)
    rw [moved, Option.elim, running]
    rfl
  · exact scheduler_lands none s' model model stands good done balanced own good'
      (.exitSwitch _ _ _ (good.stack ▸ exiting) done) (.inl exiting)

theorem sleep_switch_lands (stands : Stands m) (point : m.state.ghost.point m.state.state.onStack = .asleep)
    (balanced :
      Balanced kernel ((m.save m.state.state.onStack).go m.state.state.onStack (schedulerBody (some .running) .home))) :
    Lands m ((m.save m.state.state.onStack).go m.state.state.onStack (schedulerBody (some .running) .home)) := by
  obtain ⟨model, good⟩ := stands.good
  obtain ⟨s', done, step, good'⟩ := good_switches_asleep good point
  obtain ⟨sameIdle, sameReaper⟩ := good_places good good' (scheduler_same model)
  refine scheduler_lands (some .running) s' model model stands good done balanced ?_ good' step (.inr ?_)
  · exact own_point stands.around s' _ .running sameIdle sameReaper (fun _ => id) rfl (fun _ => rfl) (fun _ _ => rfl)
  · rw [moved, Option.elim, Ghost.move_at, if_pos rfl]
    rfl

theorem reaper_switch_lands (stands : Stands m) (point : m.state.ghost.point m.state.state.onStack = .parking)
    (balanced :
      Balanced kernel ((m.save m.state.state.onStack).go m.state.state.onStack (schedulerBody (some .check) .home))) :
    Lands m ((m.save m.state.state.onStack).go m.state.state.onStack (schedulerBody (some .check) .home)) := by
  obtain ⟨model, good⟩ := stands.good
  have isReaper := reaping_reaper stands (by rw [point]; rfl)
  have notIdle := working_not_idle stands (by simp [point])
  obtain ⟨s', done, -⟩ := good_scheduler good
  have parked : m.state.ghost.point m.state.state.reaper = .parking := isReaper ▸ point
  have good' := good_reaper_switch good (good.sim.reaper ▸ parked) done
  have step := Step.reaperSwitch m.state.state s' m.state.ghost (good.stack ▸ isReaper) parked done
  rw [← good.sim.reaper, ← isReaper] at good'
  rw [← isReaper] at step
  obtain ⟨sameIdle, sameReaper⟩ := good_places good good' (scheduler_same model)
  refine scheduler_lands (some .check) s' model model stands good done balanced ?_ good' step (.inr ?_)
  · exact own_point stands.around s' _ .check sameIdle sameReaper (fun _ => id) rfl (fun same => (notIdle same).elim)
      (fun _ notReaper => (notReaper isReaper).elim)
  · rw [moved, Option.elim, Ghost.move_at, if_pos rfl]
    rfl

theorem own_working (stands : Stands m) (s' : State) (g' : Ghost) (p : Point)
    (idleThread : s'.idleThread = m.state.state.idleThread) (reaper : s'.reaper = m.state.state.reaper)
    (alive : ∀ u, u ∈ g'.alive → u ∈ m.state.ghost.alive)
    (points : g'.point = update m.state.ghost.point m.state.state.onStack p)
    (notIdle : m.state.state.onStack ≠ m.state.state.idleThread)
    (kind : p.reaping = false ∨ m.state.state.onStack = m.state.state.reaper) :
    Own m.state.state.onStack m.state ⟨s', g'⟩ :=
  own_point stands.around s' g' p idleThread reaper alive points (fun same => (notIdle same).elim)
    (fun _ notReaper => kind.resolve_right notReaper)

theorem sleep_call_lands (time : Nat) (stands : Stands m) (ordinary : Ordinary m.state)
    (program : m.code m.state.state.onStack = .home) :
    Lands m { m.go m.state.state.onStack (sleepSection .home) with
      state := ⟨sleepUntil time m.state.state, m.state.ghost.move m.state.state.curThread .drowsy⟩ } := by
  obtain ⟨model, good⟩ := stands.good
  obtain ⟨step, good'⟩ := good_sleep_until good time ordinary.1 (ordinary_running stands ordinary program)
  rw [← good.stack]
  refine act_lands _ _ _ stands ?_ rfl good' (.single step) ?_
  · exact own_working stands _ _ .drowsy rfl rfl (fun _ => id) rfl ordinary.1 (.inl rfl)
  · rw [Ghost.move_at, if_pos rfl]
    rfl

theorem sleep_section_lands (stands : Stands m) (point : m.state.ghost.point m.state.state.onStack = .drowsy)
    (balanced : Balanced kernel ((m.save m.state.state.onStack).go m.state.state.onStack (sleepBody .home))) :
    Lands m ((m.save m.state.state.onStack).go m.state.state.onStack (sleepBody .home)) := by
  obtain ⟨model, good⟩ := stands.good
  have notIdle := working_not_idle stands (by simp [point])
  obtain ⟨s', done, stack, step, good'⟩ := good_goes_to_sleep good notIdle point
  obtain ⟨sameIdle, sameReaper⟩ := good_places good good' ⟨rfl, rfl⟩
  refine finish_lands _ (schedulerCode (some .running) .home) ⟨s', m.state.ghost.move m.state.state.onStack .asleep⟩ _
    stands.around balanced (own_working stands s' _ .asleep sameIdle sameReaper (fun _ => id) rfl notIdle (.inl rfl))
    stack good'
      (.single step) ?_ ?_
  · rw [Ghost.move_at, if_pos rfl]
    rfl
  · rw [Machine.save, stands_saves stands,
      finish_sleep m.state true [] m.code _ _ .home s' (update_self _ _ _) done, if_pos rfl, update_idem, ← good.stack]

theorem move_again (g : Ghost) (t : Nat) (p q : Point) : (g.move t p).move t q = g.move t q := by
  simp only [Ghost.move, update_idem]

-- Inside the handler of `int 0x80` no flag comes on before the switch.
theorem sleep_trap_lands (time : Nat) (stands : Stands m) (ordinary : Ordinary m.state)
    (program : m.code m.state.state.onStack = .home) (balanced :
      Balanced kernel ((m.save m.state.state.onStack).go m.state.state.onStack (threadSleepCode time (.iret .home)))) :
    Lands m ((m.save m.state.state.onStack).go m.state.state.onStack (threadSleepCode time (.iret .home))) := by
  obtain ⟨model, good⟩ := stands.good
  obtain ⟨step1, good1⟩ := good_sleep_until good time ordinary.1 (ordinary_running stands ordinary program)
  have drowsy : (m.state.ghost.move m.state.state.onStack .drowsy).point m.state.state.onStack = .drowsy := by
    rw [Ghost.move_at, if_pos rfl]
  obtain ⟨s2, done2, stack2, step2, good2⟩ := good_goes_to_sleep good1 ordinary.1 drowsy
  change s2.onStack = m.state.state.onStack at stack2
  change Good s2 ((m.state.ghost.move m.state.state.onStack .drowsy).move m.state.state.onStack .asleep) _ at good2
  change Step _ ⟨s2, (m.state.ghost.move m.state.state.onStack .drowsy).move m.state.state.onStack .asleep⟩ at step2
  rw [move_again] at good2 step2
  have asleep : (m.state.ghost.move m.state.state.onStack .asleep).point s2.onStack = .asleep := by
    rw [stack2, Ghost.move_at, if_pos rfl]
  obtain ⟨s', done3, step3, good'⟩ := good_switches_asleep good2 asleep
  rw [stack2, move_again] at good' step3
  obtain ⟨sameIdle, sameReaper⟩ := good_places good good' (scheduler_same _)
  refine finish_switches _ (.stop (.iret .home)) [false, true] ⟨s', m.state.ghost.move m.state.state.onStack .running⟩ _
    stands.around balanced
    (own_working stands s' _ .running sameIdle sameReaper (fun _ => id) rfl ordinary.1 (.inl rfl)) good'
      (scheduler_fresh _)
    (((ReflTransGen.single step1).tail step2).tail step3) (.inr ?_) ?_
  · rw [Ghost.move_at, if_pos rfl]
    exact ⟨false, [true], rfl, .inr ⟨rfl, true, [], rfl, .inl ⟨rfl, rfl, rfl⟩⟩⟩
  · have called : finish m.state.state.onStack (threadSleepCode time (.iret .home)) (m.save m.state.state.onStack) =
        finish m.state.state.onStack (sleepBody (.iret .home))
          (Machine.save
            ⟨⟨sleepUntil time m.state.state, m.state.ghost.move m.state.state.curThread .drowsy⟩, false, m.code,
            (m.save m.state.state.onStack).saved⟩ m.state.state.onStack) := rfl
    rw [called]
    simp only [Machine.save, stands_saves stands, update_self, update_idem, ← good.stack]
    rw [finish_sleep _ false [true] _ _ _ _ s2 (update_self _ _ _) done2, if_neg Bool.false_ne_true, update_idem,
      finish_scheduler _ _ _ _ _ _ _ s' stack2 (good2.stack.symm.trans stack2) done3]
    have cur : (sleepUntil time m.state.state).curThread = m.state.state.onStack := good.stack.symm
    simp only [moved, Option.elim, cur, move_again, update_self, update_idem]

theorem reaper_add_stays (t : Nat) (s : State) :
    (reaperAdd t s).onStack = s.onStack ∧ (reaperAdd t s).curThread = s.curThread ∧
    (reaperAdd t s).idleThread = s.idleThread ∧ (reaperAdd t s).reaper = s.reaper := by
  rw [reaperAdd]
  split <;> exact ⟨rfl, rfl, rfl, rfl⟩

theorem good_exits {s : State} {g : Ghost} {model : Model} (good : Good s g model) (notIdle : s.onStack ≠ s.idleThread)
    (point : g.point s.onStack = .running) :
    Step ⟨s, g⟩ ⟨reaperAdd s.onStack s, { g.move s.onStack .exiting with parked := false }⟩ ∧
    Good (reaperAdd s.onStack s) { g.move s.onStack .exiting with parked := false } (model.reaperAdd model.cur) := by
  rw [good.stack] at notIdle point ⊢
  refine ⟨.exit s g notIdle point, ?_⟩
  have notIdle' := notIdle
  have point' := point
  rw [good.sim.cur, good.sim.idle] at notIdle'
  rw [good.sim.cur] at point'
  rw [good.sim.cur]
  exact good_exit good notIdle' point'

theorem exit_call_lands (stands : Stands m) (ordinary : Ordinary m.state)
    (program : m.code m.state.state.onStack = .home)
    (balanced : Balanced kernel ((m.save m.state.state.onStack).go m.state.state.onStack (exitBody .home))) :
    Lands m ((m.save m.state.state.onStack).go m.state.state.onStack (exitBody .home)) := by
  obtain ⟨model, good⟩ := stands.good
  obtain ⟨step, good'⟩ := good_exits good ordinary.1 (ordinary_running stands ordinary program)
  obtain ⟨stack, -, sameIdle, sameReaper⟩ := reaper_add_stays m.state.state.onStack m.state.state
  refine finish_lands _ (schedulerCode none .home)
    ⟨_, { m.state.ghost.move m.state.state.onStack .exiting with parked := false }⟩ _ stands.around
    balanced (own_working stands _ _ .exiting sameIdle sameReaper (fun _ => id) rfl ordinary.1 (.inl rfl)) stack good'
      (.single step) ?_ ?_
  · have place : (m.state.ghost.move m.state.state.onStack .exiting).point m.state.state.onStack = .exiting := by
      rw [Ghost.move_at, if_pos rfl]
    exact (congrArg codeAt place).symm
  · rw [Machine.save, stands_saves stands, finish_exit m.state true [] m.code _ _ .home (update_self _ _ _), if_pos rfl,
      update_idem, ← good.stack]

theorem exit_trap_lands (stands : Stands m) (ordinary : Ordinary m.state)
    (program : m.code m.state.state.onStack = .home)
    (balanced : Balanced kernel ((m.save m.state.state.onStack).go m.state.state.onStack (exitCode (.iret .home)))) :
    Lands m ((m.save m.state.state.onStack).go m.state.state.onStack (exitCode (.iret .home))) := by
  obtain ⟨model, good⟩ := stands.good
  obtain ⟨step, good1⟩ := good_exits good ordinary.1 (ordinary_running stands ordinary program)
  obtain ⟨stack, cur, -, -⟩ := reaper_add_stays m.state.state.onStack m.state.state
  obtain ⟨s', done, good'⟩ := good_scheduler good1
  have exiting : (m.state.ghost.move m.state.state.onStack .exiting).point m.state.state.onStack = .exiting := by
    rw [Ghost.move_at, if_pos rfl]
  have left := Step.exitSwitch _ s' { m.state.ghost.move m.state.state.onStack .exiting with parked := false }
    (by rw [cur, ← good.stack]; exact exiting) done
  obtain ⟨idle1, reaper1⟩ := good_places good1 good' (scheduler_same _)
  obtain ⟨-, -, idle0, reaper0⟩ := reaper_add_stays m.state.state.onStack m.state.state
  refine finish_switches _ (.stop (.iret .home)) [false, true]
    ⟨s', { m.state.ghost.move m.state.state.onStack .exiting with parked := false }⟩ _
    stands.around balanced (own_working stands s' _ .exiting (idle1.trans idle0) (reaper1.trans reaper0) (fun _ => id)
      rfl ordinary.1 (.inl rfl))
    good' (scheduler_fresh _) ((ReflTransGen.single step).tail left) (.inl exiting) ?_
  have called : finish m.state.state.onStack (exitCode (.iret .home)) (m.save m.state.state.onStack) =
      finish m.state.state.onStack (exitBody (.iret .home))
        ((m.save m.state.state.onStack).save m.state.state.onStack) := rfl
  rw [called]
  simp only [Machine.save, stands_saves stands, update_self, update_idem]
  rw [finish_exit m.state false [true] m.code _ _ _ (update_self _ _ _), if_neg Bool.false_ne_true,
    update_idem, ← good.stack]
  rw [finish_scheduler ⟨reaperAdd m.state.state.onStack m.state.state,
    { m.state.ghost.move m.state.state.onStack .exiting with parked := false }⟩
    false m.code (update m.saved m.state.state.onStack [true]) m.state.state.onStack none (.iret .home) s' stack
      (cur.trans good.stack.symm) done]
  simp only [moved, Option.elim, update_self, update_idem]

theorem unknown_trap_lands (stands : Stands m) (program : m.code m.state.state.onStack = .home)
    (balanced : Balanced kernel ((m.save m.state.state.onStack).go m.state.state.onStack (.iret .home))) :
    Lands m ((m.save m.state.state.onStack).go m.state.state.onStack (.iret .home)) := by
  obtain ⟨model, good⟩ := stands.good
  refine finish_lands _ .home m.state model stands.around balanced (own_same stands.around _ rfl rfl)
    rfl good .refl ?_ ?_
  · rw [← stands.code, program]
  · rw [Machine.save, stands_saves stands]
    simp only [finish, Machine.restore, update_self, Option.bind_some, update_idem]
    rfl

theorem forged_resumes (first : Body) (flags : List Bool) (forged : Forged first flags) :
    Resumes .home flags first := by
  cases forged with
  | thread => exact ⟨rfl, rfl⟩
  | process => exact ⟨true, [], rfl, .inl ⟨rfl, rfl, rfl⟩⟩

theorem create_lands (t : Nat) (thread : Thread) (first : Body) (flags : List Bool) (stands : Stands m)
    (new : t ∉ m.state.ghost.alive) (notIdle : t ≠ m.state.state.idleThread) (other : t ≠ m.state.state.onStack)
    (forged : Forged first flags) (program : m.code m.state.state.onStack = .home)
    (balanced : Balanced kernel
      ((m.save m.state.state.onStack).go m.state.state.onStack (createBody t thread first flags .home))) :
    Lands m ((m.save m.state.state.onStack).go m.state.state.onStack (createBody t thread first flags .home)) := by
  obtain ⟨model, good⟩ := stands.good
  have good' := good_fire (.ready t thread) ⟨_, _⟩ good (if_pos ⟨new, notIdle⟩)
  have ran : finish m.state.state.onStack (createBody t thread first flags .home) (m.save m.state.state.onStack) =
      some ⟨⟨threadReady t (m.state.state.install t thread), m.state.ghost.add t⟩, true,
        update (update m.code t first) m.state.state.onStack .home,
        update (update m.saved t flags) m.state.state.onStack []⟩ := by
    have called : finish m.state.state.onStack (createBody t thread first flags .home) (m.save m.state.state.onStack) =
        (Machine.restore
          ⟨⟨threadReady t (m.state.state.install t thread), m.state.ghost.add t⟩, false, update m.code t first,
          update (m.save m.state.state.onStack).saved t flags⟩ m.state.state.onStack).bind
          (fun m' => if m'.flag then some (m'.go m.state.state.onStack .home)
            else finish m.state.state.onStack .home m') := rfl
    rw [called]
    simp only [Machine.save, Machine.restore, update_of_ne (Ne.symm other), update_self,
      stands_saves stands, Option.bind_some, update_comm (Ne.symm other), update_idem]
    rfl
  refine ⟨_, finish_run _ _ _ _ rfl rfl (entered_fits _ stands.around balanced) ran, ?_,
    .single (.ready _ _ t thread new notIdle)⟩
  refine ⟨rfl, ⟨_, good'⟩, ⟨rfl, ?_, fun u alive notReaper => ?_, fun u known notHere => ?_⟩, ?_, ?_⟩
  · change (m.state.ghost.add t).point m.state.state.idleThread = .running
    rw [Ghost.add_at, if_neg (Ne.symm notIdle)]
    exact stands.around.idle
  · change ((m.state.ghost.add t).point u).reaping = false
    rw [Ghost.add_at]
    split
    · rfl
    · rename_i old
      exact stands.around.kind u ((List.mem_cons.mp alive).resolve_left old) notReaper
  · change (m.state.ghost.add t).point u = .exiting ∨ Resumes (codeAt ((m.state.ghost.add t).point u))
      (update (update m.saved t flags) m.state.state.onStack [] u)
        (update (update m.code t first) m.state.state.onStack .home u)
    have away : u ≠ m.state.state.onStack := notHere
    rw [Ghost.add_at, update_of_ne away, update_of_ne away]
    by_cases same : u = t
    · rw [if_pos same, same, update_self, update_self]
      exact .inr (forged_resumes first flags forged)
    · rw [if_neg same, update_of_ne same, update_of_ne same]
      exact stands.around.waits u (known.imp_left (fun member => (List.mem_cons.mp member).resolve_left same)) away
  · exact update_self _ _ _
  · change update (update m.code t first) m.state.state.onStack .home m.state.state.onStack =
      codeAt ((m.state.ghost.add t).point m.state.state.onStack)
    rw [update_self, Ghost.add_at, if_neg (Ne.symm other), ← stands.code, program]

theorem reap_lands (stands : Stands m) (isReaper : m.state.state.onStack = m.state.state.reaper)
    (program : m.code m.state.state.onStack = .home)
    (balanced : Balanced kernel ((m.save m.state.state.onStack).go m.state.state.onStack reaperBody)) :
    Lands m ((m.save m.state.state.onStack).go m.state.state.onStack reaperBody) := by
  obtain ⟨model, good⟩ := stands.good
  have check : m.state.ghost.point m.state.state.reaper = .check := by
    rw [← isReaper]
    refine (home_point stands program).resolve_left (fun running => ?_)
    have places := good.inv.reaperPoint
    rw [← good.sim.reaper, ← isReaper, running] at places
    simp at places
  have notIdle := working_not_idle stands (by simp [isReaper, check])
  cases head : m.state.state.zombieQue.head with
  | some zombie =>
      have step := Step.reaperFound m.state.state m.state.ghost (good.stack ▸ isReaper) check (by simp [head])
      have good' := good_fire .found ⟨_, _⟩ good (if_pos ⟨good.stack ▸ isReaper, check, by simp [head]⟩)
      rw [← isReaper] at step good'
      refine finish_lands _ popCode ⟨m.state.state, m.state.ghost.move m.state.state.onStack .pop⟩ _
        stands.around balanced (own_working stands _ _ .pop rfl rfl (fun _ => id) rfl notIdle (.inr isReaper)) rfl good'
        (.single step) ?_ ?_
      · rw [Ghost.move_at, if_pos rfl]
        rfl
      · rw [Machine.save, stands_saves stands]
        simp only [reaperBody, finish, head, Option.isSome_some, if_true, Option.bind_some, Machine.restore,
          update_self, update_idem, ← isReaper]
        rfl
  | none =>
      have step := Step.reaperPark m.state.state m.state.ghost (good.stack ▸ isReaper) check head
      have good' := good_fire .park ⟨_, _⟩ good (if_pos ⟨good.stack ▸ isReaper, check, head⟩)
      rw [← isReaper] at step good'
      refine finish_lands _ (schedulerCode (some .check) .home)
        ⟨park m.state.state,
          { m.state.ghost.move m.state.state.onStack .parking with parked := true }⟩ _ stands.around balanced
        (own_working stands _ _ .parking rfl rfl (fun _ => id) rfl notIdle (.inr isReaper)) rfl good'
          (.single step) ?_ ?_
      · have place : (m.state.ghost.move m.state.state.onStack .parking).point m.state.state.onStack = .parking := by
          rw [Ghost.move_at, if_pos rfl]
        exact (congrArg codeAt place).symm
      · rw [Machine.save, stands_saves stands]
        simp only [reaperBody, finish, head, Option.isSome_none, Option.bind_some, Machine.restore, update_self,
          update_idem, ← isReaper]
        rfl

theorem pop_lands (entered : Machine Nat Config) (stands : Stands m)
    (point : m.state.ghost.point m.state.state.onStack = .pop)
    (done : exec m.state.state.onStack m popCode = some entered) : Lands m entered := by
  obtain ⟨model, good⟩ := stands.good
  have isReaper := reaping_reaper stands (by rw [point]; rfl)
  have notIdle := working_not_idle stands (by simp [point])
  have atPop : m.state.ghost.point m.state.state.reaper = .pop := isReaper ▸ point
  obtain ⟨t, s', popped, good'⟩ := good_pop good atPop
  have step := Step.reaperPop m.state.state s' m.state.ghost t (good.stack ▸ isReaper) atPop popped
  obtain ⟨sameIdle, sameReaper⟩ := good_places good good' ⟨rfl, rfl⟩
  have stack : s'.onStack = m.state.state.onStack := by
    rw [good'.stack, good.stack, good'.sim.cur, good.sim.cur]
    rfl
  simp only [popCode, exec, popNext, popped, Option.map_some, Option.some.injEq] at done
  rw [sameReaper, ← isReaper] at done
  rw [← isReaper] at step good'
  rw [← done]
  refine act_lands _ _ _ stands ?_ stack good' (.single step) ?_
  · exact own_working stands s' _ (.destroy t) sameIdle sameReaper (fun _ => id) rfl notIdle (.inr isReaper)
  · rw [Ghost.move_at, if_pos rfl]
    rfl

theorem destroy_lands (t : Nat) (entered : Machine Nat Config) (stands : Stands m)
    (point : m.state.ghost.point m.state.state.onStack = .destroy t)
    (done : exec m.state.state.onStack m destroyCode = some entered) :
    Lands m entered := by
  obtain ⟨model, good⟩ := stands.good
  have isReaper := reaping_reaper stands (by rw [point]; rfl)
  have notIdle := working_not_idle stands (by simp [point])
  have atDestroy : m.state.ghost.point m.state.state.reaper = .destroy t := isReaper ▸ point
  have step := Step.reaperDestroy m.state.state m.state.ghost t (good.stack ▸ isReaper) atDestroy
  have fired :
      fire .destroy m.state = some ⟨m.state.state, (m.state.ghost.remove t).move m.state.state.reaper .check⟩ := by
    simp only [fire, atDestroy, if_pos (good.stack ▸ isReaper : m.state.state.curThread = m.state.state.reaper)]
  have good' := good_fire .destroy _ good fired
  simp only [destroyCode, exec, destroyPopped, atDestroy, Option.map_some, Option.some.injEq] at done
  rw [← isReaper] at step good' done
  rw [← done]
  refine act_lands _ _ _ stands ?_ rfl good' (.single step) ?_
  · exact own_working stands _ _ .check rfl rfl (fun u alive => List.mem_of_mem_filter alive) rfl
      notIdle (.inr isReaper)
  · rw [Ghost.move_at, if_pos rfl]
    rfl

theorem step_lands (entered : Machine Nat Config) (stands : Stands m) (balanced : Balanced kernel entered)
    (done : exec m.state.state.onStack m (m.code m.state.state.onStack) = some entered) : Lands m entered := by
  rw [stands.code] at done
  cases point : m.state.ghost.point m.state.state.onStack with
  | running | check =>
      rw [point] at done
      cases done
  | drowsy =>
      rw [point] at done
      cases done
      exact sleep_section_lands stands point balanced
  | asleep =>
      rw [point] at done
      cases done
      exact sleep_switch_lands stands point balanced
  | exiting =>
      rw [point] at done
      cases done
      exact yield_lands stands (.inr point) balanced
  | pop =>
      rw [point] at done
      exact pop_lands entered stands point done
  | destroy t =>
      rw [point] at done
      exact destroy_lands t entered stands point done
  | parking =>
      rw [point] at done
      cases done
      exact reaper_switch_lands stands point balanced

theorem moves_land (entered : Machine Nat Config) (stands : Stands m) (balanced : Balanced kernel m)
    (moves : Moves kernel m entered) :
    Lands m entered := by
  have entered' := moves_balanced kernel_lawful m entered balanced moves
  cases moves with
  | step _ done => exact step_lands entered stands entered' done
  | interrupt handler enabled known =>
      cases known
      exact timer_lands stands entered'
  | trap handler program allowed =>
      change m.code m.state.state.onStack = .home at program
      have same :
          kernel.enter handler m = (m.save m.state.state.onStack).go m.state.state.onStack (handler (.iret .home)) := by
        rw [← program]
        rfl
      rw [same] at entered' ⊢
      cases allowed with
      | sleep time ordinary => exact sleep_trap_lands time stands ordinary program entered'
      | exit ordinary => exact exit_trap_lands stands ordinary program entered'
      | unknown ordinary => exact unknown_trap_lands stands program entered'
  | call _ code program allowed done =>
      cases allowed with
      | sleep time ordinary =>
          cases done
          exact sleep_call_lands time stands ordinary program
      | exit ordinary =>
          cases done
          exact exit_call_lands stands ordinary program entered'
      | yield ordinary =>
          cases done
          exact yield_lands stands (.inl (ordinary_running stands ordinary program)) entered'
      | create t thread first flags ordinary new other forged =>
          cases done
          exact create_lands t thread first flags stands new other.1 other.2 forged program entered'
      | reap isReaper =>
          cases done
          exact reap_lands stands isReaper program entered'

end Entries

end X86OS.Sched
