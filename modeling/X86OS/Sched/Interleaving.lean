import X86OS.Sched.Stretches

set_option autoImplicit false

namespace X86OS.Sched

open Function Relation Sections

theorem stretch_stands (m m' : Machine Nat Config) (stands : Stands m) (balanced : Balanced kernel m)
    (stretch : Stretch kernel m m') :
    Stands m' ∧ ReflTransGen Step m.state m'.state := by
  obtain ⟨enabled, entered, moves, locked⟩ := stretch
  obtain ⟨landed, run, stands', steps⟩ := moves_land entered stands balanced moves
  rw [locked_on landed m' stands'.flag (locked_end entered m' landed locked run enabled)]
  exact ⟨stands', steps⟩

theorem stretch_balanced (m m' : Machine Nat Config) (balanced : Balanced kernel m) (stretch : Stretch kernel m m') :
    Balanced kernel m' := by
  obtain ⟨-, entered, moves, locked⟩ := stretch
  exact locked_balanced kernel_lawful entered m' (moves_balanced kernel_lawful m entered balanced moves) locked

theorem stretches_stand (m m' : Machine Nat Config) (stands : Stands m) (balanced : Balanced kernel m)
    (run : ReflTransGen (Stretch kernel) m m') :
    Stands m' ∧ Balanced kernel m' ∧ ReflTransGen Step m.state m'.state := by
  induction run with
  | refl => exact ⟨stands, balanced, .refl⟩
  | tail _ stretch ih =>
      obtain ⟨standsHere, balancedHere, steps⟩ := ih
      obtain ⟨stands', more⟩ := stretch_stands _ _ standsHere balancedHere stretch
      exact ⟨stands', stretch_balanced _ _ balancedHere stretch, steps.trans more⟩

theorem run_lands (m m' : Machine Nat Config) (stands : Stands m) (balanced : Balanced kernel m)
    (run : ReflTransGen (Moves kernel) m m') :
    ∃ landed, ReflTransGen (Locked kernel) m' landed ∧ Stands landed ∧ ReflTransGen Step m.state landed.state := by
  obtain ⟨c, stretches, -, place⟩ := run_stretches kernel_lawful m m' balanced stands.flag run
  obtain ⟨standsHere, balancedHere, steps⟩ := stretches_stand m c stands balanced stretches
  rcases place with rfl | ⟨-, entered, moves, locked⟩
  · exact ⟨m', .refl, standsHere, steps⟩
  · obtain ⟨landed, all, standsLanded, more⟩ := moves_land entered standsHere balancedHere moves
    exact ⟨landed, locked_end entered landed m' all locked standsLanded.flag, standsLanded, steps.trans more⟩

-- What a move changes in the scheduler's memory while interrupts are on.
def Open (m m' : Machine Nat Config) : Prop :=
  m'.state.state.que = m.state.state.que ∧ m'.state.state.sleepQue = m.state.state.sleepQue ∧
  (∀ t, (m'.state.state.thread t).status = (m.state.state.thread t).status) ∧
  (m'.state.state.zombieQue = m.state.state.zombieQue ∧ m'.state.state.nodes = m.state.state.nodes ∨
    m.state.state.onStack = m.state.state.reaper ∧ m.code m.state.state.onStack = popCode)

theorem same_open (m m' : Machine Nat Config) (same : m'.state.state = m.state.state) : Open m m' := by
  rw [Open, same]
  exact ⟨rfl, rfl, fun _ => rfl, .inl ⟨rfl, rfl⟩⟩

theorem step_open (m m' : Machine Nat Config) (stands : Stands m)
    (done : exec m.state.state.onStack m (m.code m.state.state.onStack) = some m') : Open m m' := by
  have code := stands.code
  rw [code] at done
  cases point : m.state.ghost.point m.state.state.onStack with
  | running | check =>
      rw [point] at done
      cases done
  | drowsy | asleep | exiting | parking =>
      rw [point] at done
      cases done
      exact same_open m _ rfl
  | pop =>
      rw [point] at done code
      obtain ⟨c', popped, rfl⟩ := Option.map_eq_some_iff.mp done
      rw [popNext] at popped
      split at popped
      · cases popped
      · rename_i result
        cases popped
        rw [popZombie] at result
        split at result
        · cases result
        · cases result
          exact ⟨rfl, rfl, fun _ => rfl, .inr ⟨reaping_reaper stands (by rw [point]; rfl), code⟩⟩
  | destroy t =>
      rw [point] at done
      obtain ⟨c', destroyed, rfl⟩ := Option.map_eq_some_iff.mp done
      rw [destroyPopped] at destroyed
      split at destroyed
      · cases destroyed
        exact same_open m _ rfl
      · cases destroyed

theorem moves_open (m m' : Machine Nat Config) (stands : Stands m) (moves : Moves kernel m m') : Open m m' := by
  cases moves with
  | step _ done => exact step_open m m' stands done
  | interrupt => exact same_open m _ rfl
  | trap => exact same_open m _ rfl
  | call _ code program allowed done =>
      cases allowed with
      | sleep time ordinary =>
          cases done
          refine ⟨rfl, rfl, fun t => ?_, .inl ⟨rfl, rfl⟩⟩
          by_cases same : t = m.state.state.curThread
          · simp only [sleepUntil, State.modify, same, update_self]
          · simp only [sleepUntil, State.modify, update_of_ne same]
      | exit | yield | create | reap =>
          cases done
          exact same_open m _ rfl

section Boot

variable (main reaper rate kernelPd : Nat) (thread : Thread) (s : State) (process : Nat) (record : Thread)

-- Where `kmain` leaves the machine: past `sti`, with the reaper and the first process ready.
def bootMachine : Machine Nat Config where
  state :=
    ⟨threadReady process ((boot main reaper rate kernelPd thread s).state.install process record),
      (boot main reaper rate kernelPd thread s).ghost.add process⟩
  flag := true
  code t := if t = main then .home else if t = process then .iret .home else .sti .home
  saved t := if t = process then [true] else []

variable {main reaper process}

theorem boot_step (notMain : process ≠ main) (notReaper : process ≠ reaper) :
    Step (boot main reaper rate kernelPd thread s)
      (bootMachine main reaper rate kernelPd thread s process record).state :=
  .ready _ _ process record (by simpa [boot, bootGhost] using notReaper) notMain

theorem boot_balanced (notMain : process ≠ main) :
    Balanced kernel (bootMachine main reaper rate kernelPd thread s process record) := by
  refine ⟨?_, fun t other => ?_⟩
  · change Fits kernel.cur main true (if main = process then [true] else []) (if main = main then .home else _)
    rw [if_neg (Ne.symm notMain), if_pos rfl]
    exact ⟨rfl, rfl⟩
  · have away : t ≠ main := other
    simp only [bootMachine, if_neg away]
    split
    · exact ⟨rfl, true, [], rfl, rfl, rfl⟩
    · exact ⟨rfl, rfl⟩

theorem boot_stands (other : main ≠ reaper) (notMain : process ≠ main) (notReaper : process ≠ reaper) :
    Stands (bootMachine main reaper rate kernelPd thread s process record) := by
  obtain ⟨model, good⟩ := boot_good main reaper rate kernelPd thread s other
  have points (u : Nat) : (bootMachine main reaper rate kernelPd thread s process record).state.ghost.point u =
      if u = process then .running else if u = reaper then .check else .running := Ghost.add_at _ _ _
  refine ⟨rfl, ?_, ⟨rfl, ?_, fun u alive away => ?_, fun u known away => ?_⟩, ?_, ?_⟩
  · obtain ⟨model', good'⟩ := good_step _ good (boot_step rate kernelPd thread s record notMain notReaper)
    exact ⟨model', good'⟩
  · have idle : (bootMachine main reaper rate kernelPd thread s process record).state.state.idleThread = main := rfl
    rw [points, idle, if_neg (Ne.symm notMain), if_neg other]
  · have notReaper' : u ≠ reaper := away
    rw [points, if_neg notReaper', ite_self]
    rfl
  · have notMain' : u ≠ main := away
    refine .inr ?_
    rw [points]
    simp only [bootMachine, if_neg notMain']
    by_cases same : u = process
    · simp only [if_pos same]
      exact ⟨true, [], rfl, .inl ⟨rfl, rfl, rfl⟩⟩
    · simp only [if_neg same]
      split
      · exact ⟨rfl, rfl⟩
      · exact ⟨rfl, rfl⟩
  · exact if_neg (Ne.symm notMain)
  · have here : (bootMachine main reaper rate kernelPd thread s process record).state.state.onStack = main := rfl
    rw [points, here, if_neg (Ne.symm notMain), if_neg other]
    exact if_pos rfl

-- However interrupts fall between the statements of the kernel, the sections behave as single
-- steps: from any point of a
-- run the code at hand gets, undisturbed, to a point with interrupts on, in a state that whole sections lead to.
theorem sections_atomic (other : main ≠ reaper) (notMain : process ≠ main) (notReaper : process ≠ reaper)
    (m : Machine Nat Config)
    (run : ReflTransGen (Moves kernel) (bootMachine main reaper rate kernelPd thread s process record) m) :
    ∃ m', ReflTransGen (Locked kernel) m m' ∧ m'.flag = true ∧
      ReflTransGen Step (boot main reaper rate kernelPd thread s) m'.state := by
  obtain ⟨m', locked, stands, steps⟩ :=
    run_lands _ m (boot_stands rate kernelPd thread s record other notMain notReaper)
    (boot_balanced rate kernelPd thread s record notMain) run
  exact ⟨m', locked, stands.flag, .head (boot_step rate kernelPd thread s record notMain notReaper) steps⟩

end Boot

def smallMachine : Machine Nat Config := bootMachine 1 2 1 0 blankThread blankState 3 blankThread

theorem sections_atomic_small : Moves kernel smallMachine (kernel.enter timerCode smallMachine) ∧
    (kernel.enter timerCode smallMachine).flag = false ∧
    ∃ m', ReflTransGen (Locked kernel) (kernel.enter timerCode smallMachine) m' ∧ m'.flag = true ∧
      ReflTransGen Step smallBoot m'.state :=
  ⟨.interrupt _ timerCode rfl rfl, rfl,
    sections_atomic 1 0 blankThread blankState blankThread (by decide) (by decide) (by decide) _
    (.single (.interrupt _ timerCode rfl rfl))⟩

-- With interrupts on, no instruction changes the run queue, the sleep queue or a status, and only the reaper's pop
-- changes the zombie queue.
theorem queues_locked (main reaper rate kernelPd : Nat) (thread : Thread) (s : State) (process : Nat) (record : Thread)
    (other : main ≠ reaper) (notMain : process ≠ main) (notReaper : process ≠ reaper) (m m' : Machine Nat Config)
    (run : ReflTransGen (Moves kernel) (bootMachine main reaper rate kernelPd thread s process record) m)
    (enabled : m.flag = true) (moves : Moves kernel m m') :
    m'.state.state.que = m.state.state.que ∧ m'.state.state.sleepQue = m.state.state.sleepQue ∧
    (∀ t, (m'.state.state.thread t).status = (m.state.state.thread t).status) ∧
    (m'.state.state.zombieQue = m.state.state.zombieQue ∧ m'.state.state.nodes = m.state.state.nodes ∨
      m.state.state.onStack = m.state.state.reaper ∧ m.code m.state.state.onStack = popCode) := by
  obtain ⟨landed, locked, stands, -⟩ :=
    run_lands _ m (boot_stands rate kernelPd thread s record other notMain notReaper)
    (boot_balanced rate kernelPd thread s record notMain) run
  rw [locked_on m landed enabled locked] at stands
  exact moves_open m m' stands moves

-- One move of a run that is written down.
inductive Play where
  | step
  | tick
  | reap
  | exit

def atHome (m : Machine Nat Config) : Bool := m.code (kernel.cur m.state) matches .home

def play (m : Machine Nat Config) : Play → Option (Machine Nat Config)
  | .step => kernel.step m
  | .tick => if m.flag = true then some (kernel.enter timerCode m) else none
  | .reap =>
      if atHome m = true ∧ m.state.state.onStack = m.state.state.reaper then
        exec (kernel.cur m.state) m reaperCode
      else none
  | .exit =>
      if atHome m = true ∧ m.state.state.onStack ≠ m.state.state.idleThread ∧
        m.state.state.onStack ≠ m.state.state.reaper then
        exec (kernel.cur m.state) m (exitCode .home)
      else none

theorem at_home (m : Machine Nat Config) (home : atHome m = true) : m.code (kernel.cur m.state) = .home := by
  rw [atHome] at home
  split at home
  · assumption
  · cases home

theorem play_moves (m m' : Machine Nat Config) (p : Play) (done : play m p = some m') : Moves kernel m m' := by
  cases p with
  | step => exact .step m m' done
  | tick =>
      obtain ⟨enabled, same⟩ := Option.ite_none_right_eq_some.mp done
      cases same
      exact .interrupt m timerCode enabled rfl
  | reap =>
      obtain ⟨⟨home, isReaper⟩, same⟩ := Option.ite_none_right_eq_some.mp done
      exact .call m m' reaperCode (at_home m home) (.reap isReaper) same
  | exit =>
      obtain ⟨⟨home, ordinary⟩, same⟩ := Option.ite_none_right_eq_some.mp done
      exact .call m m' (exitCode .home) (at_home m home) (.exit ordinary) same

theorem plays_run (ps : List Play) (m m' : Machine Nat Config) (done : ps.foldlM play m = some m') :
    ReflTransGen (Moves kernel) m m' := by
  induction ps generalizing m with
  | nil =>
      cases done
      exact .refl
  | cons p ps ih =>
      obtain ⟨next, first, rest⟩ := Option.bind_eq_some_iff.mp done
      exact .head (play_moves m next p first) (ih next rest)

-- The timer brings the reaper, which parks, then the process, which exits, and the reaper again, up to its pop.
def smallPlay : List Play :=
  .tick :: List.replicate 10 .step ++ .reap :: List.replicate 11 .step ++ .exit :: List.replicate 16 .step ++
    .reap :: List.replicate 3 .step

theorem queues_locked_small : ∃ m m', ReflTransGen (Moves kernel) smallMachine m ∧ m.flag = true ∧ Moves kernel m m' ∧
    m.state.state.zombieQue.head = some 3 ∧ m'.state.state.zombieQue.head = none ∧
    m'.state.state.que = m.state.state.que ∧ m'.state.state.sleepQue = m.state.state.sleepQue := by
  have before : (smallPlay.foldlM play smallMachine).map (fun m => (m.flag, m.state.state.zombieQue.head)) =
      some (true, some 3) := by
    decide +kernel
  have after : ((smallPlay ++ [Play.step]).foldlM play smallMachine).map (fun m => m.state.state.zombieQue.head) =
      some none := by
    decide +kernel
  obtain ⟨m, done, facts⟩ := Option.map_eq_some_iff.mp before
  simp only [Prod.mk.injEq] at facts
  rw [List.foldlM_append, done] at after
  obtain ⟨m', popped, head⟩ := Option.map_eq_some_iff.mp after
  have run := plays_run smallPlay smallMachine m done
  have moves : Moves kernel m m' := by
    obtain ⟨next, first, same⟩ := Option.bind_eq_some_iff.mp (show (play m .step).bind some = some m' from popped)
    cases same
    exact play_moves m m' .step first
  obtain ⟨que, sleepQue, -, -⟩ :=
    queues_locked 1 2 1 0 blankThread blankState 3 blankThread (by decide) (by decide) (by decide) m m' run
    facts.1 moves
  exact ⟨m, m', run, facts.1, moves, facts.2, head, que, sleepQue⟩

end X86OS.Sched
