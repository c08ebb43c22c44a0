import Mathlib.Logic.Function.Basic
import Mathlib.Logic.Relation

set_option autoImplicit false

namespace X86OS.Sections

open Function Relation

-- What a thread has left to run. `start` saves the interrupt flag and clears it, `stop` restores what was saved;
-- `iret` does so at the end of a handler. At `home` the thread is in its own program. `switch` leaves the processor to
-- another thread and returns when this one has it again.
inductive Code (ι S : Type) where
  | home
  | act (f : S → Option S) (next : Code ι S)
  | test (p : S → Bool) (yes no : Code ι S)
  | start (next : Code ι S)
  | stop (next : Code ι S)
  | sti (next : Code ι S)
  | iret (next : Code ι S)
  | spawn (t : ι) (first : Code ι S) (flags : List Bool) (next : Code ι S)
  | switch (f : S → Option S) (next : Code ι S)

-- One processor with its interrupt flag, and for each thread its code and the flags saved on its stack.
structure Machine (ι S : Type) where
  state : S
  flag : Bool
  code : ι → Code ι S
  saved : ι → List Bool

-- `cur` is whose stack the processor is on. A handler is given as a function of what follows it.
structure Kernel (ι S : Type) where
  cur : S → ι
  interrupt : (Code ι S → Code ι S) → Prop
  trap : S → (Code ι S → Code ι S) → Prop
  call : S → Code ι S → Prop

section Steps

variable {ι S : Type} [DecidableEq ι]

def Machine.go (m : Machine ι S) (t : ι) (code : Code ι S) : Machine ι S := { m with code := update m.code t code }

def Machine.save (m : Machine ι S) (t : ι) : Machine ι S :=
  { m with flag := false, saved := update m.saved t (m.flag :: m.saved t) }

def Machine.restore (m : Machine ι S) (t : ι) : Option (Machine ι S) :=
  match m.saved t with
  | [] => none
  | flag :: rest => some { m with flag := flag, saved := update m.saved t rest }

def Machine.forge (m : Machine ι S) (t : ι) (first : Code ι S) (flags : List Bool) : Machine ι S :=
  { m with code := update m.code t first, saved := update m.saved t flags }

-- The next instruction of thread `t`.
def exec (t : ι) (m : Machine ι S) : Code ι S → Option (Machine ι S)
  | .home => none
  | .act f next | .switch f next => (f m.state).map (fun s => { m.go t next with state := s })
  | .test p yes no => some (m.go t (if p m.state then yes else no))
  | .start next => some ((m.save t).go t next)
  | .stop next | .iret next => (m.restore t).map (·.go t next)
  | .sti next => some { m.go t next with flag := true }
  | .spawn u first flags next => some ((m.forge u first flags).go t next)

variable (K : Kernel ι S)

def Kernel.step (m : Machine ι S) : Option (Machine ι S) := exec (K.cur m.state) m (m.code (K.cur m.state))

def Kernel.enter (handler : Code ι S → Code ι S) (m : Machine ι S) : Machine ι S :=
  (m.save (K.cur m.state)).go (K.cur m.state) (handler (.iret (m.code (K.cur m.state))))

-- An interrupt comes between any two instructions while the flag is on. A call runs up to its first instruction.
inductive Moves : Machine ι S → Machine ι S → Prop
  | step (m m' : Machine ι S) (done : K.step m = some m') : Moves m m'
  | interrupt (m : Machine ι S) (handler : Code ι S → Code ι S) (enabled : m.flag = true)
      (known : K.interrupt handler) :
      Moves m (K.enter handler m)
  | trap (m : Machine ι S) (handler : Code ι S → Code ι S) (program : m.code (K.cur m.state) = .home)
      (allowed : K.trap m.state handler) : Moves m (K.enter handler m)
  | call (m m' : Machine ι S) (code : Code ι S) (program : m.code (K.cur m.state) = .home)
      (allowed : K.call m.state code) (done : exec (K.cur m.state) m code = some m') : Moves m m'

-- The code of `t` fits the flag and the flags saved: it switches with interrupts off, restores whatever was saved and
-- leaves its program with interrupts on.
def Fits (cur : S → ι) (t : ι) (flag : Bool) (saved : List Bool) : Code ι S → Prop
  | .home => flag = true ∧ saved = []
  | .act f next => (∀ s s', f s = some s' → cur s' = cur s) ∧ Fits cur t flag saved next
  | .test _ yes no => Fits cur t flag saved yes ∧ Fits cur t flag saved no
  | .start next => Fits cur t false (flag :: saved) next
  | .stop next | .iret next => flag = false ∧ ∃ before rest, saved = before :: rest ∧ Fits cur t before rest next
  | .sti next => Fits cur t true saved next
  | .spawn u first flags next => u ≠ t ∧ Fits cur u false flags first ∧ Fits cur t flag saved next
  | .switch _ next => flag = false ∧ Fits cur t false saved next

-- A thread that waits was switched away from with interrupts off.
structure Balanced (m : Machine ι S) : Prop where
  now : Fits K.cur (K.cur m.state) m.flag (m.saved (K.cur m.state)) (m.code (K.cur m.state))
  waiting : ∀ t, t ≠ K.cur m.state → Fits K.cur t false (m.saved t) (m.code t)

structure Kernel.Lawful : Prop where
  interrupt : ∀ handler, K.interrupt handler → ∀ t saved next, Fits K.cur t true saved next →
    Fits K.cur t false (true :: saved) (handler (.iret next))
  trap : ∀ s handler, K.trap s handler → Fits K.cur (K.cur s) false [true] (handler (.iret .home))
  call : ∀ s code, K.call s code → Fits K.cur (K.cur s) true [] code

variable {K}

theorem exec_balanced (t : ι) (m m' : Machine ι S) (code : Code ι S) (here : K.cur m.state = t)
    (now : Fits K.cur t m.flag (m.saved t) code) (waiting : ∀ u, u ≠ t → Fits K.cur u false (m.saved u) (m.code u))
    (done : exec t m code = some m') : Balanced K m' := by
  -- Only the code of `t` changes, and `t` keeps the processor.
  have stays (s : S) (flag : Bool) (saved : List Bool) (next : Code ι S) (same : K.cur s = t)
      (fits : Fits K.cur t flag saved next) :
      Balanced K ⟨s, flag, update m.code t next, update m.saved t saved⟩ := by
    refine ⟨?_, fun u other => ?_⟩
    · simpa only [same, update_self] using fits
    · rw [same] at other
      simpa only [update_of_ne other] using waiting u other
  cases code with
  | home => cases done
  | act f next =>
      obtain ⟨s, result, rfl⟩ := Option.map_eq_some_iff.mp done
      have same := stays s m.flag (m.saved t) next ((now.1 _ _ result).trans here) now.2
      rwa [update_eq_self] at same
  | test p yes no =>
      cases done
      have same :=
        stays m.state m.flag (m.saved t) (if p m.state then yes else no) here (by split; exacts [now.1, now.2])
      rwa [update_eq_self] at same
  | start next =>
      cases done
      exact stays m.state false _ next here now
  | stop next =>
      obtain ⟨-, flag, rest, top, fits⟩ := now
      simp only [exec, Machine.restore, top, Option.map_some, Option.some.injEq] at done
      exact done ▸ stays m.state flag rest next here fits
  | sti next =>
      cases done
      have same := stays m.state true (m.saved t) next here now
      rwa [update_eq_self] at same
  | iret next =>
      obtain ⟨-, flag, rest, top, fits⟩ := now
      simp only [exec, Machine.restore, top, Option.map_some, Option.some.injEq] at done
      exact done ▸ stays m.state flag rest next here fits
  | spawn u first flags next =>
      cases done
      obtain ⟨other, fitsFirst, fitsNext⟩ := now
      refine ⟨?_, fun v notHere => ?_⟩
      · simp only [Machine.go, Machine.forge, here, update_self, update_of_ne (Ne.symm other)]
        exact fitsNext
      · simp only [Machine.go, Machine.forge, here] at notHere ⊢
        rw [update_of_ne notHere]
        by_cases new : v = u
        · simpa only [new, update_self] using fitsFirst
        · simpa only [update_of_ne new] using waiting v notHere
  | switch f next =>
      obtain ⟨s, result, rfl⟩ := Option.map_eq_some_iff.mp done
      obtain ⟨off, fits⟩ := now
      -- Whoever has the processor now was waiting, this thread from here on.
      have all (u : ι) : Fits K.cur u false (m.saved u) (update m.code t next u) := by
        by_cases same : u = t
        · rw [same, update_self]
          exact fits
        · rw [update_of_ne same]
          exact waiting u same
      refine ⟨?_, fun u _ => all u⟩
      change Fits K.cur (K.cur s) m.flag (m.saved (K.cur s)) (update m.code t next (K.cur s))
      rw [off]
      exact all _

theorem enter_balanced (handler : Code ι S → Code ι S) (m : Machine ι S) (balanced : Balanced K m)
    (fits : Fits K.cur (K.cur m.state) false (m.flag :: m.saved (K.cur m.state))
      (handler (.iret (m.code (K.cur m.state))))) :
    Balanced K (K.enter handler m) := by
  refine ⟨?_, fun t other => ?_⟩
  · simpa only [Kernel.enter, Machine.go, Machine.save, update_self] using fits
  · have notHere : t ≠ K.cur m.state := other
    simpa only [Kernel.enter, Machine.go, Machine.save, update_of_ne notHere] using balanced.waiting t notHere

omit [DecidableEq ι] in
theorem home_fits (m : Machine ι S) (balanced : Balanced K m) (program : m.code (K.cur m.state) = .home) :
    m.flag = true ∧ m.saved (K.cur m.state) = [] := by
  have now := balanced.now
  rw [program] at now
  exact now

theorem moves_balanced (lawful : K.Lawful) (m m' : Machine ι S) (balanced : Balanced K m) (moves : Moves K m m') :
    Balanced K m' := by
  cases moves with
  | step _ done => exact exec_balanced _ m m' _ rfl balanced.now balanced.waiting done
  | interrupt handler enabled known =>
      have now := balanced.now
      rw [enabled] at now
      have fits := lawful.interrupt handler known _ _ _ now
      rw [← enabled] at fits
      exact enter_balanced handler m balanced fits
  | trap handler program allowed =>
      obtain ⟨enabled, empty⟩ := home_fits m balanced program
      refine enter_balanced handler m balanced ?_
      rw [enabled, empty, program]
      exact lawful.trap _ handler allowed
  | call _ code program allowed done =>
      obtain ⟨enabled, empty⟩ := home_fits m balanced program
      refine exec_balanced _ m m' code rfl ?_ balanced.waiting done
      rw [enabled, empty]
      exact lawful.call _ code allowed

theorem run_balanced (lawful : K.Lawful) (m m' : Machine ι S) (balanced : Balanced K m)
    (run : ReflTransGen (Moves K) m m') :
    Balanced K m' := by
  induction run with
  | refl => exact balanced
  | tail _ moves ih => exact moves_balanced lawful _ _ ih moves

end Steps

section Stretches

variable {ι S : Type} [DecidableEq ι] (K : Kernel ι S)

-- With interrupts off only the thread itself moves.
def Locked (m m' : Machine ι S) : Prop := m.flag = false ∧ K.step m = some m'

-- From one point with interrupts on to the next.
def Stretch (m m' : Machine ι S) : Prop :=
  m'.flag = true ∧ ∃ entered, Moves K m entered ∧ ReflTransGen (Locked K) entered m'

variable {K}

theorem locked_unique : Relator.RightUnique (Locked K) := by
  intro m a b first second
  exact Option.some.inj (first.2.symm.trans second.2)

theorem locked_on (m m' : Machine ι S) (enabled : m.flag = true) (run : ReflTransGen (Locked K) m m') : m' = m := by
  rcases run.cases_head with same | ⟨next, ⟨off, -⟩, -⟩
  · exact same.symm
  · rw [enabled] at off
    cases off

theorem locked_end (m a b : Machine ι S) (first : ReflTransGen (Locked K) m a) (second : ReflTransGen (Locked K) m b)
    (enabled : a.flag = true) : ReflTransGen (Locked K) b a := by
  rcases ReflTransGen.total_of_right_unique locked_unique first second with run | run
  · rw [locked_on a b enabled run]
  · exact run

theorem moves_locked (m m' : Machine ι S) (balanced : Balanced K m) (off : m.flag = false) (moves : Moves K m m') :
    Locked K m m' := by
  cases moves with
  | step _ done => exact ⟨off, done⟩
  | interrupt _ enabled _ =>
      rw [enabled] at off
      cases off
  | trap _ program _ =>
      rw [(home_fits m balanced program).1] at off
      cases off
  | call _ _ program _ _ =>
      rw [(home_fits m balanced program).1] at off
      cases off

-- A run is a sequence of whole stretches and the beginning of one more.
theorem run_stretches (lawful : K.Lawful) (m m' : Machine ι S) (balanced : Balanced K m) (enabled : m.flag = true)
    (run : ReflTransGen (Moves K) m m') : ∃ c, ReflTransGen (Stretch K) m c ∧ c.flag = true ∧
      (m' = c ∨ m'.flag = false ∧ ∃ entered, Moves K c entered ∧ ReflTransGen (Locked K) entered m') := by
  induction run with
  | refl => exact ⟨m, .refl, enabled, .inl rfl⟩
  | @tail b d prefixRun moves ih =>
      obtain ⟨c, stretches, enabledC, place⟩ := ih
      -- The move is the entry of a stretch or one more locked step of it.
      have inside : ∃ entered, Moves K c entered ∧ ReflTransGen (Locked K) entered d := by
        rcases place with rfl | ⟨off, entered, first, locked⟩
        · exact ⟨d, moves, .refl⟩
        · exact ⟨entered, first, locked.tail (moves_locked b d (run_balanced lawful m b balanced prefixRun) off moves)⟩
      cases flag : d.flag with
      | false => exact ⟨c, stretches, enabledC, .inr ⟨rfl, inside⟩⟩
      | true => exact ⟨d, stretches.tail ⟨flag, inside⟩, flag, .inl rfl⟩

-- The rest of a locked stretch in one go, up to a switch or to the point where the flag comes on.
def finish (t : ι) : Code ι S → Machine ι S → Option (Machine ι S)
  | .home, _ => none
  | .act f next, m => (f m.state).bind (fun s => finish t next { m with state := s })
  | .test p yes no, m => if p m.state then finish t yes m else finish t no m
  | .start next, m => finish t next (m.save t)
  | .stop next, m | .iret next, m =>
      (m.restore t).bind (fun m' => if m'.flag then some (m'.go t next) else finish t next m')
  | .sti next, m => some { m.go t next with flag := true }
  | .spawn u first flags next, m => finish t next (m.forge u first flags)
  | .switch f next, m => (f m.state).map (fun s => { m.go t next with state := s })

theorem go_again (m : Machine ι S) (t : ι) (code next : Code ι S) : (m.go t code).go t next = m.go t next := by
  simp only [Machine.go, update_idem]

theorem forge_go (m : Machine ι S) (t u : ι) (code next first : Code ι S) (flags : List Bool) (other : u ≠ t) :
    ((m.go t code).forge u first flags).go t next = (m.forge u first flags).go t next := by
  simp only [Machine.go, Machine.forge, update_comm other, update_idem]

theorem locked_step (m m' : Machine ι S) (t : ι) (code : Code ι S) (here : K.cur m.state = t) (off : m.flag = false)
    (done : exec t (m.go t code) code = some m') : Locked K (m.go t code) m' := by
  refine ⟨off, ?_⟩
  have next : (m.go t code).code (K.cur (m.go t code).state) = code := by
    simp only [Machine.go, here, update_self]
  rw [Kernel.step, next]
  exact here.symm ▸ done

theorem restored_run (t : ι) (code next : Code ι S) (m m' : Machine ι S) (here : K.cur m.state = t)
    (off : m.flag = false) (flag : Bool) (rest : List Bool) (top : m.saved t = flag :: rest)
    (pops : ∀ m, exec t m code = (m.restore t).map (·.go t next)) (fits : Fits K.cur t flag rest next)
    (later : ∀ m, K.cur m.state = t → m.flag = false → Fits K.cur t false (m.saved t) next → finish t next m = some m' →
      ReflTransGen (Locked K) (m.go t next) m')
    (done : (m.restore t).bind (fun m' => if m'.flag then some (m'.go t next) else finish t next m') = some m') :
    ReflTransGen (Locked K) (m.go t code) m' := by
  have first : Locked K (m.go t code) ({ m with flag := flag, saved := update m.saved t rest }.go t next) := by
    refine locked_step m _ t _ here off ?_
    simp only [pops, Machine.restore, Machine.go, top, Option.map_some, update_idem]
  simp only [Machine.restore, top, Option.bind_some] at done
  cases flag with
  | true =>
      cases done
      exact .single first
  | false =>
      refine .head first (later _ here rfl ?_ done)
      simpa only [update_self] using fits

theorem finish_run (t : ι) (code : Code ι S) (m m' : Machine ι S) (here : K.cur m.state = t) (off : m.flag = false)
    (fits : Fits K.cur t false (m.saved t) code) (done : finish t code m = some m') :
    ReflTransGen (Locked K) (m.go t code) m' := by
  induction code generalizing m with
  | home => cases done
  | act f next ih =>
      obtain ⟨s, result, rest⟩ := Option.bind_eq_some_iff.mp done
      have first : Locked K (m.go t (.act f next)) ({ m with state := s }.go t next) :=
        locked_step m _ t _ here off (by simp only [exec, Machine.go, result, Option.map_some, update_idem])
      exact .head first (ih _ ((fits.1 _ _ result).trans here) off fits.2 rest)
  | test p yes no ihYes ihNo =>
      have first : Locked K (m.go t (.test p yes no)) (m.go t (if p m.state then yes else no)) :=
        locked_step m _ t _ here off (congrArg some (go_again m t _ _))
      rw [finish] at done
      split at done
      · rename_i holds
        rw [if_pos holds] at first
        exact .head first (ihYes _ here off fits.1 done)
      · rename_i fails
        rw [if_neg fails] at first
        exact .head first (ihNo _ here off fits.2 done)
  | start next ih =>
      have first : Locked K (m.go t (.start next)) ((m.save t).go t next) :=
        locked_step m _ t _ here off (by simp only [exec, Machine.go, Machine.save, update_idem])
      refine .head first (ih _ here rfl ?_ done)
      have saved : (m.save t).saved t = false :: m.saved t := by rw [← off]; exact update_self _ _ _
      rw [saved]
      exact fits
  | stop next ih =>
      obtain ⟨-, flag, rest, top, fitsNext⟩ := fits
      exact restored_run t _ next m m' here off flag rest top (fun _ => rfl) fitsNext ih done
  | sti next =>
      cases done
      exact .single (locked_step m _ t _ here off (by simp only [exec, Machine.go, update_idem]))
  | iret next ih =>
      obtain ⟨-, flag, rest, top, fitsNext⟩ := fits
      exact restored_run t _ next m m' here off flag rest top (fun _ => rfl) fitsNext ih done
  | spawn u first flags next ihFirst ihNext =>
      obtain ⟨other, -, fitsNext⟩ := fits
      have made : Locked K (m.go t (.spawn u first flags next)) ((m.forge u first flags).go t next) :=
        locked_step m _ t _ here off (congrArg some (forge_go m t u _ next first flags other))
      refine .head made (ihNext (m.forge u first flags) here off ?_ done)
      have saved : (m.forge u first flags).saved t = m.saved t := update_of_ne (Ne.symm other) _ _
      rw [saved]
      exact fitsNext
  | switch f next =>
      obtain ⟨s, result, rfl⟩ := Option.map_eq_some_iff.mp done
      exact .single
        (locked_step m _ t _ here off (by simp only [exec, Machine.go, result, Option.map_some, update_idem]))

theorem locked_balanced (lawful : K.Lawful) (m m' : Machine ι S) (balanced : Balanced K m)
    (run : ReflTransGen (Locked K) m m') :
    Balanced K m' :=
  run_balanced lawful m m' balanced (run.lift id (fun _ _ locked => .step _ _ locked.2))

-- A thread that waits only has flags to restore before it is back at `target` with interrupts on.
def Resumes (target : Code ι S) (saved : List Bool) : Code ι S → Prop
  | .stop next | .iret next =>
      ∃ flag rest, saved = flag :: rest ∧
        (flag = true ∧ rest = [] ∧ next = target ∨ flag = false ∧ Resumes target rest next)
  | .sti next => saved = [] ∧ next = target
  | _ => False

theorem restored_resumes (t : ι) (target next : Code ι S) (m : Machine ι S) (flag : Bool) (rest : List Bool)
    (top : m.saved t = flag :: rest)
    (waits : flag = true ∧ rest = [] ∧ next = target ∨ flag = false ∧ Resumes target rest next)
    (later : ∀ m : Machine ι S, Resumes target (m.saved t) next →
      finish t next m = some ({ m with flag := true, saved := update m.saved t [] }.go t target)) :
    (m.restore t).bind (fun m' => if m'.flag then some (m'.go t next) else finish t next m') =
      some ({ m with flag := true, saved := update m.saved t [] }.go t target) := by
  simp only [Machine.restore, top, Option.bind_some]
  rcases waits with ⟨rfl, rfl, rfl⟩ | ⟨rfl, resumes⟩
  · rfl
  · have back :=
      later { m with flag := false, saved := update m.saved t rest } (by simpa only [update_self] using resumes)
    rw [update_idem] at back
    exact back

theorem resumes_finish (t : ι) (target code : Code ι S) (m : Machine ι S) (resumes : Resumes target (m.saved t) code) :
    finish t code m = some ({ m with flag := true, saved := update m.saved t [] }.go t target) := by
  induction code generalizing m with
  | home | act | test | start | spawn | switch => cases resumes
  | stop next ih =>
      obtain ⟨flag, rest, top, waits⟩ := resumes
      exact restored_resumes t target next m flag rest top waits ih
  | iret next ih =>
      obtain ⟨flag, rest, top, waits⟩ := resumes
      exact restored_resumes t target next m flag rest top waits ih
  | sti next =>
      obtain ⟨empty, rfl⟩ := resumes
      rw [← empty, update_eq_self]
      rfl

theorem resumes_run (target : Code ι S) (m : Machine ι S) (balanced : Balanced K m) (off : m.flag = false)
    (resumes : Resumes target (m.saved (K.cur m.state)) (m.code (K.cur m.state))) :
    ReflTransGen (Locked K) m
      ({ m with flag := true, saved := update m.saved (K.cur m.state) [] }.go (K.cur m.state) target) := by
  have now := balanced.now
  rw [off] at now
  have run := finish_run _ _ m _ rfl off now (resumes_finish _ target _ m resumes)
  rwa [Machine.go, update_eq_self] at run

end Stretches

end X86OS.Sections
