import X86OS.Lib.Micro
import X86OS.Sched.Queue
import Mathlib.Logic.Relation

set_option autoImplicit false

namespace X86OS.Zombies

open Sched Relation

-- The words of `zombie_que` and of the nodes.
inductive Word where
  | head
  | tail
  | size
  | next (node : Nat)
  | prev (node : Nat)

def Word.Value : Word → Type
  | head => Option Nat
  | tail => Option Nat
  | size => Nat
  | next _ => Option Nat
  | prev _ => Option Nat

structure Memory where
  list : DLList
  nodes : Nodes

def load (m : Memory) : (w : Word) → w.Value
  | .head => m.list.head
  | .tail => m.list.tail
  | .size => m.list.size
  | .next node => m.nodes.next node
  | .prev node => m.nodes.prev node

def store (m : Memory) : (w : Word) → w.Value → Memory
  | .head, v => { m with list := { m.list with head := v } }
  | .tail, v => { m with list := { m.list with tail := v } }
  | .size, v => { m with list := { m.list with size := v } }
  | .next node, v => { m with nodes := m.nodes.setNext node v }
  | .prev node, v => { m with nodes := m.nodes.setPrev node v }

def words : Cells Memory Word Word.Value := ⟨load, store⟩

abbrev Code (α : Type) := Micro Word Word.Value α

-- `list->tail = node; list->size++;`
def pushEnd (node : Nat) : Code Unit :=
  .store .tail (some node) (.load .size (fun size : Nat => .store .size (size + 1) (.done ())))

-- `list_push_back`, one access after the other.
def pushBack (node : Nat) : Code Unit :=
  .store (.next node) none (.load .tail (fun tail : Option Nat =>
    .store (.prev node) tail (.load .tail (fun tail : Option Nat =>
    match tail with
    | some _ => .load .tail (fun tail : Option Nat =>
        match tail with
        | some last => .store (.next last) (some node) (pushEnd node)
        | none => .fail "NULL dereference")
    | none => .store .head (some node) (pushEnd node)))))

-- `list->head = node->next; node->next = NULL; list->size--; return node;`
def popEnd (node : Nat) : Code Nat :=
  .load (.next node) (fun next : Option Nat => .store .head next (.store (.next node) none
    (.load .size (fun size : Nat => .store .size (size - 1) (.done node)))))

-- `list_pop_front`, one access after the other.
def popFront : Code Nat :=
  .load .head (fun head : Option Nat =>
    match head with
    | none => .fail "Underflow\n"
    | some _ => .load .head (fun node : Option Nat =>
        match node with
        | none => .fail "NULL dereference"
        | some node => .load .head (fun head : Option Nat => .load .tail (fun tail : Option Nat =>
            if head ≠ tail then
              .load (.next node) (fun next : Option Nat =>
                match next with
                | none => .fail "NULL dereference"
                | some next => .store (.prev next) none (popEnd node))
            else .store .tail none (popEnd node)))))

theorem push_back_run (node : Nat) (m : Memory) :
    (pushBack node).run words m =
      .ok ((), ⟨(listPushBack m.list node m.nodes).1, (listPushBack m.list node m.nodes).2⟩) := by
  obtain ⟨⟨head, tail, size⟩, n⟩ := m
  cases tail with
  | none => rfl
  | some last => rfl

theorem pop_front_run (m : Memory) :
    popFront.run words m = (listPopFront m.list m.nodes).map (fun r => (r.1, ⟨r.2.1, r.2.2⟩)) := by
  obtain ⟨⟨head, tail, size⟩, n⟩ := m
  cases head with
  | none => rfl
  | some node =>
      -- The three reads of `head` and the read of `tail` give what the comparison needs.
      change Micro.run words (if some node ≠ tail then
          .load (.next node) (fun next : Option Nat =>
            match next with
            | none => .fail "NULL dereference"
            | some next => .store (.prev next) none (popEnd node))
        else .store .tail none (popEnd node)) ⟨⟨some node, tail, size⟩, n⟩ = _
      by_cases single : some node ≠ tail
      · simp only [listPopFront, if_pos single]
        change Micro.run words (match n.next node with
          | none => .fail "NULL dereference"
          | some next => .store (.prev next) none (popEnd node)) ⟨⟨some node, tail, size⟩, n⟩ = _
        cases n.next node with
        | none => rfl
        | some next => rfl
      · simp only [listPopFront, if_neg single]
        rfl

-- `reaper_main` is at its check of the queue or inside `list_pop_front`.
inductive Reaper where
  | check
  | popping (code : Code Nat)

-- `adding` is the thread inside `reaper_add`, where interrupts are off; `called` and
-- `destroyed` record who went into `reaper_add` and who was handed to `destroy_thread`.
structure System where
  mem : Memory
  reaper : Reaper
  adding : Option (Nat × Code Unit)
  called : List Nat
  destroyed : List Nat

inductive Action where
  | check
  | reap
  | enter (t : Nat)
  | add

-- The reaper runs with interrupts on, so a tick may let a thread into `reaper_add` before
-- any of its accesses. Nothing comes between the accesses of that thread.
def act : Action → System → Option System
  | .check, ⟨mem, .check, none, called, destroyed⟩ =>
      if mem.list.head.isSome then some ⟨mem, .popping popFront, none, called, destroyed⟩ else none
  | .reap, ⟨mem, .popping (.done t), none, called, destroyed⟩ => some ⟨mem, .check, none, called, t :: destroyed⟩
  | .reap, ⟨mem, .popping code, none, called, destroyed⟩ =>
      (code.step words mem).map (fun next => ⟨next.2, .popping next.1, none, called, destroyed⟩)
  | .enter t, ⟨mem, reaper, none, called, destroyed⟩ =>
      if t ∈ called then none else some ⟨mem, reaper, some (t, pushBack t), t :: called, destroyed⟩
  | .add, ⟨mem, reaper, some (_, .done _), called, destroyed⟩ => some ⟨mem, reaper, none, called, destroyed⟩
  | .add, ⟨mem, reaper, some (t, code), called, destroyed⟩ =>
      (code.step words mem).map (fun next => ⟨next.2, reaper, some (t, next.1), called, destroyed⟩)
  | _, _ => none

def Step (c c' : System) : Prop := ∃ action, act action c = some c'

-- No thread goes into `reaper_add` while the reaper is inside `list_pop_front`.
def Polite (c c' : System) : Prop := Step c c' ∧ (c.adding = none → c'.adding ≠ none → c.reaper = .check)

def start (nodes : Nodes) : System := ⟨⟨emptyList, nodes⟩, .check, none, [], []⟩

-- The queue, or the queue that the operation under way will leave, holds `nodes`; the reaper
-- has `popped` in its hands.
def Pending (c : System) (nodes popped : List Nat) : Prop :=
  match c.adding, c.reaper with
  | none, .check => popped = [] ∧ IsQueue c.mem.nodes c.mem.list nodes
  | some (_, code), .check =>
      popped = [] ∧ ∃ mem, code.run words c.mem = .ok ((), mem) ∧ IsQueue mem.nodes mem.list nodes
  | none, .popping code =>
      ∃ t mem, popped = [t] ∧ code.run words c.mem = .ok (t, mem) ∧ IsQueue mem.nodes mem.list nodes
  | some _, .popping _ => False

structure Accounted (c : System) (nodes popped : List Nat) : Prop where
  once : c.called.Nodup
  all : c.called.Perm (nodes ++ popped ++ c.destroyed)
  pending : Pending c nodes popped

theorem accounted_check (mem : Memory) (called destroyed nodes popped : List Nat) (head : mem.list.head.isSome = true)
    (held : Accounted ⟨mem, .check, none, called, destroyed⟩ nodes popped) :
    ∃ nodes' popped', Accounted ⟨mem, .popping popFront, none, called, destroyed⟩ nodes' popped' := by
  obtain ⟨once, all, rfl, queue⟩ := held
  cases nodes with
  | nil =>
      have empty : mem.list.head = none := queue.head
      simp [empty] at head
  | cons t rest =>
      obtain ⟨list, n, done, popped, -⟩ := pop_front_spec t queue
      refine ⟨rest, [t], once, all.trans ?_, t, ⟨list, n⟩, rfl, ?_, popped⟩
      · have moved : (rest ++ t :: destroyed).Perm (t :: (rest ++ destroyed)) := List.perm_middle
        simpa using moved.symm
      · rw [pop_front_run, done]
        rfl

theorem accounted_reap (mem : Memory) (code : Code Nat) (called destroyed nodes popped : List Nat) (c' : System)
    (held : Accounted ⟨mem, .popping code, none, called, destroyed⟩ nodes popped)
    (moved : act .reap ⟨mem, .popping code, none, called, destroyed⟩ = some c') :
    ∃ popped', Accounted c' nodes popped' := by
  obtain ⟨once, all, t, mem', rfl, rest, queue⟩ := held
  by_cases finished : ∃ x, code = .done x
  · obtain ⟨x, rfl⟩ := finished
    cases rest
    cases moved
    refine ⟨[], once, all.trans ?_, rfl, queue⟩
    simp
  · have access : (code.step words mem).map
        (fun next => (⟨next.2, .popping next.1, none, called, destroyed⟩ : System)) = some c' := by
      cases code with
      | done x => exact absurd ⟨x, rfl⟩ finished
      | fail message => exact moved
      | load l next => exact moved
      | store l value next => exact moved
    obtain ⟨⟨code', mem''⟩, done, rfl⟩ := Option.map_eq_some_iff.mp access
    exact ⟨[t], once, all, t, mem', rfl, (Micro.step_run words code code' mem mem'' done).trans rest, queue⟩

theorem accounted_enter (mem : Memory) (called destroyed nodes popped : List Nat) (t : Nat) (new : t ∉ called)
    (held : Accounted ⟨mem, .check, none, called, destroyed⟩ nodes popped) :
    Accounted ⟨mem, .check, some (t, pushBack t), t :: called, destroyed⟩ (nodes ++ [t]) [] := by
  obtain ⟨once, all, rfl, queue⟩ := held
  have fresh : t ∉ nodes := fun member => new (all.mem_iff.mpr (by simp [member]))
  have pushed := push_back_spec queue t fresh
  refine ⟨List.nodup_cons.mpr ⟨new, once⟩, ?_, rfl, _, push_back_run t mem, pushed.1⟩
  have moved : (nodes ++ t :: destroyed).Perm (t :: (nodes ++ destroyed)) := List.perm_middle
  have grown : (t :: called).Perm (t :: (nodes ++ destroyed)) := List.Perm.cons t (by simpa using all)
  simpa using grown.trans moved.symm

theorem accounted_add (mem : Memory) (t : Nat) (code : Code Unit) (called destroyed nodes popped : List Nat)
    (c' : System) (held : Accounted ⟨mem, .check, some (t, code), called, destroyed⟩ nodes popped)
    (moved : act .add ⟨mem, .check, some (t, code), called, destroyed⟩ = some c') : Accounted c' nodes popped := by
  obtain ⟨once, all, rfl, mem', rest, queue⟩ := held
  by_cases finished : ∃ x, code = .done x
  · obtain ⟨x, rfl⟩ := finished
    cases rest
    cases moved
    exact ⟨once, all, rfl, queue⟩
  · have access : (code.step words mem).map
        (fun next => (⟨next.2, .check, some (t, next.1), called, destroyed⟩ : System)) = some c' := by
      cases code with
      | done x => exact absurd ⟨x, rfl⟩ finished
      | fail message => exact moved
      | load l next => exact moved
      | store l value next => exact moved
    obtain ⟨⟨code', mem''⟩, done, rfl⟩ := Option.map_eq_some_iff.mp access
    exact ⟨once, all, rfl, mem', (Micro.step_run words code code' mem mem'' done).trans rest, queue⟩

theorem polite_step (c c' : System) (nodes popped : List Nat) (held : Accounted c nodes popped) (step : Polite c c') :
    ∃ nodes' popped', Accounted c' nodes' popped' := by
  obtain ⟨⟨action, moved⟩, polite⟩ := step
  obtain ⟨mem, reaper, adding, called, destroyed⟩ := c
  cases adding with
  | none =>
      cases reaper with
      | check =>
          cases action with
          | check =>
              simp only [act] at moved
              split at moved
              · next head =>
                  cases moved
                  exact accounted_check mem called destroyed nodes popped head held
              · cases moved
          | reap => cases moved
          | enter t =>
              simp only [act] at moved
              split at moved
              · cases moved
              · next new =>
                  cases moved
                  exact ⟨_, _, accounted_enter mem called destroyed nodes popped t new held⟩
          | add => cases moved
      | popping code =>
          cases action with
          | check => cases moved
          | reap => exact ⟨nodes, accounted_reap mem code called destroyed nodes popped c' held moved⟩
          | enter t =>
              simp only [act] at moved
              split at moved
              · cases moved
              · cases moved
                cases polite rfl (by simp)
          | add => cases moved
  | some adding =>
      obtain ⟨t, code⟩ := adding
      cases reaper with
      | check =>
          cases action with
          | add => exact ⟨nodes, popped, accounted_add mem t code called destroyed nodes popped c' held moved⟩
          | check => cases moved
          | reap => cases moved
          | enter x => cases moved
      | popping code' => exact absurd held.pending id

theorem polite_run (c c' : System) (nodes popped : List Nat) (held : Accounted c nodes popped)
    (run : ReflTransGen Polite c c') :
    ∃ nodes' popped', Accounted c' nodes' popped' := by
  induction run with
  | refl => exact ⟨nodes, popped, held⟩
  | tail _ step ih =>
      obtain ⟨nodes', popped', held'⟩ := ih
      exact polite_step _ _ nodes' popped' held' step

-- No list operation is half done.
def Quiet (c : System) : Prop := c.adding = none ∧ c.reaper = .check

-- The queue is well formed, and everybody who called `reaper_add` is in it or was destroyed once.
def Intact (c : System) : Prop :=
  ∃ nodes, IsQueue c.mem.nodes c.mem.list nodes ∧ (c.mem.list.head = none ↔ c.mem.list.tail = none) ∧
    c.mem.list.size = nodes.length ∧
    ∀ t ∈ c.called, (t ∈ nodes ∧ c.destroyed.count t = 0) ∨ (t ∉ nodes ∧ c.destroyed.count t = 1)

theorem start_accounted (n : Nodes) : Accounted (start n) [] [] := ⟨List.nodup_nil, .refl _, rfl, empty_queue n⟩

theorem accounted_intact (c : System) (nodes popped : List Nat) (held : Accounted c nodes popped)
    (quiet : Quiet c) : Intact c := by
  obtain ⟨once, all, pending⟩ := held
  rw [Pending, quiet.1, quiet.2] at pending
  obtain ⟨rfl, queue⟩ := pending
  rw [List.append_nil] at all
  have parts := List.nodup_append.mp (all.nodup_iff.mp once)
  refine ⟨nodes, queue, ?_, queue.size, ?_⟩
  · rw [queue.head, queue.tail, List.head?_eq_none_iff, List.getLast?_eq_none_iff]
  · intro t member
    rcases List.mem_append.mp (all.mem_iff.mp member) with linked | gone
    · exact .inl ⟨linked, List.count_eq_zero.mpr (fun gone => parts.2.2 t linked t gone rfl)⟩
    · exact .inr ⟨fun linked => parts.2.2 t linked t gone rfl, List.count_eq_one_of_mem parts.2.1 gone⟩

-- The zombie queue survives every run in which `list_pop_front` is not overtaken.
theorem zombies_kept (n : Nodes) (c : System) (run : ReflTransGen Polite (start n) c) (quiet : Quiet c) : Intact c := by
  obtain ⟨nodes, popped, held⟩ := polite_run _ c [] [] (start_accounted n) run
  exact accounted_intact c nodes popped held quiet

def runActions : List Action → System → Option System
  | [], c => some c
  | action :: rest, c => (act action c).bind (runActions rest)

theorem run_actions_steps (actions : List Action) (c c' : System) (done : runActions actions c = some c') :
    ReflTransGen Step c c' := by
  induction actions generalizing c with
  | nil =>
      cases done
      exact .refl
  | cons action rest ih =>
      obtain ⟨middle, moved, later⟩ := Option.bind_eq_some_iff.mp done
      exact .head ⟨action, moved⟩ (ih middle later)

def blankNodes : Nodes := ⟨fun _ => none, fun _ => none⟩

def atCheck (c : System) : Bool := c.reaper matches .check

theorem at_check (c : System) (here : atCheck c = true) : c.reaper = .check := by
  rw [atCheck] at here
  split at here
  · assumption
  · cases here

-- As `runActions`, but a thread that would go into `reaper_add` during a pop ends the run.
def runPolite : List Action → System → Option System
  | [], c => some c
  | action :: rest, c =>
      (act action c).bind (fun c' => if c.adding = none → c'.adding = none ∨ atCheck c then runPolite rest c' else none)

theorem run_polite_steps (actions : List Action) (c c' : System) (done : runPolite actions c = some c') :
    ReflTransGen Polite c c' := by
  induction actions generalizing c with
  | nil =>
      cases done
      exact .refl
  | cons action rest ih =>
      obtain ⟨middle, moved, later⟩ := Option.bind_eq_some_iff.mp done
      obtain ⟨polite, later⟩ := Option.ite_none_right_eq_some.mp later
      refine .head ⟨⟨action, moved⟩, fun idle busy => at_check c ?_⟩ (ih middle later)
      exact (polite idle).resolve_left busy

-- Two zombies are queued, the reaper takes the first, and a third one comes.
def politeRun : List Action :=
  .enter 1 :: List.replicate 9 .add ++ .enter 2 :: List.replicate 10 .add ++ .check :: List.replicate 12 .reap ++
    .enter 3 :: List.replicate 10 .add

theorem zombies_kept_three :
    ∃ c, ReflTransGen Polite (start blankNodes) c ∧ c.called = [3, 2, 1] ∧ c.destroyed = [1] ∧ Intact c := by
  have finished :
      (runPolite politeRun (start blankNodes)).map (fun c => (c.adding.isNone, atCheck c, c.called, c.destroyed)) =
      some (true, true, [3, 2, 1], [1]) := by decide +kernel
  obtain ⟨c, done, facts⟩ := Option.map_eq_some_iff.mp finished
  simp only [Prod.mk.injEq] at facts
  obtain ⟨idle, check, called, destroyed⟩ := facts
  have run := run_polite_steps politeRun _ c done
  exact ⟨c, run, called, destroyed, zombies_kept blankNodes c run ⟨by simpa using idle, at_check c check⟩⟩

-- One zombie is queued and the reaper has cleared `tail` when the second one arrives.
def overtaken : List Action :=
  .enter 1 :: List.replicate 9 .add ++ .check :: List.replicate 5 .reap ++
    .enter 2 :: List.replicate 9 .add ++ List.replicate 6 .reap

theorem zombies_lost :
    ∃ c, ReflTransGen Step (start blankNodes) c ∧ Quiet c ∧ c.mem.list.head = none ∧ c.mem.list.tail = some 2 ∧
    2 ∈ c.called ∧ c.destroyed = [1] ∧ ¬ Intact c := by
  have finished : (runActions overtaken (start blankNodes)).isSome = true := by decide
  obtain ⟨c, done⟩ := Option.isSome_iff_exists.mp finished
  have summary : (runActions overtaken (start blankNodes)).map (fun c =>
      (c.adding.isNone, c.mem.list.head, c.mem.list.tail, c.called, c.destroyed)) =
        some (true, none, some 2, [2, 1], [1]) := by decide
  have check : (runActions overtaken (start blankNodes)).map atCheck = some true := by decide
  rw [done] at summary check
  simp only [Option.map_some, Option.some.injEq, Prod.mk.injEq] at summary check
  obtain ⟨idle, head, tail, called, destroyed⟩ := summary
  refine ⟨c, run_actions_steps _ _ _ done, ⟨by simpa using idle, at_check c check⟩, head, tail,
    by simp [called], destroyed, ?_⟩
  rintro ⟨nodes, -, same, -⟩
  rw [head, tail] at same
  simp at same

end X86OS.Zombies
