import X86OS.Sched.Events

set_option autoImplicit false

namespace X86OS.Sched

open Function

-- Any other content of the thread object at `t`. A call that gives the same result for every
-- content, the content kept, neither reads nor writes the object.
def Nodes.poke (n : Nodes) (t : Nat) (next prev : Option Nat) : Nodes := ⟨update n.next t next, update n.prev t prev⟩

def State.poke (s : State) (t : Nat) (thread : Thread) (next prev : Option Nat) : State :=
  { s with thread := update s.thread t thread, nodes := s.nodes.poke t next prev }

section Lists

variable {n : Nodes} {list : DLList} {t : Nat} (next prev : Option Nat)

theorem set_next_poke (x : Nat) (value : Option Nat) (other : x ≠ t) :
    (n.poke t next prev).setNext x value = (n.setNext x value).poke t next prev := by
  simp only [Nodes.setNext, Nodes.poke, Nodes.mk.injEq, and_true]
  exact update_comm (Ne.symm other) _ _ _

theorem set_prev_poke (x : Nat) (value : Option Nat) (other : x ≠ t) :
    (n.poke t next prev).setPrev x value = (n.setPrev x value).poke t next prev := by
  simp only [Nodes.setPrev, Nodes.poke, Nodes.mk.injEq, true_and]
  exact update_comm (Ne.symm other) _ _ _

theorem next_poke (x : Nat) (other : x ≠ t) : (n.poke t next prev).next x = n.next x := update_of_ne other _ _

theorem push_back_poke (node : Nat) (other : node ≠ t) (notTail : list.tail ≠ some t) :
    listPushBack list node (n.poke t next prev) =
      ((listPushBack list node n).1, (listPushBack list node n).2.poke t next prev) := by
  simp only [listPushBack, set_next_poke next prev node _ other, set_prev_poke next prev node _ other]
  cases tail : list.tail with
  | none => rfl
  | some last =>
      have notLast : last ≠ t := fun same => notTail (tail.trans (congrArg some same))
      simp only [set_next_poke next prev last _ notLast]

theorem pop_front_poke (nodes : List Nat) (queue : IsQueue n list nodes) (notMember : t ∉ nodes) :
    listPopFront list (n.poke t next prev) =
      (listPopFront list n).map (fun r => (r.1, r.2.1, r.2.2.poke t next prev)) := by
  cases nodes with
  | nil =>
      have head : list.head = none := queue.head
      simp [listPopFront, head, Except.map]
  | cons first rest =>
      have head : list.head = some first := queue.head
      have notFirst : first ≠ t := fun same => notMember (by simp [same])
      simp only [listPopFront, head, next_poke next prev first notFirst]
      by_cases single : some first ≠ list.tail
      · rw [if_pos single, if_pos single]
        cases following : n.next first with
        | none => rfl
        | some second =>
            have inRest : second ∈ rest := by
              have links := Dll.is_dll_links n.next n.prev [] rest first queue.dll
              exact List.mem_of_mem_head? (links.2.symm.trans following)
            have notSecond : second ≠ t := fun same => notMember (by simp [← same, inRest])
            simp only [set_prev_poke next prev second _ notSecond, set_next_poke next prev first _ notFirst,
              next_poke next prev first notFirst, Except.map]
      · rw [if_neg single, if_neg single]
        simp only [set_next_poke next prev first _ notFirst, Except.map]

end Lists

section Calls

variable {s : State} {m : Model} {t : Nat} (thread : Thread) (next prev : Option Nat)

theorem modify_poke (x : Nat) (change : Thread → Thread) (other : x ≠ t) :
    (s.poke t thread next prev).modify x change = (s.modify x change).poke t thread next prev := by
  simp only [State.modify, State.poke, update_of_ne other]
  rw [update_comm (Ne.symm other)]

theorem poke_thread (x : Nat) (other : x ≠ t) : (s.poke t thread next prev).thread x = s.thread x :=
  update_of_ne other _ _

theorem thread_ready_poke (sim : Sim s m) (x : Nat) (other : x ≠ t) (loose : m.Loose t) :
    threadReady x (s.poke t thread next prev) = (threadReady x s).poke t thread next prev := by
  have notTail : (s.setStatus x .runnable).que.tail ≠ some t := by
    intro isTail
    exact loose.1 (List.mem_of_getLast? (sim.que.tail.symm.trans isTail))
  have pushed := push_back_poke next prev x (n := s.nodes) other notTail
  simp only [threadReady, State.setStatus, modify_poke thread next prev x _ other]
  simp only [State.setQue]
  change { ((s.modify x _).poke t thread next prev) with
    que := (listPushBack s.que x (s.nodes.poke t next prev)).1, nodes :=
      (listPushBack s.que x (s.nodes.poke t next prev)).2 } = _
  rw [show listPushBack s.que x (s.nodes.poke t next prev) = _ from pushed]
  rfl

theorem wake_loop_poke (fuel : Nat) (sim : Sim s m) (loose : m.Loose t) :
    wakeLoop fuel (s.poke t thread next prev) = (wakeLoop fuel s).map (·.poke t thread next prev) := by
  induction fuel generalizing s m with
  | zero => rfl
  | succ fuel step =>
      have head : s.sleepQue.head = m.asleep.head? := sim.sleepQue.head
      have sameHead : (s.poke t thread next prev).sleepQue.head = s.sleepQue.head := rfl
      cases first : m.asleep with
      | nil =>
          rw [first] at head
          simp only [wakeLoop, sameHead, head, List.head?_nil]
          rfl
      | cons x rest =>
          rw [first] at head
          have other : x ≠ t := fun same => loose.2.1 (by simp [first, ← same])
          have sameTicks : (s.poke t thread next prev).ticks = s.ticks := rfl
          simp only [wakeLoop, sameHead, head, List.head?_cons, poke_thread thread next prev x other, sameTicks]
          by_cases due : (s.thread x).wakeAt ≤ s.ticks
          · obtain ⟨queue, popped, simRest⟩ := sim_pop_asleep sim x rest first
            have looseRest : ({ m with asleep := rest } : Model).Loose t :=
              ⟨loose.1, fun member => loose.2.1 (by simp [first, member]), loose.2.2⟩
            have loosePopped : ({ m with asleep := rest } : Model).Loose x := by
              have nodup := sim.sleepQue.dll.1
              rw [first, List.nodup_cons] at nodup
              exact ⟨fun ready => sim.readyAsleep x ready (by simp [first]), nodup.1,
                sim.asleepDead x (by simp [first])⟩
            have looseEnd : (Model.threadReady x { m with asleep := rest }).Loose t := by
              refine ⟨?_, looseRest.2.1, looseRest.2.2⟩
              simpa [Model.threadReady] using ⟨loose.1, Ne.symm other⟩
            have poked := pop_front_poke next prev m.asleep sim.sleepQue loose.2.1
            rw [popped, Except.map] at poked
            rw [if_pos due, if_pos due, popped,
              show listPopFront (s.poke t thread next prev).sleepQue (s.poke t thread next prev).nodes = _
              from poked]
            have queued : (s.poke t thread next prev).setSleepQue (queue.1, queue.2.poke t next prev) =
                (s.setSleepQue queue).poke t thread next prev := rfl
            simp only [queued, thread_ready_poke thread next prev simRest x other looseRest]
            exact step (sim_thread_ready simRest x loosePopped) looseEnd
          · rw [if_neg due, if_neg due]
            rfl

theorem requeue_poke (sim : Sim s m) (loose : m.Loose t) (notCur : m.cur ≠ t) :
    requeue (s.poke t thread next prev) = (requeue s).poke t thread next prev := by
  have notCurrent : s.curThread ≠ t := sim.cur ▸ notCur
  have sameCur : (s.poke t thread next prev).curThread = s.curThread := rfl
  rw [requeue, requeue, sameCur, poke_thread thread next prev _ notCurrent]
  by_cases running : (s.thread s.curThread).status = .running
  · rw [if_pos running, if_pos running, thread_ready_poke thread next prev sim _ notCurrent loose]
  · rw [if_neg running, if_neg running]

theorem context_switch_poke (before cur : Nat) (notPrev : before ≠ t) (notCur : cur ≠ t) :
    contextSwitch before cur (s.poke t thread next prev) = (contextSwitch before cur s).poke t thread next prev := by
  have sameEsp : (s.poke t thread next prev).esp = s.esp := rfl
  simp only [contextSwitch, modify_poke thread next prev before _ notPrev, sameEsp,
    poke_thread thread next prev cur notCur]
  rfl

theorem mark_running_poke (cur : Nat) (notCur : cur ≠ t) :
    markRunning cur (s.poke t thread next prev) = (markRunning cur s).poke t thread next prev := by
  have sameIdle : (s.poke t thread next prev).idleThread = s.idleThread := rfl
  rw [markRunning, markRunning, sameIdle]
  split
  · exact modify_poke thread next prev cur _ notCur
  · rfl

theorem switch_space_poke (before cur : Nat) (notPrev : before ≠ t) (notCur : cur ≠ t) :
    switchSpace before cur (s.poke t thread next prev) = (switchSpace before cur s).poke t thread next prev := by
  rw [switchSpace, switchSpace, poke_thread thread next prev cur notCur, poke_thread thread next prev before notPrev]
  split <;> rfl

theorem set_esp0_poke (cur : Nat) (notCur : cur ≠ t) :
    setEsp0 cur (s.poke t thread next prev) = (setEsp0 cur s).poke t thread next prev := by
  rw [setEsp0, poke_thread thread next prev cur notCur]
  rfl

theorem dispatch_poke (before : Nat) (following : Option Nat) (notPrev : before ≠ t)
    (notNext : following.getD s.idleThread ≠ t) :
    dispatch before following (s.poke t thread next prev) = (dispatch before following s).poke t thread next prev := by
  have sameIdle : (s.poke t thread next prev).idleThread = s.idleThread := rfl
  have chosen (cur : Nat) : (s.poke t thread next prev).setCur cur = (s.setCur cur).poke t thread next prev := rfl
  simp only [dispatch, sameIdle, chosen]
  rw [mark_running_poke thread next prev _ notNext, switch_space_poke thread next prev _ _ notPrev notNext,
    set_esp0_poke thread next prev _ notNext, context_switch_poke thread next prev _ _ notPrev notNext]

theorem get_next_poke (sim : Sim s m) (loose : m.Loose t) :
    getNextThread (s.poke t thread next prev) =
      (getNextThread s).map (fun r => (r.1, r.2.poke t thread next prev)) := by
  have sameHead : (s.poke t thread next prev).que.head = s.que.head := rfl
  have poked : listPopFront (s.poke t thread next prev).que (s.poke t thread next prev).nodes =
      (listPopFront s.que s.nodes).map (fun r => (r.1, r.2.1, r.2.2.poke t next prev)) :=
        pop_front_poke next prev m.ready sim.que loose.1
  rw [getNextThread, getNextThread, sameHead, poked]
  cases s.que.head with
  | none => rfl
  | some first =>
      cases listPopFront s.que s.nodes with
      | error e => rfl
      | ok result => rfl

theorem scheduler_poke (sim : Sim s m) (loose : m.Loose t) (notCur : m.cur ≠ t) (notIdle : m.idle ≠ t)
    (room : m.status m.cur = .running → m.Loose m.cur) :
    scheduler (s.poke t thread next prev) = (scheduler s).map (·.poke t thread next prev) := by
  have queued := sim_requeue sim room
  have looseQueued : m.requeue.Loose t := by
    rw [Model.requeue]
    split
    · refine ⟨?_, loose.2⟩
      simpa [Model.threadReady] using ⟨loose.1, Ne.symm notCur⟩
    · exact loose
  have sameFields : m.requeue.cur = m.cur ∧ m.requeue.idle = m.idle := by
    rw [Model.requeue]
    split <;> exact ⟨rfl, rfl⟩
  have head : (requeue s).que.head = m.requeue.ready.head? := queued.que.head
  have notPrev : (requeue s).curThread ≠ t := by rw [queued.cur, sameFields.1]; exact notCur
  have notIdle' : (requeue s).idleThread ≠ t := by rw [queued.idle, sameFields.2]; exact notIdle
  rw [scheduler, scheduler, requeue_poke thread next prev sim loose notCur,
    get_next_poke thread next prev queued looseQueued]
  cases first : m.requeue.ready with
  | nil =>
      rw [first] at head
      have chosen : getNextThread (requeue s) = .ok (none, requeue s) := by
        simp only [getNextThread, head, List.head?_nil]
      simp only [chosen, Except.map]
      exact congrArg Except.ok (dispatch_poke thread next prev _ none notPrev notIdle')
  | cons x rest =>
      rw [first] at head
      obtain ⟨queue, popped, simRest⟩ := sim_pop_ready queued x rest first
      have chosen : getNextThread (requeue s) = .ok (some x, (requeue s).setQue queue) := by
        simp only [getNextThread, head, List.head?_cons, popped]
      have notNext : x ≠ t := fun same => looseQueued.1 (by simp [first, ← same])
      simp only [chosen, Except.map]
      exact congrArg Except.ok (dispatch_poke thread next prev _ (some x) notPrev notNext)

theorem timer_poke (sim : Sim s m) (loose : m.Loose t) (notCur : m.cur ≠ t) (notIdle : m.idle ≠ t)
    (room : (m.tick s.tickRate).wakeUpThreads.status m.cur = .running → (m.tick s.tickRate).wakeUpThreads.Loose m.cur) :
    timer (s.poke t thread next prev) = (timer s).map (·.poke t thread next prev) := by
  have ticked := sim_tick sim
  obtain ⟨woken, done, simWoken⟩ := sim_wake_up_threads ticked
  have looseWoken : (m.tick s.tickRate).wakeUpThreads.Loose t := by
    refine ⟨?_, fun late => loose.2.1 ((List.dropWhile_sublist _).subset late), loose.2.2⟩
    intro member
    rcases List.mem_append.mp member with ready | early
    · exact loose.1 ready
    · exact loose.2.1 ((List.takeWhile_sublist _).subset early)
  have poked : wakeUpThreads (advance (s.poke t thread next prev)) =
      (wakeUpThreads (advance s)).map (·.poke t thread next prev) :=
    wake_loop_poke thread next prev (s.sleepQue.size + 1) ticked loose
  rw [timer, timer, poked, done]
  simp only [Except.map]
  exact scheduler_poke thread next prev simWoken looseWoken notCur notIdle room

end Calls

end X86OS.Sched
