import Mathlib.Data.List.TakeWhile
import X86OS.Lib.Dll

set_option autoImplicit false

namespace X86OS.Sched

open Dll Function

-- The `Node` at the start of every thread.
structure Nodes where
  next : Nat → Option Nat
  prev : Nat → Option Nat

namespace Nodes

def setNext (n : Nodes) (node : Nat) (value : Option Nat) : Nodes := { n with next := update n.next node value }

def setPrev (n : Nodes) (node : Nat) (value : Option Nat) : Nodes := { n with prev := update n.prev node value }

end Nodes

structure DLList where
  head : Option Nat
  tail : Option Nat
  size : Nat

def emptyList : DLList := ⟨none, none, 0⟩

def listPushBack (list : DLList) (node : Nat) (n : Nodes) : DLList × Nodes :=
  let n := n.setNext node none
  let n := n.setPrev node list.tail
  match list.tail with
  | some tail => ({ list with tail := some node, size := list.size + 1 }, n.setNext tail (some node))
  | none => (⟨some node, some node, list.size + 1⟩, n)

def listPopFront (list : DLList) (n : Nodes) : Except String (Nat × DLList × Nodes) :=
  match list.head with
  | none => .error "Underflow\n"
  | some node =>
      if list.head ≠ list.tail then
        match n.next node with
        | none => .error "NULL dereference"
        | some next =>
            let n := n.setPrev next none
            .ok (node, { list with head := n.next node, size := list.size - 1 }, n.setNext node none)
      else .ok (node, ⟨n.next node, none, list.size - 1⟩, n.setNext node none)

def listPushFront (list : DLList) (node : Nat) (n : Nodes) : DLList × Nodes :=
  let n := n.setPrev node none
  let n := n.setNext node list.head
  match list.head with
  | some head => ({ list with head := some node, size := list.size + 1 }, n.setPrev head (some node))
  | none => (⟨some node, some node, list.size + 1⟩, n)

-- `while (cur && cur->wake_at <= node->wake_at) cur = cur->next;` on a list of `fuel` nodes.
def skipEarlier (n : Nodes) (wakeAt : Nat → Nat) (limit : Nat) : Nat → Option Nat → Option Nat
  | 0, cur => cur
  | _ + 1, none => none
  | fuel + 1, some cur => if wakeAt cur ≤ limit then skipEarlier n wakeAt limit fuel (n.next cur) else some cur

def listSortedPush (wakeAt : Nat → Nat) (list : DLList) (node : Nat) (n : Nodes) : Except String (DLList × Nodes) :=
  match skipEarlier n wakeAt (wakeAt node) list.size list.head with
  | none => .ok (listPushBack list node n)
  | some cur =>
      if some cur = list.head then .ok (listPushFront list node n)
      else
        match n.prev cur with
        | none => .error "NULL dereference"
        | some before =>
            let n := n.setPrev node (some before)
            let n := n.setNext node (some cur)
            let n := n.setNext before (some node)
            .ok ({ list with size := list.size + 1 }, n.setPrev cur (some node))

-- The list at `list` holds exactly `nodes`, in this order.
structure IsQueue (n : Nodes) (list : DLList) (nodes : List Nat) : Prop where
  dll : IsDll n.next n.prev nodes
  head : list.head = nodes.head?
  tail : list.tail = nodes.getLast?
  size : list.size = nodes.length

-- A node outside the two named places keeps its links.
def SameLinks (n n' : Nodes) (x : Nat) : Prop := n'.next x = n.next x ∧ n'.prev x = n.prev x

theorem queue_congr (n n' : Nodes) (list : DLList) (nodes : List Nat) (queue : IsQueue n list nodes)
    (same : ∀ x ∈ nodes, SameLinks n n' x) : IsQueue n' list nodes :=
  ⟨is_dll_congr _ _ _ _ _ queue.dll same, queue.head, queue.tail, queue.size⟩

theorem empty_queue (n : Nodes) : IsQueue n emptyList [] := ⟨is_dll_nil _ _, rfl, rfl, rfl⟩

section Specs

variable {n : Nodes} {list : DLList} {nodes : List Nat}

theorem push_back_spec (queue : IsQueue n list nodes) (node : Nat) (fresh : node ∉ nodes) :
    IsQueue (listPushBack list node n).2 (listPushBack list node n).1 (nodes ++ [node]) ∧
      ∀ x, x ∉ nodes → x ≠ node → SameLinks n (listPushBack list node n).2 x := by
  rcases List.eq_nil_or_concat nodes with rfl | ⟨front, last, rfl⟩
  · have noTail : list.tail = none := queue.tail
    simp only [listPushBack, noTail]
    refine ⟨⟨?_, rfl, rfl, by simp [queue.size]⟩, ?_⟩
    · apply is_dll_insert n.next n.prev _ _ [] [] node queue.dll fresh <;> simp [Nodes.setNext, Nodes.setPrev]
    · intro x _ other
      simp [SameLinks, Nodes.setNext, Nodes.setPrev, other]
  · rw [List.concat_eq_append] at *
    have tail : list.tail = some last := by simpa using queue.tail
    have nodup := queue.dll.1
    simp only [List.mem_append, List.mem_singleton, not_or] at fresh
    simp only [listPushBack, tail]
    refine ⟨⟨?_, ?_, ?_, by simp [queue.size]⟩, ?_⟩
    · apply is_dll_insert n.next n.prev _ _ (front ++ [last]) [] node (by simpa using queue.dll) (by simpa using fresh)
      · simp [Nodes.setNext, Nodes.setPrev, fresh.2]
      · simp [Nodes.setNext, Nodes.setPrev]
      · intro y member
        have other : y ≠ node := by
          rintro rfl
          simp at member
          tauto
        by_cases isLast : y = last
        · subst isLast
          simp [Nodes.setNext, Nodes.setPrev]
        · simp [Nodes.setNext, Nodes.setPrev, isLast, other, Ne.symm isLast]
      · intro y member
        have other : y ≠ node := by
          rintro rfl
          simp at member
          tauto
        simp [Nodes.setNext, Nodes.setPrev, other]
      · simp
      · simp
    · rw [queue.head]
      simp [List.head?_append]
    · simp
    · intro x outside other
      simp only [List.mem_append, List.mem_singleton, not_or] at outside
      simp [SameLinks, Nodes.setNext, Nodes.setPrev, other, outside.2]

theorem pop_front_spec (node : Nat) (queue : IsQueue n list (node :: nodes)) :
    ∃ list' n', listPopFront list n = .ok (node, list', n') ∧ IsQueue n' list' nodes ∧ ∀ x, x ∉ node :: nodes →
      SameLinks n n' x := by
  have head : list.head = some node := queue.head
  have links := is_dll_links n.next n.prev [] nodes node queue.dll
  cases nodes with
  | nil =>
      have tail : list.tail = some node := queue.tail
      have next : n.next node = none := links.2
      refine ⟨⟨none, none, list.size - 1⟩, n.setNext node none, ?_,
        ⟨is_dll_nil _ _, rfl, rfl, by simp [queue.size]⟩, ?_⟩
      · simp [listPopFront, head, tail, next]
      · intro x outside
        simp only [List.mem_singleton] at outside
        simp [SameLinks, Nodes.setNext, outside]
  | cons second rest =>
      have next : n.next node = some second := links.2
      have nodup := queue.dll.1
      simp only [List.nodup_cons, List.mem_cons, not_or] at nodup
      have differs : list.head ≠ list.tail := by
        rw [head, queue.tail]
        intro same
        have member : node ∈ second :: rest := by
          have last : (node :: second :: rest).getLast? = some node := same.symm
          rw [List.getLast?_cons_cons] at last
          exact List.mem_of_getLast? last
        simp only [List.mem_cons] at member
        tauto
      refine ⟨⟨some second, list.tail, list.size - 1⟩, (n.setPrev second none).setNext node none, ?_,
        ⟨?_, rfl, ?_, by simp [queue.size]⟩, ?_⟩
      · simp only [listPopFront, head]
        rw [if_pos (by rw [← head]; exact differs), next]
        simp [Nodes.setPrev, next]
      · apply is_dll_remove n.next n.prev _ _ [] (second :: rest) node queue.dll
        · simp
        · simp
        · intro y member
          have other : y ≠ node := by
            rintro rfl
            simp only [List.mem_cons] at member
            tauto
          simp [Nodes.setNext, Nodes.setPrev, other]
        · intro y member
          by_cases first : y = second
          · simp [Nodes.setNext, Nodes.setPrev, first]
          · simp [Nodes.setNext, Nodes.setPrev, first, Ne.symm first]
      · rw [queue.tail, List.getLast?_cons_cons]
      · intro x outside
        simp only [List.mem_cons, not_or] at outside
        simp [SameLinks, Nodes.setNext, Nodes.setPrev, outside.1, outside.2.1]

theorem push_front_spec (queue : IsQueue n list nodes) (node : Nat) (fresh : node ∉ nodes) :
    IsQueue (listPushFront list node n).2 (listPushFront list node n).1 (node :: nodes) ∧
      ∀ x, x ∉ nodes → x ≠ node → SameLinks n (listPushFront list node n).2 x := by
  cases nodes with
  | nil =>
      have noHead : list.head = none := queue.head
      simp only [listPushFront, noHead]
      refine ⟨⟨?_, rfl, rfl, by simp [queue.size]⟩, ?_⟩
      · apply is_dll_insert n.next n.prev _ _ [] [] node queue.dll fresh <;> simp [Nodes.setNext, Nodes.setPrev]
      · intro x _ other
        simp [SameLinks, Nodes.setNext, Nodes.setPrev, other]
  | cons first rest =>
      have head : list.head = some first := queue.head
      simp only [List.mem_cons, not_or] at fresh
      simp only [listPushFront, head]
      refine ⟨⟨?_, rfl, ?_, by simp [queue.size]⟩, ?_⟩
      · apply is_dll_insert n.next n.prev _ _ [] (first :: rest) node queue.dll (by simpa using fresh)
        · simp [Nodes.setNext, Nodes.setPrev]
        · simp [Nodes.setNext, Nodes.setPrev, fresh.1]
        · simp
        · simp
        · intro y member
          have other : y ≠ node := by
            rintro rfl
            simp only [List.mem_cons] at member
            tauto
          simp [Nodes.setNext, Nodes.setPrev, other]
        · intro y member
          have other : y ≠ node := by
            rintro rfl
            simp only [List.mem_cons] at member
            tauto
          by_cases isFirst : y = first
          · simp [Nodes.setNext, Nodes.setPrev, isFirst]
          · simp [Nodes.setNext, Nodes.setPrev, isFirst, other, Ne.symm isFirst]
      · rw [queue.tail, List.getLast?_cons_cons]
      · intro x outside other
        simp only [List.mem_cons, not_or] at outside
        simp [SameLinks, Nodes.setNext, Nodes.setPrev, other, outside.1]

-- The walk stops at the first node that wakes later, or runs off the end by itself: more
-- fuel than the list has nodes changes nothing.
theorem skip_earlier_spec (wakeAt : Nat → Nat) (limit extra : Nat) (front rest : List Nat)
    (dll : IsDll n.next n.prev (front ++ rest)) :
    skipEarlier n wakeAt limit (rest.length + extra) rest.head? =
      (rest.dropWhile (fun x => wakeAt x ≤ limit)).head? := by
  induction rest generalizing front with
  | nil => cases extra <;> simp [skipEarlier]
  | cons x rest step =>
      have links := is_dll_links n.next n.prev front rest x dll
      rw [List.length_cons, Nat.succ_add, List.head?_cons]
      by_cases earlier : wakeAt x ≤ limit
      · simp only [skipEarlier, if_pos earlier, links.2]
        rw [step (front ++ [x]) (by simpa using dll)]
        simp [earlier]
      · simp [skipEarlier, earlier]

-- Where `listSortedPush` puts a node: behind those that wake no later.
def sortedInsert (wakeAt : Nat → Nat) (node : Nat) (nodes : List Nat) : List Nat :=
  nodes.takeWhile (fun x => wakeAt x ≤ wakeAt node) ++ node :: nodes.dropWhile (fun x => wakeAt x ≤ wakeAt node)

theorem mem_sorted_insert (wakeAt : Nat → Nat) (node x : Nat) : x ∈ sortedInsert wakeAt node nodes ↔
    x = node ∨ x ∈ nodes := by
  have split : x ∈ nodes ↔ x ∈ nodes.takeWhile (fun x => wakeAt x ≤ wakeAt node) ∨
      x ∈ nodes.dropWhile (fun x => wakeAt x ≤ wakeAt node) := by
    rw [← List.mem_append, List.takeWhile_append_dropWhile]
  rw [sortedInsert, List.mem_append, List.mem_cons, split]
  tauto

theorem due_first (due : Nat → Bool) (nodes : List Nat)
    (sorted : nodes.Pairwise (fun a b => due b = true → due a = true)) :
    nodes.takeWhile due = nodes.filter due ∧ nodes.dropWhile due = nodes.filter (fun t => !due t) := by
  induction nodes with
  | nil => exact ⟨rfl, rfl⟩
  | cons x rest ih =>
      obtain ⟨first, sortedRest⟩ := List.pairwise_cons.mp sorted
      obtain ⟨early, late⟩ := ih sortedRest
      cases isDue : due x with
      | true => simp [isDue, early, late]
      | false =>
          have none (y : Nat) (member : y ∈ rest) : due y = false := by
            by_contra isTrue
            rw [first y member (by simpa using isTrue)] at isDue
            cases isDue
          constructor
          · simpa [isDue] using none
          · rw [List.dropWhile_cons, isDue]
            symm
            simpa [isDue] using none

theorem sorted_parts (wakeAt : Nat → Nat) (node : Nat) (nodes : List Nat)
    (sorted : nodes.Pairwise (fun a b => wakeAt a ≤ wakeAt b)) :
    nodes.takeWhile (fun x => wakeAt x ≤ wakeAt node) = nodes.filter (fun x => wakeAt x ≤ wakeAt node) ∧
      nodes.dropWhile (fun x => wakeAt x ≤ wakeAt node) = nodes.filter (fun x => wakeAt node < wakeAt x) := by
  have due :
      nodes.Pairwise (fun a b => decide (wakeAt b ≤ wakeAt node) = true → decide (wakeAt a ≤ wakeAt node) = true) := by
    apply sorted.imp
    intro a b before isDue
    simp only [decide_eq_true_eq] at *
    omega
  obtain ⟨early, late⟩ := due_first (fun x => wakeAt x ≤ wakeAt node) nodes due
  refine ⟨early, ?_⟩
  rw [late]
  simp only [← Nat.not_le, decide_not]

theorem sorted_insert_stable (wakeAt : Nat → Nat) (node : Nat) (nodes : List Nat)
    (sorted : nodes.Pairwise (fun a b => wakeAt a ≤ wakeAt b)) :
    (sortedInsert wakeAt node nodes).Pairwise (fun a b => wakeAt a ≤ wakeAt b) := by
  obtain ⟨early, late⟩ := sorted_parts wakeAt node nodes sorted
  rw [sortedInsert, early, late, List.pairwise_append, List.pairwise_cons]
  refine ⟨sorted.filter _, ⟨?_, sorted.filter _⟩, ?_⟩
  · intro x member
    exact Nat.le_of_lt (of_decide_eq_true (List.mem_filter.mp member).2)
  · intro x inEarly y inLate
    have before : wakeAt x ≤ wakeAt node := of_decide_eq_true (List.mem_filter.mp inEarly).2
    cases List.mem_cons.mp inLate with
    | inl here => exact here ▸ before
    | inr behind =>
        have after : wakeAt node < wakeAt y := of_decide_eq_true (List.mem_filter.mp behind).2
        omega

theorem insert_before_spec (front back : List Nat) (before cur node : Nat)
    (fresh : node ∉ (front ++ [before]) ++ cur :: back) (queue : IsQueue n list ((front ++ [before]) ++ cur :: back)) :
    let n' :=
      (((n.setPrev node (some before)).setNext node (some cur)).setNext before (some node)).setPrev cur (some node)
    IsQueue n' { list with size := list.size + 1 } ((front ++ [before]) ++ node :: cur :: back) ∧
      ∀ x, x ∉ (front ++ [before]) ++ cur :: back → x ≠ node → SameLinks n n' x := by
  intro n'
  have nodup := queue.dll.1
  have notBefore : node ≠ before := by rintro rfl; simp at fresh
  have notCur : node ≠ cur := by rintro rfl; simp at fresh
  have differ : before ≠ cur := by
    rintro rfl
    simp [List.nodup_append] at nodup
  refine ⟨⟨?_, ?_, ?_, by simp [queue.size]; omega⟩, ?_⟩
  · apply is_dll_insert n.next n.prev _ _ (front ++ [before]) (cur :: back) node queue.dll fresh
    · simp [n', Nodes.setNext, Nodes.setPrev, notBefore]
    · simp [n', Nodes.setNext, Nodes.setPrev, notCur]
    · intro y member
      have other : y ≠ node := by rintro rfl; exact fresh (List.mem_append_left _ member)
      by_cases isBefore : y = before
      · simp [n', Nodes.setNext, Nodes.setPrev, isBefore]
      · simp [n', Nodes.setNext, Nodes.setPrev, isBefore, other, Ne.symm isBefore]
    · intro y member
      have other : y ≠ node := by rintro rfl; exact fresh (List.mem_append_left _ member)
      have notHere : y ≠ cur := by
        rintro rfl
        exact (List.nodup_append.mp nodup).2.2 y member y (by simp) rfl
      simp [n', Nodes.setNext, Nodes.setPrev, other, notHere]
    · intro y member
      have other : y ≠ node := by rintro rfl; exact fresh (List.mem_append_right _ member)
      have notHere : y ≠ before := by
        rintro rfl
        exact (List.nodup_append.mp nodup).2.2 y (by simp) y member rfl
      simp [n', Nodes.setNext, Nodes.setPrev, other, notHere]
    · intro y member
      have other : y ≠ node := by rintro rfl; exact fresh (List.mem_append_right _ member)
      by_cases isCur : y = cur
      · simp [n', Nodes.setNext, Nodes.setPrev, isCur]
      · simp [n', Nodes.setNext, Nodes.setPrev, isCur, other, Ne.symm isCur]
  · rw [queue.head]
    simp [List.head?_append]
  · rw [queue.tail]
    simp [List.getLast?_append]
  · intro x outside other
    simp only [List.mem_append, List.mem_cons, List.not_mem_nil, or_false, not_or] at outside
    simp [SameLinks, n', Nodes.setNext, Nodes.setPrev, other, outside.1.2, outside.2.1]

theorem sorted_push_spec (wakeAt : Nat → Nat) (queue : IsQueue n list nodes) (node : Nat) (fresh : node ∉ nodes) :
    ∃ list' n', listSortedPush wakeAt list node n = .ok (list', n') ∧
      IsQueue n' list' (sortedInsert wakeAt node nodes) ∧
      ∀ x, x ∉ nodes → x ≠ node → SameLinks n n' x := by
  have walk := skip_earlier_spec wakeAt (wakeAt node) 0 [] nodes queue.dll
  rw [Nat.add_zero, ← queue.size, ← queue.head] at walk
  have parts :
      nodes.takeWhile (fun x => wakeAt x ≤ wakeAt node) ++ nodes.dropWhile (fun x => wakeAt x ≤ wakeAt node) = nodes :=
    List.takeWhile_append_dropWhile
  unfold sortedInsert listSortedPush
  generalize nodes.takeWhile (fun x => wakeAt x ≤ wakeAt node) = early at *
  generalize nodes.dropWhile (fun x => wakeAt x ≤ wakeAt node) = late at *
  subst parts
  cases late with
  | nil =>
      obtain ⟨pushed, frame⟩ := push_back_spec queue node fresh
      rw [walk]
      refine ⟨(listPushBack list node n).1, (listPushBack list node n).2, rfl, ?_, frame⟩
      simpa using pushed
  | cons cur back =>
      simp only [walk, List.head?_cons]
      rcases List.eq_nil_or_concat early with rfl | ⟨front, before, rfl⟩
      · obtain ⟨pushed, frame⟩ := push_front_spec queue node fresh
        have isHead : some cur = list.head := queue.head.symm
        rw [if_pos isHead]
        exact ⟨_, _, rfl, pushed, frame⟩
      · rw [List.concat_eq_append] at *
        have notHead : some cur ≠ list.head := by
          rw [queue.head]
          intro same
          have nodup := queue.dll.1
          have inFront : cur ∈ front ++ [before] := by
            rw [List.head?_append_of_ne_nil _ (by simp)] at same
            exact List.mem_of_mem_head? same.symm
          exact (List.nodup_append.mp nodup).2.2 cur inFront cur (by simp) rfl
        have links := is_dll_links n.next n.prev (front ++ [before]) back cur queue.dll
        have before' : n.prev cur = some before := by simpa using links.1
        obtain ⟨pushed, frame⟩ := insert_before_spec front back before cur node fresh queue
        rw [if_neg notHead, before']
        exact ⟨_, _, rfl, pushed, frame⟩

-- The four operations on a list that denotes `nodes`.
theorem scheduler_lists (n : Nodes) (list : DLList) (nodes : List Nat) (queue : IsQueue n list nodes) :
    (∀ first rest, nodes = first :: rest → ∃ list' n', listPopFront list n = .ok (first, list', n') ∧
      IsQueue n' list' rest ∧
      ∀ x, x ∉ nodes → SameLinks n n' x) ∧
    ∀ node, node ∉ nodes →
      (IsQueue (listPushBack list node n).2 (listPushBack list node n).1 (nodes ++ [node]) ∧
        ∀ x, x ∉ nodes → x ≠ node → SameLinks n (listPushBack list node n).2 x) ∧
      (IsQueue (listPushFront list node n).2 (listPushFront list node n).1 (node :: nodes) ∧
        ∀ x, x ∉ nodes → x ≠ node → SameLinks n (listPushFront list node n).2 x) ∧
      ∀ wakeAt : Nat → Nat, ∃ early late list' n', nodes = early ++ late ∧
        (∀ x ∈ early, wakeAt x ≤ wakeAt node) ∧ (∀ x ∈ late.head?, wakeAt node < wakeAt x) ∧
        listSortedPush wakeAt list node n = .ok (list', n') ∧ IsQueue n' list' (early ++ node :: late) ∧
        (∀ x, x ∉ nodes → x ≠ node → SameLinks n n' x) ∧
        (nodes.Pairwise (fun a b => wakeAt a ≤ wakeAt b) →
          (early ++ node :: late).Pairwise (fun a b => wakeAt a ≤ wakeAt b) ∧
          early = nodes.filter (fun x => wakeAt x ≤ wakeAt node) ∧
            late = nodes.filter (fun x => wakeAt node < wakeAt x)) := by
  constructor
  · intro first rest same
    subst same
    exact pop_front_spec first queue
  · intro node fresh
    refine ⟨push_back_spec queue node fresh, push_front_spec queue node fresh, ?_⟩
    intro wakeAt
    obtain ⟨list', n', pushed, holds, frame⟩ := sorted_push_spec wakeAt queue node fresh
    refine ⟨nodes.takeWhile (fun x => wakeAt x ≤ wakeAt node),
      nodes.dropWhile (fun x => wakeAt x ≤ wakeAt node), list', n', List.takeWhile_append_dropWhile.symm, ?_, ?_,
      pushed, holds, frame, ?_⟩
    · intro x member
      have satisfied := List.mem_takeWhile_imp member
      simpa using satisfied
    · intro x member
      have stops := List.head?_dropWhile_not (fun x => decide (wakeAt x ≤ wakeAt node)) nodes
      rw [Option.mem_def.mp member] at stops
      simpa using stops
    · intro sorted
      exact ⟨sorted_insert_stable wakeAt node nodes sorted, sorted_parts wakeAt node nodes sorted⟩

def pairNodes : Nodes := ⟨fun x => if x = 1 then some 2 else none, fun x => if x = 2 then some 1 else none⟩

theorem scheduler_lists_pair : IsQueue pairNodes ⟨some 1, some 2, 2⟩ [1, 2] ∧
    (∃ list' n', listPopFront ⟨some 1, some 2, 2⟩ pairNodes = .ok (1, list', n') ∧ IsQueue n' list' [2]) ∧
    IsQueue (listPushBack ⟨some 1, some 2, 2⟩ 7 pairNodes).2
      (listPushBack ⟨some 1, some 2, 2⟩ 7 pairNodes).1 [1, 2, 7] := by
  have queue : IsQueue pairNodes ⟨some 1, some 2, 2⟩ [1, 2] := by
    obtain ⟨first, -⟩ := push_back_spec (empty_queue ⟨fun _ => none, fun _ => none⟩) 1 (by simp)
    obtain ⟨second, -⟩ := push_back_spec first 2 (by simp)
    refine queue_congr _ _ _ _ second ?_
    intro x member
    simp only [List.mem_cons, List.not_mem_nil, or_false] at member
    cases member with
    | inl isFirst =>
        subst isFirst
        exact ⟨rfl, rfl⟩
    | inr isSecond =>
        subst isSecond
        exact ⟨rfl, rfl⟩
  obtain ⟨popped, pushed⟩ := scheduler_lists _ _ _ queue
  obtain ⟨list', n', isPop, rest, -⟩ := popped 1 [2] rfl
  exact ⟨queue, ⟨list', n', isPop, rest⟩, (pushed 7 (by simp)).1.1⟩

end Specs

end X86OS.Sched
