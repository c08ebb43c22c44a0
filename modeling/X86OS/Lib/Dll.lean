import Mathlib.Tactic

set_option autoImplicit false
set_option linter.unusedSectionVars false

namespace X86OS.Dll

variable {P : Type} [DecidableEq P]

-- A run of nodes linked both ways. The first node points back to `before`, the
-- last one forward to `after`; nothing is said about those two nodes' own links.
def IsSegment (next prev : P → Option P) (before : Option P) (nodes : List P) (after : Option P) : Prop :=
  nodes.Nodup ∧ ∀ front x back, nodes = front ++ x :: back →
    prev x = front.getLast?.or before ∧ next x = back.head?.or after

-- A null-terminated doubly linked list.
def IsDll (next prev : P → Option P) (nodes : List P) : Prop := IsSegment next prev none nodes none

theorem segment_nil (next prev : P → Option P) (before after : Option P) : IsSegment next prev before [] after := by
  refine ⟨List.nodup_nil, ?_⟩
  intro front x back split
  simp at split

theorem segment_single (next prev : P → Option P) (x : P) : IsSegment next prev (prev x) [x] (next x) := by
  refine ⟨List.nodup_singleton x, ?_⟩
  intro front y back split
  cases front with
  | nil =>
      obtain ⟨rfl, rfl⟩ := List.cons.inj split
      exact ⟨rfl, rfl⟩
  | cons z front => simp at split

theorem segment_left (next prev : P → Option P) (front back : List P) (before after : Option P)
    (segment : IsSegment next prev before (front ++ back) after) :
    IsSegment next prev before front (back.head?.or after) := by
  refine ⟨(List.nodup_append.mp segment.1).1, ?_⟩
  intro left y right split
  have old := segment.2 left y (right ++ back) (by simp [split])
  exact ⟨old.1, by rw [old.2, List.head?_append, Option.or_assoc]⟩

theorem segment_right (next prev : P → Option P) (front back : List P) (before after : Option P)
    (segment : IsSegment next prev before (front ++ back) after) :
    IsSegment next prev (front.getLast?.or before) back after := by
  refine ⟨(List.nodup_append.mp segment.1).2.1, ?_⟩
  intro left y right split
  have old := segment.2 (front ++ left) y right (by simp [split])
  exact ⟨by rw [old.1, List.getLast?_append, Option.or_assoc], old.2⟩

theorem segment_append (next prev : P → Option P) (front back : List P) (before after : Option P)
    (left : IsSegment next prev before front (back.head?.or after))
    (right : IsSegment next prev (front.getLast?.or before) back after)
    (apart : ∀ y ∈ front, y ∉ back) : IsSegment next prev before (front ++ back) after := by
  refine ⟨List.nodup_append.mpr ⟨left.1, right.1, fun a inFront b inBack same => apart a inFront (same ▸ inBack)⟩, ?_⟩
  intro init y rest split
  have inBack (inner : List P) (backEq : back = inner ++ y :: rest) (initEq : init = front ++ inner) :
      prev y = init.getLast?.or before ∧ next y = rest.head?.or after := by
    have old := right.2 inner y rest backEq
    rw [initEq, List.getLast?_append, Option.or_assoc]
    exact old
  rcases List.append_eq_append_iff.mp split with ⟨inner, initEq, backEq⟩ | ⟨inner, frontEq, restEq⟩
  · exact inBack inner backEq initEq
  · cases inner with
    | nil => exact inBack [] (by simpa using restEq.symm) (by simpa using frontEq.symm)
    | cons z inner =>
        obtain ⟨rfl, rfl⟩ := List.cons.inj restEq
        have old := left.2 init y inner frontEq
        refine ⟨old.1, ?_⟩
        rw [old.2, ← Option.or_assoc, ← List.head?_append]
        rfl

theorem segment_redirect_next (next prev next' prev' : P → Option P) (nodes : List P) (before after after' : Option P)
    (segment : IsSegment next prev before nodes after)
    (forward : ∀ y ∈ nodes, next' y = if nodes.getLast? = some y then after' else next y)
    (same : ∀ y ∈ nodes, prev' y = prev y) : IsSegment next' prev' before nodes after' := by
  refine ⟨segment.1, ?_⟩
  intro front x back split
  have old := segment.2 front x back split
  have nodup := segment.1
  rw [forward x (by simp [split]), same x (by simp [split])]
  refine ⟨old.1, ?_⟩
  subst split
  rcases List.eq_nil_or_concat back with rfl | ⟨init, z, rfl⟩
  · simp
  · have other : z ≠ x := by
      rintro rfl
      simp [List.nodup_append] at nodup
    have last : (front ++ x :: init.concat z).getLast? = some z := by simp [List.getLast?_append, List.getLast?_cons]
    rw [last, if_neg (by simpa using other), old.2]
    cases init <;> simp

theorem segment_redirect_prev (next prev next' prev' : P → Option P) (nodes : List P) (before before' after : Option P)
    (segment : IsSegment next prev before nodes after)
    (backward : ∀ y ∈ nodes, prev' y = if nodes.head? = some y then before' else prev y)
    (same : ∀ y ∈ nodes, next' y = next y) : IsSegment next' prev' before' nodes after := by
  refine ⟨segment.1, ?_⟩
  intro front x back split
  have old := segment.2 front x back split
  have nodup := segment.1
  rw [backward x (by simp [split]), same x (by simp [split])]
  refine ⟨?_, old.2⟩
  subst split
  cases front with
  | nil => simp
  | cons z front =>
      have other : z ≠ x := by
        rintro rfl
        simp at nodup
      rw [if_neg (by simpa using other), old.1]
      simp [List.getLast?_cons]

theorem is_dll_nil (next prev : P → Option P) : IsDll next prev [] := segment_nil next prev none none

theorem is_dll_congr (next prev next' prev' : P → Option P) (nodes : List P) (dll : IsDll next prev nodes)
    (agree : ∀ x ∈ nodes, next' x = next x ∧ prev' x = prev x) : IsDll next' prev' nodes := by
  refine ⟨dll.1, ?_⟩
  intro front x back split
  have member : x ∈ nodes := by simp [split]
  rw [(agree x member).1, (agree x member).2]
  exact dll.2 front x back split

theorem segment_links (next prev : P → Option P) (front back : List P) (x : P) (before : Option P)
    (segment : IsSegment next prev before (front ++ x :: back) none) :
    prev x = front.getLast?.or before ∧ next x = back.head? := by
  simpa using segment.2 front x back rfl

theorem is_dll_links (next prev : P → Option P) (front back : List P) (x : P)
    (dll : IsDll next prev (front ++ x :: back)) : prev x = front.getLast? ∧ next x = back.head? := by
  simpa using segment_links next prev front back x none dll

theorem last_or_before (front : List P) (before : Option P) (inside : front = [] → before = none) :
    front.getLast?.or before = front.getLast? := by
  cases front with
  | nil => rw [inside rfl, Option.or_none]
  | cons z front => rw [List.getLast?_cons, Option.some_or]

theorem segment_next_inside (next prev : P → Option P) (front back : List P) (x : P) (before : Option P)
    (segment : IsSegment next prev before (front ++ x :: back) none) (D : P → Prop) (backD : ∀ y ∈ back, D y) :
    ∀ y ∈ next x, D y := by
  intro y loaded
  rw [(segment_links next prev front back x before segment).2] at loaded
  exact backD y (List.mem_of_mem_head? loaded)

theorem segment_neighbours (next prev : P → Option P) (front back : List P) (x : P) (before : Option P)
    (segment : IsSegment next prev before (front ++ x :: back) none) (inside : front = [] → before = none)
    (D : P → Prop) (nodesD : ∀ y ∈ front ++ x :: back, D y) : (∀ y ∈ next x, D y) ∧ (∀ y ∈ prev x, D y) := by
  refine ⟨segment_next_inside next prev front back x before segment D (fun y member => nodesD y (by simp [member])), ?_⟩
  intro y loaded
  rw [(segment_links next prev front back x before segment).1, last_or_before front before inside] at loaded
  exact nodesD y (List.mem_append_left _ (List.mem_of_getLast? loaded))

theorem is_dll_neighbours (next prev : P → Option P) (front back : List P) (x : P)
    (dll : IsDll next prev (front ++ x :: back)) (D : P → Prop) (nodesD : ∀ y ∈ front ++ x :: back, D y) :
    (∀ y ∈ next x, D y) ∧ (∀ y ∈ prev x, D y) :=
  segment_neighbours next prev front back x none dll (fun _ => rfl) D nodesD

theorem segment_unique (next prev : P → Option P) (nodes nodes' : List P) (before before' : Option P)
    (segment : IsSegment next prev before nodes none) (segment' : IsSegment next prev before' nodes' none)
    (head : nodes.head? = nodes'.head?) : nodes = nodes' := by
  induction nodes generalizing nodes' before before' with
  | nil => exact (List.head?_eq_none_iff.mp head.symm).symm
  | cons x rest ih =>
      cases nodes' with
      | nil => cases head
      | cons y rest' =>
          obtain rfl : x = y := Option.some.inj head
          have following := (segment.2 [] x rest rfl).2
          have following' := (segment'.2 [] x rest' rfl).2
          rw [Option.or_none] at following following'
          rw [ih rest' _ _ (segment_right next prev [x] rest before none segment)
            (segment_right next prev [x] rest' before' none segment') (following.symm.trans following')]

theorem is_dll_join (next prev next' prev' : P → Option P) (front back : List P)
    (dllFront : IsDll next prev front) (dllBack : IsDll next prev back) (apart : ∀ y ∈ front, y ∉ back)
    (frontNext : ∀ y ∈ front, next' y = if front.getLast? = some y then back.head? else next y)
    (frontPrev : ∀ y ∈ front, prev' y = prev y)
    (backNext : ∀ y ∈ back, next' y = next y)
    (backPrev : ∀ y ∈ back, prev' y = if back.head? = some y then front.getLast? else prev y) :
    IsDll next' prev' (front ++ back) := by
  apply segment_append _ _ _ _ _ _ _ _ apart
  · exact segment_redirect_next next prev next' prev' front none none _ dllFront (by simpa using frontNext) frontPrev
  · exact segment_redirect_prev next prev next' prev' back none _ none dllBack (by simpa using backPrev) backNext

theorem split_apart (front back : List P) (x : P) (nodup : (front ++ x :: back).Nodup) :
    x ∉ front ∧ x ∉ back ∧ ∀ y ∈ front, y ∉ back := by
  obtain ⟨fresh, rest⟩ := List.nodup_cons.mp (List.nodup_middle.mp nodup)
  refine ⟨fun member => fresh (List.mem_append_left back member),
    fun member => fresh (List.mem_append_right front member), ?_⟩
  intro y inFront inBack
  exact (List.nodup_append.mp rest).2.2 y inFront y inBack rfl

-- Insertion at any seam changes only the links that cross it.
theorem segment_insert (next prev next' prev' : P → Option P) (front back : List P) (x : P) (before : Option P)
    (segment : IsSegment next prev before (front ++ back) none) (fresh : x ∉ front ++ back)
    (forward : next' x = back.head?) (backward : prev' x = front.getLast?.or before)
    (frontNext : ∀ y ∈ front, next' y = if front.getLast? = some y then some x else next y)
    (frontPrev : ∀ y ∈ front, prev' y = prev y)
    (backNext : ∀ y ∈ back, next' y = next y)
    (backPrev : ∀ y ∈ back, prev' y = if back.head? = some y then some x else prev y) :
    IsSegment next' prev' before (front ++ x :: back) none := by
  obtain ⟨notFront, notBack, apart⟩ :=
    split_apart front back x (List.nodup_middle.mpr (List.nodup_cons.mpr ⟨fresh, segment.1⟩))
  have across (y : P) (member : y ∈ front) : y ∉ x :: back :=
    List.not_mem_cons_of_ne_of_not_mem (ne_of_mem_of_not_mem member notFront) (apart y member)
  have left := segment_redirect_next next prev next' prev' front before _ (some x)
    (segment_left next prev front back before none segment) frontNext frontPrev
  have right := segment_redirect_prev next prev next' prev' back _ (some x) none
    (segment_right next prev front back before none segment) backPrev backNext
  have single := segment_single next' prev' x
  rw [forward, backward] at single
  apply segment_append _ _ _ _ _ _ (by simpa using left) _ across
  exact segment_append next' prev' [x] back _ _ (by simpa using single) (by simpa using right) (by simpa using notBack)

theorem segment_remove (next prev next' prev' : P → Option P) (front back : List P) (x : P) (before : Option P)
    (segment : IsSegment next prev before (front ++ x :: back) none)
    (frontNext : ∀ y ∈ front, next' y = if front.getLast? = some y then back.head? else next y)
    (frontPrev : ∀ y ∈ front, prev' y = prev y)
    (backNext : ∀ y ∈ back, next' y = next y)
    (backPrev : ∀ y ∈ back, prev' y = if back.head? = some y then front.getLast?.or before else prev y) :
    IsSegment next' prev' before (front ++ back) none := by
  have left := segment_left next prev front (x :: back) before none segment
  have right := segment_right next prev (front ++ [x]) back before none (by simpa using segment)
  obtain ⟨-, -, apart⟩ := split_apart front back x segment.1
  apply segment_append _ _ _ _ _ _ _ _ apart
  · exact segment_redirect_next next prev next' prev' front before _ _ left (by simpa using frontNext) frontPrev
  · exact segment_redirect_prev next prev next' prev' back _ _ none right backPrev backNext

theorem is_dll_insert (next prev next' prev' : P → Option P) (front back : List P) (x : P)
    (dll : IsDll next prev (front ++ back)) (fresh : x ∉ front ++ back)
    (forward : next' x = back.head?) (backward : prev' x = front.getLast?)
    (frontNext : ∀ y ∈ front, next' y = if front.getLast? = some y then some x else next y)
    (frontPrev : ∀ y ∈ front, prev' y = prev y)
    (backNext : ∀ y ∈ back, next' y = next y)
    (backPrev : ∀ y ∈ back, prev' y = if back.head? = some y then some x else prev y) :
    IsDll next' prev' (front ++ x :: back) :=
  segment_insert next prev next' prev' front back x none dll fresh forward (by simpa using backward) frontNext frontPrev
    backNext backPrev

theorem is_dll_remove (next prev next' prev' : P → Option P) (front back : List P) (x : P)
    (dll : IsDll next prev (front ++ x :: back))
    (frontNext : ∀ y ∈ front, next' y = if front.getLast? = some y then back.head? else next y)
    (frontPrev : ∀ y ∈ front, prev' y = prev y)
    (backNext : ∀ y ∈ back, next' y = next y)
    (backPrev : ∀ y ∈ back, prev' y = if back.head? = some y then front.getLast? else prev y) :
    IsDll next' prev' (front ++ back) :=
  segment_remove next prev next' prev' front back x none dll frontNext frontPrev backNext (by simpa using backPrev)

end X86OS.Dll
