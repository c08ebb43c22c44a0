import X86OS.Mm.PageAllocator

set_option autoImplicit false

namespace X86OS

-- What callers did with the page allocator.
inductive PageEvent where
  | taken (addr order : Nat)
  | returned (addr : Nat)
deriving DecidableEq

-- The blocks handed out and not returned, by a log with its latest event first.
def outstanding : List PageEvent → List (Nat × Nat)
  | [] => []
  | .taken addr order :: log => (addr, order) :: outstanding log
  | .returned addr :: log => (outstanding log).filter (fun block => block.1 ≠ addr)

-- Every block is handed out only while it is not out, and returned only while it is: each
-- time it is handed out it comes back at most once.
def Disciplined : List PageEvent → Prop
  | [] => True
  | .taken addr _ :: log => Disciplined log ∧ addr ∉ (outstanding log).map Prod.fst
  | .returned addr :: log => Disciplined log ∧ addr ∈ (outstanding log).map Prod.fst

variable {σ : Type}

-- The same allocator with a record of its calls.
def PageAllocator.logged (A : PageAllocator σ) : PageAllocator (σ × List PageEvent) where
  alloc order s :=
    match A.alloc order s.1 with
    | .error e => .error e
    | .ok (addr, s') => .ok (addr, s', .taken addr order :: s.2)
  free addr s := (A.free addr s.1, .returned addr :: s.2)
  orderAddr s addr := A.orderAddr s.1 addr

theorem logged_alloc (A : PageAllocator σ) (order addr : Nat) (s s' : σ) (log : List PageEvent)
    (done : A.alloc order s = .ok (addr, s')) :
    A.logged.alloc order (s, log) = .ok (addr, s', .taken addr order :: log) := by
  simp only [PageAllocator.logged, done]

structure LoggedLive (Live : σ → List (Nat × Nat) → Prop) (s : σ × List PageEvent)
    (live : List (Nat × Nat)) : Prop where
  owner : Live s.1 live
  disciplined : Disciplined s.2
  held : (outstanding s.2).Perm live

theorem fresh_of_apart (addr order : Nat) (live : List (Nat × Nat)) (apart : ((addr, order) :: live).Pairwise Apart) :
    addr ∉ live.map Prod.fst := by
  intro member
  obtain ⟨block, inLive, rfl⟩ := List.mem_map.mp member
  have positive := Nat.two_pow_pos order
  have positive' := Nat.two_pow_pos block.2
  have disjoint := List.rel_of_pairwise_cons apart inLive
  simp only [Apart] at disjoint
  omega

theorem logged_lawful (A : PageAllocator σ) (Live : σ → List (Nat × Nat) → Prop) (lawful : A.Lawful Live) :
    A.logged.Lawful (LoggedLive Live) where
  apart s live held := lawful.apart s.1 live held.owner
  inRam s live held := lawful.inRam s.1 live held.owner
  reorder s live live' same held :=
    ⟨lawful.reorder s.1 live live' same held.owner, held.disciplined, held.held.trans same⟩
  allocated := by
    intro s s' live order addr held done
    simp only [PageAllocator.logged] at done
    split at done
    · cases done
    · next start s'' granted =>
        cases done
        have live' := lawful.allocated _ _ _ _ _ held.owner granted
        refine ⟨live', ⟨held.disciplined, ?_⟩, held.held.cons _⟩
        rw [(held.held.map Prod.fst).mem_iff]
        exact fresh_of_apart addr order live (lawful.apart _ _ live')
  freed := by
    intro s live order addr held
    have fresh := fresh_of_apart addr order live (lawful.apart _ _ held.owner)
    have others : ((addr, order) :: live).filter (fun block => block.1 ≠ addr) = live := by
      rw [List.filter_cons_of_neg (by simp), List.filter_eq_self]
      intro block member
      simp only [decide_eq_true_eq]
      rintro rfl
      exact fresh (List.mem_map_of_mem member)
    refine ⟨lawful.freed _ _ order addr held.owner, ⟨held.disciplined, ?_⟩, ?_⟩
    · rw [(held.held.map Prod.fst).mem_iff]
      exact List.mem_cons_self
    · have dropped := held.held.filter (fun block => block.1 ≠ addr)
      rwa [others] at dropped
  orderKept s live order addr held := lawful.orderKept s.1 live order addr held.owner

end X86OS
