import Mathlib.Data.Set.Finite.Lattice
import Mathlib.Tactic

set_option autoImplicit false

namespace X86OS.Orbit

open Relation

variable {α : Type} (f : α → Option α)

-- A loop whose body is `f`: the value before iteration `k`, none once the loop has ended.
def orbit : Nat → α → Option α
  | 0, a => some a
  | k + 1, a => (f a).bind (orbit k)

def Leads (a b : α) : Prop := f a = some b

def Ends (a : α) : Prop := ∃ k, orbit f k a = none

theorem orbit_succ (k : Nat) (a : α) : orbit f (k + 1) a = (orbit f k a).bind f := by
  induction k generalizing a with
  | zero => cases step : f a <;> simp [orbit, step]
  | succ k ih =>
      cases step : f a with
      | none => simp [orbit, step]
      | some b =>
          have here (j : Nat) : orbit f (j + 1) a = orbit f j b := by simp [orbit, step]
          rw [here, here, ih]

theorem orbit_reached (k : Nat) (a b : α) (here : orbit f k a = some b) : ReflTransGen (Leads f) a b := by
  induction k generalizing b with
  | zero =>
      cases here
      exact .refl
  | succ k ih =>
      rw [orbit_succ] at here
      obtain ⟨c, before, step⟩ := Option.bind_eq_some_iff.mp here
      exact (ih c before).tail step

theorem reached_orbit (a b : α) (reached : ReflTransGen (Leads f) a b) : ∃ k, orbit f k a = some b := by
  induction reached with
  | refl => exact ⟨0, rfl⟩
  | tail _ step ih =>
      obtain ⟨k, before⟩ := ih
      refine ⟨k + 1, ?_⟩
      rw [orbit_succ, before]
      exact step

theorem orbit_later (i j : Nat) (a b c : α) (before : i < j) (first : orbit f i a = some b)
    (second : orbit f j a = some c) :
    TransGen (Leads f) b c := by
  induction j generalizing c with
  | zero => omega
  | succ j ih =>
      rw [orbit_succ] at second
      obtain ⟨d, previous, step⟩ := Option.bind_eq_some_iff.mp second
      by_cases same : i = j
      · subst same
        cases first.symm.trans previous
        exact .single step
      · exact (ih d (by omega) previous).tail step

-- A loop that ends meets no value twice: each step back to a value would have to be
-- followed by all the steps after it once more.
theorem ends_no_cycle (k : Nat) (a b : α) (ended : orbit f k a = none) (reached : ReflTransGen (Leads f) a b) :
    ¬ TransGen (Leads f) b b := by
  induction k generalizing a b with
  | zero => cases ended
  | succ k ih =>
      intro cycle
      have next (c : α) (step : Leads f a c) : orbit f k c = none := by
        simpa [orbit, show f a = some c from step] using ended
      cases reached.cases_head with
      | inl same =>
          subst same
          obtain ⟨c, step, back⟩ := TransGen.head'_iff.mp cycle
          exact ih c c (next c step) .refl (.tail' back step)
      | inr later =>
          obtain ⟨c, step, rest⟩ := later
          exact ih c b (next c step) rest cycle

theorem ends_iff_no_cycle (a : α) (finite : {b | ReflTransGen (Leads f) a b}.Finite) :
    Ends f a ↔ ∀ b, ReflTransGen (Leads f) a b → ¬ TransGen (Leads f) b b := by
  constructor
  · rintro ⟨k, ended⟩ b
    exact ends_no_cycle f k a b ended
  · intro noCycle
    by_contra running
    have value (k : Nat) : ∃ b, orbit f k a = some b := Option.ne_none_iff_exists'.mp (fun ended => running ⟨k, ended⟩)
    choose visited here using value
    have revisits : ∃ i j, i < j ∧ visited i = visited j := by
      obtain ⟨i, -, j, -, differ, same⟩ := Set.infinite_univ.exists_ne_map_eq_of_mapsTo
        (fun k _ => orbit_reached f k a (visited k) (here k)) finite
      cases Nat.lt_or_gt_of_ne differ with
      | inl before => exact ⟨i, j, before, same⟩
      | inr after => exact ⟨j, i, after, same.symm⟩
    obtain ⟨i, j, before, same⟩ := revisits
    have cycle := orbit_later f i j a _ _ before (here i) (here j)
    rw [← same] at cycle
    exact noCycle (visited i) (orbit_reached f i a _ (here i)) cycle

end X86OS.Orbit
