import Mathlib.Tactic

set_option autoImplicit false

namespace X86OS

structure Cells (M L : Type) (V : L → Type) where
  get : M → (l : L) → V l
  set : M → (l : L) → V l → M

-- A program as the tree of its single accesses.
inductive Micro (L : Type) (V : L → Type) (α : Type) where
  | done (result : α)
  | fail (message : String)
  | load (l : L) (next : V l → Micro L V α)
  | store (l : L) (value : V l) (next : Micro L V α)

namespace Micro

variable {M L α : Type} {V : L → Type} (C : Cells M L V)

-- What the program does when nothing comes between its accesses.
def run : Micro L V α → M → Except String (α × M)
  | done result, m => .ok (result, m)
  | fail message, _ => .error message
  | load l next, m => (next (C.get m l)).run m
  | store l value next, m => next.run (C.set m l value)

def step : Micro L V α → M → Option (Micro L V α × M)
  | done _, _ => none
  | fail _, _ => none
  | load l next, m => some (next (C.get m l), m)
  | store l value next, m => some (next, C.set m l value)

theorem step_run (p p' : Micro L V α) (m m' : M) (access : p.step C m = some (p', m')) : p'.run C m' = p.run C m := by
  cases p with
  | done result => cases access
  | fail message => cases access
  | load l next =>
      cases access
      rfl
  | store l value next =>
      cases access
      rfl

end Micro

end X86OS
