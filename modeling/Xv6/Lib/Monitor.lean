import Mathlib.Logic.Function.Basic

/-!
# Critical sections of one lock

Processes of a type `P` are at program points of a type `C`, some of which are inside of the
critical sections of a lock. `Held` says that a process inside has the lock; the rules say how
this is kept when a process goes on, takes the lock or gives it back.

What a process inside has seen of the data that the lock protects stays true while it is
inside: other processes know nothing that a step of the holder could make false (`Held.all`).
-/

namespace Monitor

open Function

variable {P C : Type} {inside : C → Bool} {lock : Option P} {pcs : P → C}
  {p q : P} {c : C} {K : C → Prop}

/-- Who is inside has the lock. -/
def Held (inside : C → Bool) (lock : Option P) (pcs : P → C) : Prop :=
  ∀ p, inside (pcs p) = true → lock = some p

/-- While `p` has the lock or nobody has it, no other process is inside. -/
theorem Held.other (held : Held inside lock pcs) (mine : lock = some p ∨ lock = none)
    (ne : q ≠ p) : inside (pcs q) = false := by
  refine Bool.eq_false_iff.mpr fun within => ?_
  have has := held q within
  rcases mine with mine | free
  · rw [has] at mine
    exact ne (Option.some.inj mine)
  · rw [has] at free
    cases free

theorem Held.here (held : Held inside lock pcs) (is : pcs p = c) (within : inside c = true) :
    lock = some p :=
  held p (by rw [is]; exact within)

variable [DecidableEq P]

theorem Held.goes (held : Held inside lock pcs) (keeps : inside c = true → lock = some p) :
    Held inside lock (update pcs p c) := by
  intro q within
  by_cases same : q = p
  · subst same
    rw [update_self] at within
    exact keeps within
  · rw [update_of_ne same] at within
    exact held q within

theorem Held.acquire (held : Held inside lock pcs) (free : lock = none) :
    Held inside (some p) (update pcs p c) := by
  intro q within
  by_cases same : q = p
  · rw [same]
  · rw [update_of_ne same] at within
    exact Bool.noConfusion ((held.other (.inr free) same).symm.trans within)

theorem Held.release (held : Held inside lock pcs) (mine : lock = some p) (out : inside c = false) :
    Held inside none (update pcs p c) := by
  intro q within
  by_cases same : q = p
  · subst same
    rw [update_self] at within
    exact Bool.noConfusion (out.symm.trans within)
  · rw [update_of_ne same] at within
    exact Bool.noConfusion ((held.other (.inl mine) same).symm.trans within)

theorem forall_goes (all : ∀ q, K (pcs q)) (here : K c) (q : P) : K (update pcs p c q) := by
  by_cases same : q = p
  · subst same
    rw [update_self]
    exact here
  · rw [update_of_ne same]
    exact all q

theorem Held.all (held : Held inside lock pcs) (mine : lock = some p ∨ lock = none)
    (out : ∀ {c}, inside c = false → K c) (here : K c) (q : P) : K (update pcs p c q) := by
  by_cases same : q = p
  · subst same
    rw [update_self]
    exact here
  · rw [update_of_ne same]
    exact out (held.other mine same)

end Monitor
