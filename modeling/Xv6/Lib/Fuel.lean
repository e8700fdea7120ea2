import Mathlib.Order.Basic

/-!
# Computations bounded by fuel

A `Fueled` computation yields a value, fails, or runs out of fuel. A recursive program is a family
`f : Nat → Fueled ε α` over its fuel, and what it does for any large enough fuel is what it does:
`Settles f r`. It ends if it settles on something other than running out. `Rel` relates two
computations that take the same course.
-/

/-- A value, an error, or no fuel left. -/
inductive Fueled (ε α : Type) where
  | out
  | error (e : ε)
  | ok (a : α)
deriving DecidableEq

namespace Fueled

variable {ε α β γ δ : Type}

def bind (x : Fueled ε α) (f : α → Fueled ε β) : Fueled ε β :=
  match x with
  | .out => .out
  | .error e => .error e
  | .ok a => f a

instance : Monad (Fueled ε) where
  pure := .ok
  bind := bind

variable {x : Fueled ε α} {f : α → Fueled ε β} {a : α} {b : β}

theorem bind_eq_ok : (x >>= f) = .ok b ↔ ∃ a, x = .ok a ∧ f a = .ok b := by
  constructor
  · intro run
    cases x with
    | out | error e => cases run
    | ok a => exact ⟨a, rfl, run⟩
  · rintro ⟨a, rfl, run⟩
    exact run

/-! ## Related computations -/

/-- Both run out, both fail with the same error, or both yield related values. -/
inductive Rel (R : α → β → Prop) : Fueled ε α → Fueled ε β → Prop
  | out : Rel R .out .out
  | error (e : ε) : Rel R (.error e) (.error e)
  | ok {a : α} {b : β} (holds : R a b) : Rel R (.ok a) (.ok b)

theorem Rel.bind {R : α → β → Prop} {S : γ → δ → Prop} {x : Fueled ε α} {y : Fueled ε β}
    {f : α → Fueled ε γ} {g : β → Fueled ε δ} (first : Rel R x y)
    (next : ∀ a b, R a b → Rel S (f a) (g b)) : Rel S (x >>= f) (y >>= g) := by
  cases first with
  | out => exact .out
  | error e => exact .error e
  | ok holds => exact next _ _ holds

/-! ## Enough fuel -/

/-- With enough fuel the result is `r`. -/
def Settles (f : Nat → Fueled ε α) (r : Fueled ε α) : Prop :=
  ∃ bound, ∀ fuel, bound ≤ fuel → f fuel = r

/-- With enough fuel there is a result. -/
def Ends (f : Nat → Fueled ε α) : Prop :=
  ∃ r, r ≠ .out ∧ Settles f r

variable {p : Nat → Fueled ε α} {q : α → Nat → Fueled ε β} {r r' : Fueled ε α} {s : Fueled ε β}

theorem Settles.const : Settles (fun _ => r) r :=
  ⟨0, fun _ _ => rfl⟩

theorem Settles.succ (settles : Settles (fun fuel => p (fuel + 1)) r) : Settles p r := by
  obtain ⟨bound, run⟩ := settles
  refine ⟨bound + 1, ?_⟩
  intro fuel enough
  obtain ⟨fuel, rfl⟩ := Nat.exists_eq_add_of_le enough
  have split : bound + 1 + fuel = bound + fuel + 1 := by omega
  rw [split]
  exact run _ (Nat.le_add_right ..)

theorem Settles.unique (one : Settles p r) (two : Settles p r') : r = r' := by
  obtain ⟨bound, run⟩ := one
  obtain ⟨bound', run'⟩ := two
  rw [← run (bound + bound') (Nat.le_add_right ..), run' (bound + bound') (Nat.le_add_left ..)]

theorem Settles.bind_ok (first : Settles p (.ok a)) (next : Settles (q a) s) :
    Settles (fun fuel => p fuel >>= fun a => q a fuel) s := by
  obtain ⟨bound, run⟩ := first
  obtain ⟨bound', run'⟩ := next
  refine ⟨bound + bound', ?_⟩
  intro fuel enough
  dsimp only
  rw [run fuel (by omega)]
  exact run' fuel (by omega)

theorem Settles.bind_error {e : ε} (first : Settles p (.error e)) :
    Settles (fun fuel => p fuel >>= fun a => q a fuel) (.error e) := by
  obtain ⟨bound, run⟩ := first
  refine ⟨bound, ?_⟩
  intro fuel enough
  dsimp only
  rw [run fuel enough]
  rfl

theorem Settles.ok_ends (settles : Settles p (.ok a)) : Ends p :=
  ⟨.ok a, by simp, settles⟩

theorem Ends.error {e : ε} : Ends fun _ => (.error e : Fueled ε α) :=
  ⟨.error e, by simp, .const⟩

theorem Ends.ok : Ends fun _ => (.ok a : Fueled ε α) :=
  Settles.const.ok_ends

theorem Ends.succ (ends : Ends fun fuel => p (fuel + 1)) : Ends p := by
  obtain ⟨r, result, settles⟩ := ends
  exact ⟨r, result, settles.succ⟩

theorem Ends.bind (first : Ends p) (next : ∀ a, Settles p (.ok a) → Ends (q a)) :
    Ends fun fuel => p fuel >>= fun a => q a fuel := by
  obtain ⟨r, result, settles⟩ := first
  cases r with
  | out => exact absurd rfl result
  | error e => exact ⟨.error e, by simp, settles.bind_error⟩
  | ok a =>
    obtain ⟨s, result, settles'⟩ := next a settles
    exact ⟨s, result, settles.bind_ok settles'⟩

end Fueled
