/-!
# Outcomes of fallible computations

`Ends E Q x` says how the computation `x` can end: with a value that satisfies
`Q`, or with an error that satisfies `E`. The rules follow the computation: a
value, an error, a sequence of two, and weakening.
-/

namespace Outcome

variable {ε α β : Type}

/-- A successful result satisfies `Q` and an error satisfies `E`. -/
inductive Ends (E : ε → Prop) (Q : α → Prop) : Except ε α → Prop
  | ok {a : α} (holds : Q a) : Ends E Q (.ok a)
  | error {e : ε} (holds : E e) : Ends E Q (.error e)

variable {E E' : ε → Prop} {Q Q' : α → Prop} {R : β → Prop} {x : Except ε α}
  {f : α → Except ε β}

theorem ok_of_toOption (is : x.toOption = some a) : x = .ok a := by
  cases x with
  | error => cases is
  | ok => exact congrArg _ (Option.some.inj is)

theorem Ends.value (ends : Ends E Q (.ok a)) : Q a := by
  cases ends
  assumption

theorem Ends.failure (ends : Ends E Q (.error e)) : E e := by
  cases ends
  assumption

theorem Ends.bind (first : Ends E Q x) (next : ∀ a, Q a → Ends E R (f a)) : Ends E R (x >>= f) := by
  cases first with
  | ok holds => exact next _ holds
  | error holds => exact .error holds

theorem Ends.bind_ok (run : x = .ok a) (next : Ends E R (f a)) : Ends E R (x >>= f) := by
  rw [run]
  exact next

theorem Ends.trivial (x : Except ε α) : Ends (fun _ => True) (fun _ => True) x := by
  cases x with
  | ok a => exact .ok True.intro
  | error e => exact .error True.intro

theorem Ends.map (ends : Ends E Q x) (values : ∀ a, Q a → R (g a)) : Ends E R (g <$> x) := by
  cases ends with
  | ok holds => exact .ok (values _ holds)
  | error holds => exact .error holds

theorem Ends.mono (ends : Ends E Q x) (errors : ∀ e, E e → E' e) (values : ∀ a, Q a → Q' a) :
    Ends E' Q' x := by
  cases ends with
  | ok holds => exact .ok (values _ holds)
  | error holds => exact .error (errors _ holds)

theorem Ends.both (one : Ends E Q x) (two : Ends E' Q' x) :
    Ends (fun e => E e ∧ E' e) (fun a => Q a ∧ Q' a) x := by
  cases one with
  | ok holds => exact .ok ⟨holds, two.value⟩
  | error holds => exact .error ⟨holds, two.failure⟩

theorem Ends.errors (ends : Ends E Q x) (errors : ∀ e, E e → E' e) : Ends E' Q x :=
  ends.mono errors fun _ holds => holds

theorem Ends.imp (ends : Ends E Q x) (values : ∀ a, Q a → Q' a) : Ends E Q' x :=
  ends.mono (fun _ holds => holds) values

end Outcome
