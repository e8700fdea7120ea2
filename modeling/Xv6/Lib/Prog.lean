/-!
# Programs of atomic steps

`Prog ℓ σ ε α` is a program over a state `σ` whose result is an `α`: a sequence of atomic
steps, each of which looks at the state and waits, stops with an error of `ε`, or changes
the state and hands a value to the rest of the program. Every step has a label of `ℓ`,
which says what kind of step it is.

The same program has two readings. `run` executes it alone, from its first step to its
last. A system of several processes can instead execute a step of one program and then
a step of another, as each program is its first step and what follows.

There are three judgements on programs, each with a rule for a sequence of two.
`Ends E Q p s` says how `p` can end if it runs alone from `s`; `p.Within R` says that each
of its steps stays within the relation `R`, whatever happens between them; and
`p.Follows δ ok T m m'` says that its labels are accepted by the automaton `δ` on the way
from `m` to `m'`.
-/

/-- A program: steps that wait (`none`), fail, or give a value and a new state. -/
inductive Prog (ℓ σ ε α : Type) : Type 1
  | pure (a : α)
  | act {β : Type} (label : ℓ) (f : σ → Option (Except ε (β × σ))) (k : β → Prog ℓ σ ε α)

namespace Prog

variable {ℓ σ τ ε α β μ : Type}

def bind : Prog ℓ σ ε α → (α → Prog ℓ σ ε β) → Prog ℓ σ ε β
  | .pure a, next => next a
  | .act label f k, next => .act label f fun b => (k b).bind next

instance : Monad (Prog ℓ σ ε) where
  pure := .pure
  bind := .bind

/-- A program of one step. -/
def atomic (label : ℓ) (f : σ → Option (Except ε (α × σ))) : Prog ℓ σ ε α := .act label f .pure

/-- Read something off the state. -/
def read (label : ℓ) (g : σ → α) : Prog ℓ σ ε α := .atomic label fun s => some (.ok (g s, s))

def modify (label : ℓ) (g : σ → σ) : Prog ℓ σ ε Unit := .atomic label fun s => some (.ok ((), g s))

def fail (label : ℓ) (e : ε) : Prog ℓ σ ε α := .atomic label fun _ => some (.error e)

/-- A step on a part of the state. -/
def zoomStep (get : τ → σ) (put : σ → τ → τ) (f : σ → Option (Except ε (α × σ))) (t : τ) :
    Option (Except ε (α × τ)) :=
  match f (get t) with
  | none => none
  | some (.error e) => some (.error e)
  | some (.ok (a, s)) => some (.ok (a, put s t))

/-- A program on a part of the state. -/
def zoom (get : τ → σ) (put : σ → τ → τ) : Prog ℓ σ ε α → Prog ℓ τ ε α
  | .pure a => .pure a
  | .act label f k => .act label (zoomStep get put f) fun b => (k b).zoom get put

/-- What a program does alone; `none` if it waits for ever. -/
def run : Prog ℓ σ ε α → σ → Option (Except ε (α × σ))
  | .pure a, s => some (.ok (a, s))
  | .act _ f k, s =>
    match f s with
    | none => none
    | some (.error e) => some (.error e)
    | some (.ok (b, s)) => (k b).run s

/-! ## How a program ends -/

/-- How a step can end: it waits or fails as `E` allows, or its value and state meet `Q`. -/
def StepEnds (E : Option ε → Prop) (Q : α → σ → Prop) : Option (Except ε (α × σ)) → Prop
  | none => E none
  | some (.error e) => E (some e)
  | some (.ok (a, s)) => Q a s

/-- How a program can end that runs alone. -/
def Ends (E : Option ε → Prop) (Q : α → σ → Prop) : Prog ℓ σ ε α → σ → Prop
  | .pure a, s => Q a s
  | .act _ f k, s => StepEnds E (fun b => (k b).Ends E Q) (f s)

variable {E E' : Option ε → Prop} {Q Q' : α → σ → Prop} {R : β → σ → Prop} {s : σ}
  {p : Prog ℓ σ ε α} {next : α → Prog ℓ σ ε β}

theorem StepEnds.mono {x : Option (Except ε (α × σ))} (ends : StepEnds E Q x)
    (errors : ∀ e, E e → E' e) (values : ∀ a s, Q a s → Q' a s) : StepEnds E' Q' x := by
  match x, ends with
  | none, ends | some (.error _), ends => exact errors _ ends
  | some (.ok _), ends => exact values _ _ ends

theorem Ends.mono (ends : p.Ends E Q s) (errors : ∀ e, E e → E' e)
    (values : ∀ a s, Q a s → Q' a s) : p.Ends E' Q' s := by
  induction p generalizing s with
  | pure a => exact values _ _ ends
  | act label f k ih => exact StepEnds.mono (x := f s) ends errors fun b s rest => ih b rest

theorem Ends.imp (ends : p.Ends E Q s) (values : ∀ a s, Q a s → Q' a s) : p.Ends E Q' s :=
  ends.mono (fun _ holds => holds) values

theorem Ends.bind (first : p.Ends E Q s) (rest : ∀ a s, Q a s → (next a).Ends E R s) :
    (p >>= next).Ends E R s := by
  induction p generalizing s with
  | pure a => exact rest a s first
  | act label f k ih =>
    exact StepEnds.mono (x := f s) first (fun _ allowed => allowed) fun b s more => ih b more

theorem Ends.atomic {label : ℓ} {f : σ → Option (Except ε (α × σ))} (ends : StepEnds E Q (f s)) :
    (Prog.atomic label f).Ends E Q s := ends

theorem Ends.after_read {label : ℓ} {g : σ → α} (rest : (next (g s)).Ends E R s) :
    (Prog.read label g >>= next).Ends E R s := rest

theorem Ends.run (ends : p.Ends E Q s) : StepEnds E Q (p.run s) := by
  induction p generalizing s with
  | pure a => exact ends
  | act label f k ih =>
    unfold Prog.run
    unfold Prog.Ends at ends
    match f s, ends with
    | none, ends | some (.error _), ends => exact ends
    | some (.ok _), ends => exact ih _ ends

theorem Ends.zoom {get : τ → σ} {put : σ → τ → τ} {t : τ} (get_put : ∀ s t, get (put s t) = s)
    (put_put : ∀ s s' t, put s (put s' t) = put s t) (put_get : ∀ t, put (get t) t = t)
    (ends : p.Ends E Q (get t)) :
    (p.zoom get put).Ends E (fun a t' => ∃ s, Q a s ∧ t' = put s t) t := by
  induction p generalizing t with
  | pure a => exact ⟨get t, ends, (put_get t).symm⟩
  | act label f k ih =>
    unfold Prog.Ends at ends
    unfold Prog.zoom Prog.Ends zoomStep
    match f (get t), ends with
    | none, ends | some (.error _), ends => exact ends
    | some (.ok (b, s)), ends =>
      refine (ih b (t := put s t) ?_).imp ?_
      · rw [get_put]
        exact ends
      · rintro a t' ⟨s', holds, rfl⟩
        exact ⟨s', holds, put_put _ _ _⟩

/-! ## What every step does -/

/-- Every step stays within `R`, whatever happens between the steps. -/
def Within (R : σ → σ → Prop) : Prog ℓ σ ε α → Prop
  | .pure _ => True
  | .act _ f k => (∀ s b s', f s = some (.ok (b, s')) → R s s') ∧ ∀ b, (k b).Within R

section Within

variable {T : σ → σ → Prop}

theorem Within.bind (first : p.Within T) (rest : ∀ a, (next a).Within T) :
    (p >>= next).Within T := by
  induction p with
  | pure a => exact rest a
  | act label f k ih => exact ⟨first.1, fun b => ih b (first.2 b)⟩

theorem Within.pure (a : α) : (Pure.pure a : Prog ℓ σ ε α).Within T := trivial

theorem Within.atomic {label : ℓ} {f : σ → Option (Except ε (α × σ))}
    (step : ∀ s a s', f s = some (.ok (a, s')) → T s s') : (Prog.atomic label f).Within T :=
  ⟨step, fun _ => trivial⟩

theorem Within.modify {label : ℓ} {g : σ → σ} (step : ∀ s, T s (g s)) :
    (Prog.modify label g : Prog ℓ σ ε Unit).Within T := by
  refine Within.atomic fun s a s' stepped => ?_
  cases stepped
  exact step s

theorem Within.ends (steps : p.Within T) (refl : ∀ s, T s s)
    (trans : ∀ s s' s'', T s s' → T s' s'' → T s s'') (s : σ) :
    p.Ends (fun _ => True) (fun _ s' => T s s') s := by
  induction p generalizing s with
  | pure a => exact refl s
  | act label f k ih =>
    have here := steps.1 s
    unfold Ends
    match f s, here with
    | none, _ | some (.error _), _ => trivial
    | some (.ok (b, s')), here =>
      exact (ih b (steps.2 b) s').imp fun _ s'' more => trans _ _ _ (here b s' rfl) more

end Within

/-! ## The order of the labels -/

/-- The labels take the automaton `δ` from `m` to `m'`, and each step relates the state before
it to what it gives by `T`. Only the results of a step from states with `ok` count. -/
def Follows (δ : μ → ℓ → Option μ) (ok : μ → ℓ → σ → Prop) (T : ℓ → σ → Except ε σ → Prop) :
    Prog ℓ σ ε α → μ → μ → Prop
  | .pure _, m, m' => m = m'
  | .act label f k, m, m' => ∃ m1, δ m label = some m1 ∧
      (∀ s x, f s = some x → T label s (x.map Prod.snd)) ∧
      ∀ s b s', ok m label s → f s = some (.ok (b, s')) → (k b).Follows δ ok T m1 m'

section Follows

variable {δ : μ → ℓ → Option μ} {ok : μ → ℓ → σ → Prop} {T : ℓ → σ → Except ε σ → Prop}
  {m m1 m' : μ}

theorem Follows.bind (first : p.Follows δ ok T m m1) (rest : ∀ a, (next a).Follows δ ok T m1 m') :
    (p >>= next).Follows δ ok T m m' := by
  induction p generalizing m with
  | pure a =>
    cases first
    exact rest a
  | act label f k ih =>
    obtain ⟨m2, moves, steps, more⟩ := first
    exact ⟨m2, moves, steps, fun s b s' allowed stepped => ih b (more s b s' allowed stepped)⟩

theorem Follows.pure (a : α) : (Pure.pure a : Prog ℓ σ ε α).Follows δ ok T m m := rfl

theorem Follows.atomic {label : ℓ} {f : σ → Option (Except ε (α × σ))}
    (moves : δ m label = some m') (steps : ∀ s x, f s = some x → T label s (x.map Prod.snd)) :
    (Prog.atomic label f).Follows δ ok T m m' :=
  ⟨m', moves, steps, fun _ _ _ _ _ => rfl⟩

theorem Follows.zoom {get : τ → σ} {put : σ → τ → τ} {U : ℓ → τ → Except ε τ → Prop}
    (errors : ∀ {label t e}, T label (get t) (.error e) → U label t (.error e))
    (states : ∀ {label t s}, T label (get t) (.ok s) → U label t (.ok (put s t)))
    (follows : p.Follows δ ok T m m') :
    (p.zoom get put).Follows δ (fun m label t => ok m label (get t)) U m m' := by
  induction p generalizing m with
  | pure a => exact follows
  | act label f k ih =>
    obtain ⟨m1, moves, steps, more⟩ := follows
    refine ⟨m1, moves, fun t x stepped => ?_, fun t b t' allowed stepped => ?_⟩
    · have step := steps (get t)
      unfold zoomStep at stepped
      split at stepped
      · cases stepped
      · next e found =>
        cases stepped
        exact errors (step _ found)
      · next a s found =>
        cases stepped
        exact states (step _ found)
    · unfold zoomStep at stepped
      split at stepped
      · cases stepped
      · cases stepped
      · next a s found =>
        cases stepped
        exact ih b (more _ _ _ allowed found)

end Follows

end Prog
