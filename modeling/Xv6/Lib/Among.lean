import Xv6.Lib.Prog

/-!
# Programs among others

A program that runs while others change the state. A `Setting` says what the others may do
between two steps, and what is noted of each step in a history, on which this may depend. The
history never influences the program.

`p.Reaches S s h q s' h'` says that `p` gets to `q`, in the state `s'` and with the history
`h'`. The judgement `Safe S G Q p s h` says that every history on the way meets `G`, and that
the value, the state and the history at the end meet `Q`; it has a rule for sequences, as the
other judgements on programs have. `Each P` says what each step of a program is.
-/

namespace Prog

variable {ℓ σ τ ε η α β : Type}

/-- What others may do between the steps of a program, and what is noted of the steps. -/
structure Setting (ℓ σ ε η : Type) where
  rely : η → σ → σ → Prop
  note : {β : Type} → ℓ → (σ → Option (Except ε (β × σ))) → σ → η → η
  refl : ∀ h s, rely h s s
  trans : ∀ h s s' s'', rely h s s' → rely h s' s'' → rely h s s''

/-- The program gets somewhere, by steps of its own and of others. -/
inductive Reaches (S : Setting ℓ σ ε η) (p : Prog ℓ σ ε α) (s : σ) (h : η) :
    Prog ℓ σ ε α → σ → η → Prop
  | refl : Reaches S p s h p s h
  | others {q : Prog ℓ σ ε α} {s' s'' : σ} {h' : η} :
    Reaches S p s h q s' h' → S.rely h' s' s'' → Reaches S p s h q s'' h'
  | step {β : Type} {label : ℓ} {f : σ → Option (Except ε (β × σ))} {k : β → Prog ℓ σ ε α}
      {b : β} {s' s'' : σ} {h' : η} :
    Reaches S p s h (.act label f k) s' h' → f s' = some (.ok (b, s'')) →
    Reaches S p s h (k b) s'' (S.note label f s' h')

/-- The next `n` steps of the program, while the others do nothing. -/
def follow (S : Setting ℓ σ ε η) : Nat → Prog ℓ σ ε α × σ × η → Option (Prog ℓ σ ε α × σ × η)
  | 0, x => some x
  | n + 1, (.act label f k, s, h) =>
    match f s with
    | some (.ok (b, s')) => follow S n (k b, s', S.note label f s h)
    | _ => none
  | _ + 1, (.pure _, _, _) => none

theorem Reaches.follow {S : Setting ℓ σ ε η} {p : Prog ℓ σ ε α} {s : σ} {h : η} (n : Nat)
    {x y : Prog ℓ σ ε α × σ × η} (reach : p.Reaches S s h x.1 x.2.1 x.2.2)
    (follows : Prog.follow S n x = some y) : p.Reaches S s h y.1 y.2.1 y.2.2 := by
  induction n generalizing x with
  | zero =>
    cases follows
    exact reach
  | succ n ih =>
    obtain ⟨q, s', h'⟩ := x
    cases q with
    | pure a => cases follows
    | act label f k =>
      unfold Prog.follow at follows
      split at follows
      · next stepped => exact ih (.step reach stepped) follows
      · cases follows

/-- Every history meets `G`, and the end `Q`. -/
def Safe (S : Setting ℓ σ ε η) (G : η → Prop) (Q : α → σ → η → Prop) :
    Prog ℓ σ ε α → σ → η → Prop
  | .pure a, s, h => G h ∧ ∀ s', S.rely h s s' → Q a s' h
  | .act label f k, s, h => G h ∧ ∀ s', S.rely h s s' → ∀ b s'', f s' = some (.ok (b, s'')) →
      (k b).Safe S G Q s'' (S.note label f s' h)

section Safe

variable {S : Setting ℓ σ ε η} {G G' : η → Prop} {Q Q' : α → σ → η → Prop} {R : β → σ → η → Prop}
  {p q : Prog ℓ σ ε α} {next : α → Prog ℓ σ ε β} {s s' : σ} {h h' : η}

section

variable (safe : p.Safe S G Q s h)

include safe

theorem Safe.here : G h := by
  cases p with
  | pure a | act label f k => exact safe.1

theorem Safe.others (rely : S.rely h s s') : p.Safe S G Q s' h := by
  cases p with
  | pure a | act label f k =>
    exact ⟨safe.1, fun s'' later => safe.2 s'' (S.trans _ _ _ _ rely later)⟩

/-- **Soundness**: a safe program meets `G` wherever it gets. -/
theorem Safe.reaches (reach : p.Reaches S s h q s' h') : G h' := by
  have later : q.Safe S G Q s' h' := by
    induction reach with
    | refl => exact safe
    | others _ rely ih => exact ih.others rely
    | step _ stepped ih => exact ih.2 _ (S.refl _ _) _ _ stepped
  exact later.here

theorem Safe.mono (histories : ∀ h, G h → G' h)
    (values : ∀ a s h, Q a s h → Q' a s h) : p.Safe S G' Q' s h := by
  induction p generalizing s h with
  | pure a => exact ⟨histories _ safe.1, fun s' rely => values _ _ _ (safe.2 s' rely)⟩
  | act label f k ih =>
    exact ⟨histories _ safe.1, fun s' rely b s'' stepped => ih b (safe.2 s' rely b s'' stepped)⟩

theorem Safe.imp (values : ∀ a s h, Q a s h → Q' a s h) :
    p.Safe S G Q' s h :=
  safe.mono (fun _ holds => holds) values

end

theorem Safe.bind (first : p.Safe S G Q s h) (rest : ∀ a s h, Q a s h → (next a).Safe S G R s h) :
    (p >>= next).Safe S G R s h := by
  induction p generalizing s h with
  | pure a => exact rest a s h (first.2 s (S.refl _ _))
  | act label f k ih =>
    exact ⟨first.1, fun s' rely b s'' stepped => ih b (first.2 s' rely b s'' stepped)⟩

theorem Safe.pure (here : G h) (holds : ∀ s', S.rely h s s' → Q a s' h) :
    (Pure.pure a : Prog ℓ σ ε α).Safe S G Q s h :=
  ⟨here, holds⟩

theorem Safe.atomic (here : G h)
    (step : ∀ s', S.rely h s s' → ∀ a s'', f s' = some (.ok (a, s'')) →
      G (S.note label f s' h) ∧
        ∀ s3, S.rely (S.note label f s' h) s'' s3 → Q a s3 (S.note label f s' h)) :
    (Prog.atomic label f).Safe S G Q s h :=
  ⟨here, fun s' rely b s'' stepped => step s' rely b s'' stepped⟩

theorem Safe.trivial (all : ∀ h, G h) (p : Prog ℓ σ ε α) (s : σ) (h : η) :
    p.Safe S G (fun _ _ _ => True) s h := by
  induction p generalizing s h with
  | pure a => exact ⟨all h, fun _ _ => True.intro⟩
  | act label f k ih => exact ⟨all h, fun s' _ b s'' _ => ih b s'' _⟩

end Safe

/-! ## What each step is -/

/-- All steps of the program meet `P`. -/
def Each (P : {β : Type} → ℓ → (σ → Option (Except ε (β × σ))) → Prop) : Prog ℓ σ ε α → Prop
  | .pure _ => True
  | .act label f k => P label f ∧ ∀ b, (k b).Each P

section Each

variable {P : {β : Type} → ℓ → (σ → Option (Except ε (β × σ))) → Prop} {p : Prog ℓ σ ε α}
  {next : α → Prog ℓ σ ε β}

theorem Each.bind (first : p.Each P) (rest : ∀ a, (next a).Each P) : (p >>= next).Each P := by
  induction p with
  | pure a => exact rest a
  | act label f k ih => exact ⟨first.1, fun b => ih b (first.2 b)⟩

theorem Each.pure (a : α) : (Pure.pure a : Prog ℓ σ ε α).Each P := True.intro

theorem Each.atomic (is : P label f) : (Prog.atomic label f).Each P :=
  ⟨is, fun _ => True.intro⟩

end Each

end Prog
