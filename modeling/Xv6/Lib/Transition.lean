import Mathlib.Order.Basic

/-!
# Labelled transition systems and their runs

The vocabulary the concurrent models of this development share. `Lts` is a
labelled transition system; `Lts.ReachableWhen ok` is reachability by steps that
all meet a condition `ok` on the state before the step and its label, and
`Lts.Reachable` is the unconditional case. Safety results are proved by one
induction rule, `Lts.ReachableWhen.invariant`.

A property of a whole run ("since that call began") is a property of a state of
`Lts.observed`, the same system with a history carried beside its state: the
history reads the steps and never influences them.

`Lts.ofExec` is the system of an executable step function, and
`Lts.ReachableWhen.of_exec` turns an evaluated list of labels into a reachable
state.
-/

universe u v

/-- A transition system with labelled steps. -/
structure Lts (σ : Type u) (α : Type v) where
  init : σ → Prop
  step : σ → α → σ → Prop

namespace Lts

variable {σ : Type u} {α : Type v} {η : Type}

/-- Reachability from an initial state by steps that all meet `ok`. -/
inductive ReachableWhen (M : Lts σ α) (ok : σ → α → Prop) : σ → Prop
  | init {s : σ} : M.init s → ReachableWhen M ok s
  | step {s s' : σ} {a : α} :
    ReachableWhen M ok s → ok s a → M.step s a s' → ReachableWhen M ok s'

/-- Reachability by any steps of the system. -/
def Reachable (M : Lts σ α) : σ → Prop :=
  M.ReachableWhen fun _ _ => True

variable {M : Lts σ α} {ok ok' : σ → α → Prop} {s s' : σ}

/-- **The invariant rule**: what holds initially and is kept by every admitted
step holds in every state reached. -/
theorem ReachableWhen.invariant {P : σ → Prop} (reach : M.ReachableWhen ok s)
    (base : ∀ s, M.init s → P s) (ind : ∀ s a s', P s → ok s a → M.step s a s' → P s') : P s := by
  induction reach with
  | init start => exact base _ start
  | step _ allowed step ih => exact ind _ _ _ ih allowed step

theorem ReachableWhen.imp (reach : M.ReachableWhen ok s) (weaker : ∀ s a, ok s a → ok' s a) :
    M.ReachableWhen ok' s := by
  induction reach with
  | init start => exact .init start
  | step _ allowed step ih => exact .step ih (weaker _ _ allowed) step

theorem Reachable.invariant {P : σ → Prop} (reach : M.Reachable s) (base : ∀ s, M.init s → P s)
    (ind : ∀ s a s', P s → M.step s a s' → P s') : P s :=
  ReachableWhen.invariant reach base fun s a s' holds _ => ind s a s' holds

/-! ## Histories -/

/-- The system with a history beside its state. The history starts as `h0` and
`note` extends it by what one step shows. -/
def observed (M : Lts σ α) (h0 : η) (note : η → σ → α → η) : Lts (σ × η) α where
  init x := M.init x.1 ∧ x.2 = h0
  step x a y := M.step x.1 a y.1 ∧ y.2 = note x.2 x.1 a

theorem ReachableWhen.of_observed {h0 : η} {note : η → σ → α → η} {x : σ × η}
    (reach : (M.observed h0 note).ReachableWhen (fun x a => ok x.1 a) x) :
    M.ReachableWhen ok x.1 := by
  induction reach with
  | init start => exact .init start.1
  | step _ allowed step ih => exact .step ih allowed step.1

theorem Reachable.of_observed {h0 : η} {note : η → σ → α → η} {x : σ × η}
    (reach : (M.observed h0 note).Reachable x) : M.Reachable x.1 :=
  ReachableWhen.of_observed reach

/-! ## Executable systems

The label of an executable step is the chosen action and what the step shows. -/

/-- The system of an executable step function. -/
def ofExec {β ω : Type} (start : σ → Prop) (exec : σ → β → Option (σ × ω)) :
    Lts σ (β × ω) where
  init := start
  step s l s' := exec s l.1 = some (s', l.2)

/-- Replay a list of actions, checking `ok` before each and keeping the history. -/
def replay {β ω : Type} (exec : σ → β → Option (σ × ω)) (ok : σ → β × ω → Prop)
    [∀ s l, Decidable (ok s l)] (note : η → σ → β × ω → η) :
    List β → σ × η → Option (σ × η)
  | [], x => some x
  | a :: rest, x =>
    match exec x.1 a with
    | none => none
    | some (s, o) =>
      if ok x.1 (a, o) then replay exec ok note rest (s, note x.2 x.1 (a, o)) else none

theorem ReachableWhen.of_replay {β ω : Type} {start : σ → Prop}
    {exec : σ → β → Option (σ × ω)} (ok : σ → β × ω → Prop) [∀ s l, Decidable (ok s l)]
    {h0 : η} {note : η → σ → β × ω → η} {actions : List β} :
    ∀ {x y : σ × η},
      ((ofExec start exec).observed h0 note).ReachableWhen (fun x l => ok x.1 l) x →
      replay exec ok note actions x = some y →
      ((ofExec start exec).observed h0 note).ReachableWhen (fun x l => ok x.1 l) y := by
  induction actions with
  | nil =>
    intro x y reach run
    cases run
    exact reach
  | cons a rest ih =>
    intro x y reach run
    unfold replay at run
    split at run
    · cases run
    rename_i s o stepped
    split at run
    · next allowed =>
      refine ih (.step (a := (a, o)) reach allowed ?_) run
      exact ⟨stepped, rfl⟩
    · cases run

theorem ReachableWhen.of_run {β ω : Type} {start : σ → Prop} {exec : σ → β → Option (σ × ω)}
    {ok : σ → β × ω → Prop} [∀ s l, Decidable (ok s l)] {actions : List β} {x : σ} {y : σ × Unit}
    (first : start x) (run : replay exec ok (fun h _ _ => h) actions (x, ()) = some y) :
    (ofExec start exec).ReachableWhen ok y.1 := by
  have first : ((ofExec start exec).observed () (fun h _ _ => h)).ReachableWhen
      (fun x l => ok x.1 l) (x, ()) := .init ⟨first, rfl⟩
  exact (of_replay ok first run).of_observed

section Replay

variable {β ω : Type} {start : σ → Prop} {exec : σ → β → Option (σ × ω)} {s : σ}

/-- A replay that ends in a state with a property shows that there is such a run. -/
theorem exists_of_replay (ok : σ → β × ω → Prop) [∀ s l, Decidable (ok s l)] {h0 : η}
    {note : η → σ → β × ω → η} (first : start s) (actions : List β) {P : σ × η → Prop}
    [DecidablePred P] (shown : (replay exec ok note actions (s, h0)).any (fun y => P y) = true) :
    ∃ y, ((ofExec start exec).observed h0 note).ReachableWhen (fun x l => ok x.1 l) y ∧ P y := by
  obtain ⟨y, run, holds⟩ := (Option.any_eq_true _ _).mp shown
  have first : ((ofExec start exec).observed h0 note).ReachableWhen (fun x l => ok x.1 l) (s, h0) :=
    .init ⟨first, rfl⟩
  exact ⟨y, .of_replay ok first run, of_decide_eq_true holds⟩

theorem exists_of_run {ok : σ → β × ω → Prop} [∀ s l, Decidable (ok s l)] {P : σ → Prop}
    [DecidablePred P] (first : start s) (actions : List β)
    (shown : (replay exec ok (fun h _ _ => h) actions (s, ())).any (fun y => P y.1) = true) :
    ∃ y, (ofExec start exec).ReachableWhen ok y ∧ P y := by
  obtain ⟨y, reach, holds⟩ := exists_of_replay ok first actions shown
  exact ⟨y.1, reach.of_observed, holds⟩

end Replay

end Lts
