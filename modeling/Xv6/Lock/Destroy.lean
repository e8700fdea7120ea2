import Xv6.Lock.Sound

/-!
# Acquisitions across a destroyed slot

`sys_lock_acquire` tests `used` once, before its `while` loop, and
`sys_lock_destroy` neither waits for sleeping waiters nor wakes them. A waiter
that is woken after its slot was destroyed finds `locked` clear and takes a lock
that is not allocated, or that belongs to a later `lock_create`
(`acquire_after_destroy`).

`Destroyed` is the history that says so: for each process inside a
`lock_acquire(id)`, whether slot `id` was destroyed since that call began. As long
as no slot is destroyed while a process is inside a `lock_acquire` of it
(`QuietDestroy`), every acquisition takes the lock it was asked for.
-/

namespace Xv6.Lock

/-- The slot of the `lock_acquire` a process is inside. -/
def Pc.acquires : Pc → Option Id
  | .acquire id | .acquireLocked id | .acquireTest id | .sleepHeld id | .sleepFree id
  | .asleep id | .reacquire id => some id
  | _ => none

/-- The slot of the `lock_acquire` a process is inside, past its test of `used`. -/
def Pc.waits : Pc → Option Id
  | .acquireTest id | .sleepHeld id | .sleepFree id | .asleep id | .reacquire id => some id
  | _ => none

/-- For each process inside a `lock_acquire`, whether its slot was destroyed since
the call began. -/
abbrev Destroyed := Slot → Bool

def Destroyed.note (d : Destroyed) (s : State) : Label → Destroyed
  | (.call p (.acquire _), none) => Function.update d p false
  | (_, some (.destroyed _ id)) => fun q => d q || (s.pc q).acquires == some id
  | _ => d

def destroying : Lts (State × Destroyed) Label :=
  system.observed (fun _ => false) Destroyed.note

/-- No lock is held in a slot that is not allocated, and a `lock_acquire(id)` that
succeeds finds slot `id` allocated and not destroyed since the call began. -/
def TakesAskedLock (x : State × Destroyed) : Prop :=
  (∀ id, (x.1.locks id).locked = true → (x.1.locks id).used = true) ∧
    ∀ l y, destroying.step x l y → ∀ p id, l.2 = some (.acquired p id) →
      (x.1.locks id).used = true ∧ (y.1.locks id).used = true ∧ x.2 p = false

/-- The slot a step is about to destroy. -/
def destroys (s : State) : Action → Option Id
  | .run p =>
    match s.pc p with
    | .destroyLocked id => if (s.locks id).used then some id else none
    | _ => none
  | _ => none

/-- The condition on one step: a `lock_destroy(id)` about to succeed finds no
process inside a `lock_acquire(id)`. -/
def QuietDestroy (s : State) (l : Label) : Prop :=
  ∀ id ∈ destroys s l.1, ∀ q, (s.pc q).acquires ≠ some id
  deriving Decidable

theorem destroys_run {id : Id} (point : s.pc p = .destroyLocked id)
    (used : (s.locks id).used = true) : destroys s (.run p) = some id := by
  simp [destroys, point, used]

/-! ## The failing run -/

/-- Process 0 takes lock 0, process 1 sleeps waiting for it, process 0 destroys
the slot, and a kill wakes process 1, which is about to test `locked`. -/
def destroyedWhileWaiting : List Action :=
  takesLock ++ [.call 1 (.acquire 0), .run 1, .run 1, .run 1, .run 1, .run 1,
    .call 0 (.destroy 0), .run 0, .run 0, .kill 1, .dispatch 1, .run 1, .run 1]

/-- The woken waiter takes the lock of a slot that is not allocated. -/
theorem acquire_after_destroy : ¬ ∀ x, destroying.Reachable x → TakesAskedLock x := by
  intro always
  obtain ⟨x, reach, unused, locked⟩ : ∃ x, destroying.Reachable x ∧ (x.1.locks 0).used = false ∧
      (x.1.locks 0).locked = true :=
    Lts.exists_of_replay (fun _ _ => True) (by rfl) (destroyedWhileWaiting ++ [.run 1])
      (by decide +kernel)
  have used := (always x reach).1 0 locked
  rw [unused] at used
  cases used

/-! ## Runs without such a destroy -/

/-- The invariant of the runs that meet `QuietDestroy`. -/
structure Undestroyed (s : State) (d : Destroyed) : Prop where
  locked : ∀ id, (s.locks id).locked = true → (s.locks id).used = true
  waiting : ∀ p id, (s.pc p).waits = some id → (s.locks id).used = true
  acquiring : ∀ p id, (s.pc p).acquires = some id → d p = false

theorem Pc.acquires_of_waits {pc : Pc} {id : Id} (waits : pc.waits = some id) :
    pc.acquires = some id := by
  cases pc <;> simp_all [Pc.waits, Pc.acquires]

theorem Pc.acquires_of_spins {pc pc' : Pc} {id : Id} (spins : pc.spins = some (id, pc')) :
    pc'.acquires = pc.acquires ∧ pc'.waits = pc.waits := by
  cases pc <;> simp only [Pc.spins, Option.some.injEq, Prod.mk.injEq, reduceCtorEq] at spins
  all_goals
    obtain ⟨rfl, rfl⟩ := spins
    exact ⟨rfl, rfl⟩

variable {s s' : State} {p : Slot} {e : Option Effect} {l : Label} {d : Destroyed}

theorem RunStep.undestroyed (inv : Undestroyed s d) (quiet : QuietDestroy s (.run p, e))
    (step : RunStep s p s' e) : Undestroyed s' (d.note s (.run p, e)) := by
  obtain ⟨locked, waiting, acquiring⟩ := inv
  cases step with
  | lock spins free =>
    obtain ⟨sameAcquires, sameWaits⟩ := Pc.acquires_of_spins spins
    show Undestroyed _ d
    exact ⟨by grind -ring -linarith, by grind -ring -linarith, by grind -ring -linarith⟩
  | @destroyed id point used =>
    -- nobody is inside a `lock_acquire` of the slot that goes away
    have nobody := quiet id (destroys_run point used)
    have nobodyWaits : ∀ q, (s.pc q).waits ≠ some id := fun q waits =>
      nobody q (Pc.acquires_of_waits waits)
    show Undestroyed _ fun q => d q || (s.pc q).acquires == some id
    refine ⟨by grind -ring -linarith, ?_, ?_⟩
    · grind -ring -linarith [Pc.waits]
    · grind -ring -linarith [Pc.acquires]
  | _ =>
    show Undestroyed _ d
    refine ⟨?_, ?_, ?_⟩
    · grind -ring -linarith [Pc.waits]
    · grind -ring -linarith [Pc.waits]
    · grind -ring -linarith [Pc.acquires]

theorem Undestroyed.enter (inv : Undestroyed s d) (entry : c.Enters pc) :
    Undestroyed (s.setPc p pc) (d.note s (.call p c, none)) := by
  obtain ⟨locked, waiting, acquiring⟩ := inv
  rcases entry with ⟨rfl, rfl⟩ | ⟨_, _, -, ⟨rfl, rfl⟩ | ⟨rfl, rfl⟩ | ⟨rfl, rfl⟩⟩
  all_goals
    simp only [Destroyed.note]
    refine ⟨by grind, ?_, ?_⟩
    · grind [Pc.waits]
    · grind [Pc.acquires, Function.update_apply]

theorem Step.undestroyed (inv : Undestroyed s d) (quiet : QuietDestroy s l)
    (step : Step s l s') : Undestroyed s' (d.note s l) := by
  cases step with
  | run running step => exact step.undestroyed inv quiet
  | enter running atUser entry => exact inv.enter entry
  | @refused p c =>
    have unchanged : d.note s (.call p c, some (.failed p)) = d := by
      cases c <;> rfl
    rw [unchanged]
    exact inv
  | _ => exact ⟨inv.locked, inv.waiting, inv.acquiring⟩

theorem undestroyed_of_reachable
    (reach : destroying.ReachableWhen (fun x l => QuietDestroy x.1 l) x) : Undestroyed x.1 x.2 := by
  refine reach.invariant (P := fun x => Undestroyed x.1 x.2) ?_ ?_
  · rintro ⟨s, d⟩ ⟨rfl, rfl⟩
    constructor <;> simp [boot, Pc.waits, Pc.acquires]
  · intro x l y inv quiet step
    rw [step.2]
    exact Step.undestroyed inv quiet (.of_exec step.1)

/-- **An acquisition takes the lock it asked for**, in every run in which no slot
is destroyed while a process is inside a `lock_acquire` of it. -/
theorem takesAskedLock_of_quietDestroy {x : State × Destroyed}
    (reach : destroying.ReachableWhen (fun x l => QuietDestroy x.1 l) x) :
    TakesAskedLock x := by
  have inv := undestroyed_of_reachable reach
  refine ⟨inv.locked, ?_⟩
  rintro ⟨a, e⟩ ⟨s', d'⟩ step p id shown
  cases Step.of_exec step.1 with
  | run running run =>
    cases shown
    cases run with
    | acquired point free =>
      have inside : (x.1.pc p).waits = some id := by simp [point, Pc.waits]
      have used := inv.waiting p id inside
      exact ⟨used, by simp [used], inv.acquiring p id (Pc.acquires_of_waits inside)⟩
  | _ => cases shown

/-- Process 0 takes lock 0 and destroys it; the slot is created again, and process
1 takes the new lock. -/
def takenAgain : List Action :=
  takesLock ++ [.call 0 (.destroy 0), .run 0, .run 0, .call 0 .create, .run 0, .run 0,
    .call 1 (.acquire 0), .run 1, .run 1, .run 1]

theorem takesAskedLock_takenAgain :
    ∃ x, destroying.ReachableWhen (fun x l => QuietDestroy x.1 l) x ∧
      (x.1.locks 0).pid = 2 ∧ TakesAskedLock x := by
  obtain ⟨x, reach, taken⟩ : ∃ x, destroying.ReachableWhen (fun x l => QuietDestroy x.1 l) x ∧
      (x.1.locks 0).pid = 2 :=
    Lts.exists_of_replay QuietDestroy (by rfl) takenAgain (by decide +kernel)
  exact ⟨x, reach, taken, takesAskedLock_of_quietDestroy reach⟩

end Xv6.Lock
