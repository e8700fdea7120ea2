import Xv6.Lock.Basic

/-!
# Mutual exclusion of user locks

`Holders` is the history of a run: for each slot, the pids that have taken the
lock since the `lock_create` that returned the slot and have not given it up
since, or nothing when the slot was not created or has been destroyed after it.
`lock_mutual_exclusion` is the invariant that ties it to the slot: there is at
most one such process, and then the slot is locked and records its pid.

The invariant needs nothing of the spinlock: the test of `locked` and its
assignment are one critical section, whatever happened while the process slept.
-/

namespace Xv6.Lock

open Function

/-- For each slot, the holders since its last `lock_create`; `none` when there was
none, or when a `lock_destroy` succeeded after it. -/
abbrev Holders := Id → Option (List Nat)

/-- What one effect of a system call changes in the history. -/
def Holders.note (h : Holders) (s : State) (l : Label) : Holders :=
  match l.2 with
  | some (.created _ id) => update h id (some [])
  | some (.acquired p id) => update h id ((h id).map ((s.procs p).pid :: ·))
  | some (.released p id) => update h id ((h id).map (·.erase (s.procs p).pid))
  | some (.destroyed _ id) => update h id none
  | some (.failed _) | none => h

def holding : Lts (State × Holders) Label :=
  system.observed (fun _ => none) Holders.note

/-- The holder list is the one the slot's fields describe. -/
def Exclusive (s : State) (h : Holders) : Prop :=
  ∀ id hs, h id = some hs →
    (s.locks id).used = true ∧ hs = if (s.locks id).locked then [(s.locks id).pid] else []

theorem Exclusive.of_same (ex : Exclusive s h)
    (same : ∀ id, (s'.locks id).used = (s.locks id).used ∧
      (s'.locks id).locked = (s.locks id).locked ∧ (s'.locks id).pid = (s.locks id).pid) :
    Exclusive s' h := by
  intro id hs recorded
  obtain ⟨used, locked, pid⟩ := same id
  rw [used, locked, pid]
  exact ex id hs recorded

theorem Exclusive.run (ex : Exclusive s h) (step : RunStep s p s' e) (a : Action) :
    Exclusive s' (h.note s (a, e)) := by
  cases e with
  | none => exact ex.of_same fun id => by cases step <;> simp
  | some effect =>
    intro id hs recorded
    cases step with
    | failed point => exact ex.of_same (fun id => by simp) id hs recorded
    | @created i point free =>
      simp only [Holders.note] at recorded
      by_cases same : id = i
      · subst same
        simp only [update_self, Option.some.injEq] at recorded
        simp [← recorded]
      · rw [update_of_ne same] at recorded
        simpa [same] using ex id hs recorded
    | @acquired i point free =>
      simp only [Holders.note] at recorded
      by_cases same : id = i
      · subst same
        simp only [update_self, Option.map_eq_some_iff] at recorded
        obtain ⟨before, was, rfl⟩ := recorded
        obtain ⟨used, list⟩ := ex id before was
        -- the lock was free, so nobody held it before
        rw [free] at list
        simp [used, list]
      · rw [update_of_ne same] at recorded
        simpa [same] using ex id hs recorded
    | @released i point used locked owner =>
      simp only [Holders.note] at recorded
      by_cases same : id = i
      · subst same
        simp only [update_self, Option.map_eq_some_iff] at recorded
        obtain ⟨before, was, rfl⟩ := recorded
        obtain ⟨-, list⟩ := ex id before was
        -- only the recorded holder passes the check on the pid
        rw [if_pos locked, owner] at list
        simp [used, list]
      · rw [update_of_ne same] at recorded
        simpa [same] using ex id hs recorded
    | @destroyed i point used =>
      simp only [Holders.note] at recorded
      by_cases same : id = i
      · subst same
        simp at recorded
      · rw [update_of_ne same] at recorded
        simpa [same] using ex id hs recorded

theorem Exclusive.step (ex : Exclusive s h) (step : Step s l s') : Exclusive s' (h.note s l) := by
  cases step with
  | run _ step => exact ex.run step _
  | _ => exact ex.of_same fun id => ⟨rfl, rfl, rfl⟩

theorem exclusive_of_reachable (reach : holding.Reachable x) : Exclusive x.1 x.2 := by
  refine reach.invariant (P := fun x => Exclusive x.1 x.2) ?_ ?_
  · intro x start id hs recorded
    rw [start.2] at recorded
    cases recorded
  · intro x l y ex step
    rw [step.2]
    exact ex.step (.of_exec step.1)

/-- **Mutual exclusion.** In every state of every run, for every slot with a
`lock_create` and no later `lock_destroy`, at most one process is between a
`lock_acquire` after that creation and the `lock_release` that gives the lock up,
and if there is one, the slot is locked and records its pid. -/
theorem lock_mutual_exclusion {s : State} {h : Holders} (reach : holding.Reachable (s, h))
    {id : Id} {hs : List Nat} (created : h id = some hs) :
    hs.length ≤ 1 ∧
      ∀ pid ∈ hs, (s.locks id).locked = true ∧ (s.locks id).pid = pid := by
  obtain ⟨-, list⟩ := exclusive_of_reachable reach id hs created
  cases locked : (s.locks id).locked with
  | false | true => simp [list, locked]

/-- Process 0 creates lock 0 and takes it; process 1 then sleeps waiting for it. -/
def contended : List Action :=
  takesLock ++ [.call 1 (.acquire 0), .run 1, .run 1, .run 1, .run 1, .run 1]

theorem lock_mutual_exclusion_contended :
    ∃ x, holding.Reachable x ∧ x.2 0 = some [1] ∧ (x.1.procs 1).state = .sleeping ∧
      (x.1.locks 0).locked = true ∧ (x.1.locks 0).pid = 1 := by
  obtain ⟨x, reach, held, asleep⟩ : ∃ x, holding.Reachable x ∧ x.2 0 = some [1] ∧
      (x.1.procs 1).state = .sleeping :=
    Lts.exists_of_replay (fun _ _ => True) (by rfl) contended (by decide +kernel)
  exact ⟨x, reach, held, asleep, (lock_mutual_exclusion reach held).2 1 (by simp)⟩

end Xv6.Lock
