import Xv6.Wait.Sound

/-!
# The times that `waitx` reports

A timer interrupt in user space charges `rtime` of the process it interrupts, on whichever CPU
that is, while `ticks` counts the interrupts of CPU 0. The waiting time does not wrap as long as
no process is charged more than has passed since its creation.

`waitx` stores the two times through the pointers that `sys_waitx` passes to it. These are the
addresses of variables of `sys_waitx` itself; nothing is copied out to the caller.
-/

namespace Xv6.Wait

open Function (update)

/-- The processes with the variables that a call of `waitx` is to fill in: `rtime` and `wtime`. -/
structure Timed where
  core : State
  /-- Those of `sys_waitx`, on the kernel stack of each process. -/
  kernel : Slot → UInt32 × UInt32
  /-- Those whose addresses each process passes to `waitx`. -/
  user : Slot → UInt32 × UInt32

inductive TimedAction
  | core (a : Action)
  /-- The process `p` stores to its own variables. -/
  | store (p : Slot) (times : UInt32 × UInt32)
  deriving DecidableEq

/-- The stores of `waitx` through its arguments. -/
def Timed.stored (m : Timed) : Option Effect → Slot → UInt32 × UInt32
  | some (.reaped _ _ p (some times)) => update m.kernel p times
  | _ => m.kernel

def Timed.exec (m : Timed) : TimedAction → Option (Timed × Option Effect)
  | .core a =>
    (Wait.exec m.core a).map fun (s, e) => ({ m with core := s, kernel := m.stored e }, e)
  | .store p times =>
    if (m.core.procs p).state = .running ∧ m.core.pc p = .user then
      some ({ m with user := update m.user p times }, none)
    else none

def timed : Lts Timed (TimedAction × Option Effect) :=
  Lts.ofExec (·.core = boot) Timed.exec

/-- The caller of `waitx` and the child whose times are reported. -/
def reports : Option Effect → Option (Slot × Slot)
  | some (.reaped q _ p (some _)) => some (p, q)
  | _ => none

/-- A step charges no process for more ticks than there were since its creation, and does not let
`ticks` come round to the creation of a process that is alive. -/
def Paced (m : Timed) (l : TimedAction × Option Effect) : Prop :=
  (∀ p, l.1 = .core (.timer p) →
    (m.core.procs p).rtime < m.core.ticks - (m.core.procs p).ctime) ∧
  (l.1 = .core .tick → ∀ q, (m.core.procs q).state.live →
    m.core.ticks + 1 ≠ (m.core.procs q).ctime)
  deriving Decidable

/-- No process has been charged for more ticks than there were in its life. -/
def Charged (s : State) : Prop :=
  ∀ q, (s.procs q).state ≠ .unused → (s.procs q).rtime ≤
    (if (s.procs q).state = .zombie then (s.procs q).etime else s.ticks) - (s.procs q).ctime

variable {s s' : State} {p : Slot} {a : Action} {e : Option Effect}

theorem RunStep.ticks (step : RunStep s p s' e) : s'.ticks = s.ticks := by
  cases step <;> rfl

theorem RunStep.charged (sound : Sound s) (onCpu : s.onCpu p = true) (inv : Charged s)
    (step : RunStep s p s' e) : Charged s' := by
  have child := sound.child
  have ended := sound.ended
  have ticks := step.ticks
  unfold Charged at inv ⊢
  rw [ticks]
  rw [State.onCpu_iff] at onCpu
  cases step <;> grind [Proc.wakeup, Proc.kill, Proc.cleared, State.newProc, Pc.creates, Pc.ended]

theorem Charged.setProc (inv : Charged s) (live : (s.procs p).state.live)
    (alive : new.state ≠ .zombie)
    (charged : (s.procs p).rtime ≤ s.ticks - (s.procs p).ctime → new.rtime ≤ s.ticks - new.ctime) :
    Charged (s.setProc p new) := by
  intro q used
  by_cases same : q = p
  · subst same
    have before := inv q
    rw [State.setProc_procs, if_pos rfl, if_neg alive]
    cases state : (s.procs q).state <;> simp_all [ProcState.live, State.setProc]
  · rw [State.setProc_procs, if_neg same] at used ⊢
    exact inv q used

theorem charged_step (sound : Sound s) (inv : Charged s)
    (timer : ∀ p, a = .timer p → (s.procs p).rtime < s.ticks - (s.procs p).ctime)
    (tick : a = .tick → ∀ q, (s.procs q).state.live → s.ticks + 1 ≠ (s.procs q).ctime)
    (step : exec s a = some (s', e)) : Charged s' := by
  cases a with simp only [exec, Option.ite_none_right_eq_some, Option.map_eq_some_iff] at step
  | run p ok => exact (RunStep.of_runProc step.2).charged sound step.1 inv
  | timer p =>
    obtain ⟨ready, ⟨⟩⟩ := step
    refine inv.setProc (by rw [ready.1]; rfl) (by rintro ⟨⟩) fun _ => ?_
    have before := timer p rfl
    grind
  | tick =>
    cases step
    intro q used
    have before := inv q used
    have ahead := tick rfl q
    cases state : (s.procs q).state <;> grind [ProcState.live]
  | call p c =>
    obtain ⟨_, pc, -, ⟨⟩⟩ := step
    exact inv
  | block p addr =>
    obtain ⟨running, pc, -, ⟨⟩⟩ := step
    exact inv.setProc (by rw [running]; rfl) (by rintro ⟨⟩) id
  | unblock p =>
    unfold Charged at inv ⊢
    grind [Proc.wakeup, State.setProc]
  | dispatch p | yield p | setkilled p =>
    obtain ⟨ready, ⟨⟩⟩ := step
    exact inv.setProc (by simp [ready, ProcState.live]) (by simp [ready]) id

theorem timed_step (step : timed.step m (b, e) m') :
    (∃ a, b = .core a ∧ exec m.core a = some (m'.core, e) ∧ m'.user = m.user ∧
      m'.kernel = m.stored e) ∨
    ∃ p times, m' = { m with user := update m.user p times } ∧ m.core.pc p = .user ∧
      e = none := by
  cases b with
  | core a =>
    obtain ⟨⟨s', e'⟩, inner, ⟨⟩⟩ := Option.map_eq_some_iff.mp step
    exact .inl ⟨a, rfl, inner, rfl, rfl⟩
  | store p times =>
    obtain ⟨ready, ⟨⟩⟩ := Option.ite_none_right_eq_some.mp step
    exact .inr ⟨p, times, rfl, ready.2, rfl⟩

theorem charged_of_reachable (reach : timed.ReachableWhen Paced m) :
    Sound m.core ∧ Charged m.core := by
  refine reach.invariant (P := fun m => Sound m.core ∧ Charged m.core) ?_ ?_
  · intro m start
    rw [show m.core = boot from start]
    refine ⟨sound_boot, fun q used => ?_⟩
    simp only [boot]
    split <;> decide
  · rintro m ⟨b, e⟩ m' ⟨sound, inv⟩ ok step
    rcases timed_step step with ⟨a, rfl, inner, -⟩ | ⟨_, _, rfl, -⟩
    · refine ⟨Step.sound (l := (a, e)) sound (.of_exec inner), charged_step sound inv ?_ ?_ inner⟩
      · rintro p rfl
        exact ok.1 p rfl
      · rintro rfl
        exact ok.2 rfl
    · exact ⟨sound, inv⟩

/-- No step changes the variables of a process that is in a system call. -/
theorem user_of_call (step : timed.step m l m') (inside : m.core.pc p ≠ .user) :
    m'.user p = m.user p := by
  obtain ⟨_, -, -, user, -⟩ | ⟨p', _, rfl, outside, -⟩ := timed_step step
  · rw [user]
  · refine Function.update_of_ne ?_ ..
    rintro rfl
    exact inside outside

/-- **What `waitx` reports**, on any number of CPUs and in any interleaving of timer interrupts,
scheduling and exits. It computes the times of the child that it reaps, and leaves them in variables
of `sys_waitx`: whatever the caller's variables hold, no step from the call to its return changes
them. In a paced run the child was not charged for more than its lifetime. -/
theorem waitx_reports {m m' : Timed} {b : TimedAction} {q p : Slot}
    (step : timed.step m (b, e) m') (reported : reports e = some (p, q)) :
    m'.kernel p = ((m.core.procs q).rtime,
      (m.core.procs q).etime - (m.core.procs q).ctime - (m.core.procs q).rtime) ∧
    m'.user = m.user ∧
    (m.core.pc p ≠ .user ∧ ∀ n l n', timed.step n l n' → n.core.pc p ≠ .user →
      n'.user p = n.user p) ∧
    (timed.ReachableWhen Paced m →
      (m.core.procs q).rtime ≤ (m.core.procs q).etime - (m.core.procs q).ctime) := by
  obtain ⟨a, rfl, inner, user, kernel⟩ | ⟨_, _, _, -, rfl⟩ := timed_step step
  · rw [kernel]
    generalize m'.core = s' at inner
    cases Step.of_exec (l := (a, e)) inner with
    | run _ inner =>
      cases inner with
      | @reaped k _ _ point _ zombie _ =>
        by_cases isWaitx : k = .waitx
        · subst isWaitx
          cases reported
          refine ⟨Function.update_self .., user, ⟨by simp [point], fun _ _ _ => user_of_call⟩, ?_⟩
          intro reach
          have bound := (charged_of_reachable reach).2 q
          rw [zombie] at bound
          exact bound nofun
        · rw [if_neg isWaitx] at reported
          cases reported
      | _ => cases reported
    | _ => cases reported
  · cases reported

/-- `initproc` forks a child, which is interrupted by a timer and exits, and calls `waitx`. -/
def waitedChild (interrupt : List Action) : List Action :=
  [.dispatch 0, .call 0 .fork] ++ List.replicate 4 (.run 0 true) ++ .dispatch 1 :: interrupt ++
    [.dispatch 1, .call 1 (.exit 0)] ++ List.replicate 134 (.run 1 true) ++
    [.call 0 (.wait .waitx), .run 0 true, .run 0 true]

/-- A child runs for a tick, and `initproc` calls `waitx`. -/
theorem waitx_reports_once :
    ∃ m m' b e, timed.ReachableWhen Paced m ∧ timed.step m (b, e) m' ∧ reports e = some (0, 1) ∧
      (m.core.procs 1).rtime ≤ (m.core.procs 1).etime - (m.core.procs 1).ctime ∧
      m'.kernel 0 = (1, 0) ∧ m'.user = m.user := by
  obtain ⟨m, reach, shown⟩ : ∃ m, timed.ReachableWhen Paced m ∧
      (m.exec (.core (.run 0 true))).any (fun r => reports r.2 = some (0, 1) ∧
        times (m.core.procs 1) = (1, 0)) = true :=
    Lts.exists_of_run (s := ⟨boot, fun _ => (0, 0), fun _ => (0, 0)⟩) rfl
      ((waitedChild [.tick, .timer 1]).map .core) (by decide +kernel)
  obtain ⟨⟨m', e⟩, step, facts⟩ := (Option.any_eq_true _ _).mp shown
  obtain ⟨reported, same⟩ := of_decide_eq_true facts
  obtain ⟨kernel, user, -, bound⟩ := waitx_reports step reported
  exact ⟨m, m', _, e, reach, step, reported, bound reach, kernel.trans same, user⟩

/-- The child was charged for one tick and lived for none, so that its waiting time has wrapped.
`sys_waitx` has both times, and the variables of the caller are as they were. -/
theorem waitx_wraps :
    ∃ m m' b e, timed.Reachable m ∧ timed.step m (b, e) m' ∧ reports e = some (0, 1) ∧
      (m.core.procs 1).rtime = 1 ∧ (m.core.procs 1).etime - (m.core.procs 1).ctime = 0 ∧
      m'.kernel 0 = (1, 4294967295) ∧ m'.user 0 = (0, 0) := by
  obtain ⟨m, reach, shown⟩ : ∃ m, timed.Reachable m ∧
      (m.exec (.core (.run 0 true))).any (fun (m', e) => reports e = some (0, 1) ∧
        (m.core.procs 1).rtime = 1 ∧ (m.core.procs 1).etime - (m.core.procs 1).ctime = 0 ∧
        m'.kernel 0 = (1, 4294967295) ∧ m'.user 0 = (0, 0)) = true :=
    Lts.exists_of_run (s := ⟨boot, fun _ => (0, 0), fun _ => (0, 0)⟩) rfl
      ((waitedChild [.timer 1]).map .core) (by decide +kernel)
  obtain ⟨⟨m', e⟩, step, facts⟩ := (Option.any_eq_true _ _).mp shown
  exact ⟨m, m', _, e, reach, step, of_decide_eq_true facts⟩

end Xv6.Wait
