import Xv6.Wait.Woken

/-!
# Exits and reaps

A history of the run logs every exit, every reaping and every return of `kwait`,
`kjoin` and `waitx`. `Handshake` is the property of a log that nothing is lost
and nothing duplicated: a slot's exits and reaps alternate, each reap is of the
last exit of its slot and reports its pid, it is made by the parent of that
moment, and the call that made it returns that pid.
-/

namespace Xv6.Wait

/-- An entry of the log. A reap carries the parent of the zombie at that moment. -/
inductive Event
  | exited (q : Slot) (pid : Nat)
  | reaped (q : Slot) (pid : Nat) (p : Slot) (parent : Option Slot)
  | returned (p : Slot) (ret : Option Nat)
  deriving DecidableEq

/-- The log, newest entry first. -/
def note (log : List Event) (s : State) (l : Label) : List Event :=
  match l.2 with
  | some (.exited q pid) => .exited q pid :: log
  | some (.reaped q pid p _) => .reaped q pid p (s.procs q).parent :: log
  | some (.returned p ret) => .returned p ret :: log
  | _ => log

def logged : Lts (State × List Event) Label :=
  system.observed [] note

/-- The pid of the process that exited last in slot `q`, while it is not reaped. -/
def unreaped (q : Slot) : List Event → Option Nat
  | [] => none
  | .exited q' pid :: log => if q' = q then some pid else unreaped q log
  | .reaped q' _ _ _ :: log => if q' = q then none else unreaped q log
  | .returned _ _ :: log => unreaped q log

/-- The pid of what `p` has reaped in the waiting call it is in. -/
def taken (p : Slot) : List Event → Option Nat
  | [] => none
  | .exited _ _ :: log => taken p log
  | .reaped _ pid p' _ :: log => if p' = p then some pid else taken p log
  | .returned p' _ :: log => if p' = p then none else taken p log

/-- Nothing is lost and nothing duplicated. -/
def Handshake : List Event → Prop
  | [] => True
  | .exited q _ :: log => unreaped q log = none ∧ Handshake log
  | .reaped q pid p parent :: log =>
    unreaped q log = some pid ∧ parent = some p ∧ taken p log = none ∧ Handshake log
  | .returned p ret :: log => ret = taken p log ∧ Handshake log

/-- What a waiting call at a program point is about to return. -/
def Pc.result : Pc → Option Nat
  | .waitReturn ret => ret
  | _ => none

/-- The log agrees with the process table and with the calls under way. -/
structure Logged (s : State) (log : List Event) : Prop where
  unreaped : ∀ q, unreaped q log =
    if (s.procs q).state = .zombie then some (s.procs q).pid else none
  taken : ∀ p, taken p log = (s.pc p).result
  handshake : Handshake log

variable {s s' : State} {p : Slot} {e : Option Effect} {l : Label} {log : List Event}

attribute [local grind =] Pc.result Pc.creates Proc.wakeup_state Proc.wakeup_pid State.newProc
  Proc.cleared Proc.kill State.childFor

theorem Logged.of_quiet (inv : Logged s log)
    (zombies : ∀ q, (s'.procs q).state = .zombie ↔ (s.procs q).state = .zombie)
    (pids : ∀ q, (s.procs q).state = .zombie → (s'.procs q).pid = (s.procs q).pid)
    (results : ∀ q, (s'.pc q).result = (s.pc q).result) : Logged s' log where
  unreaped q := by
    rw [inv.unreaped q]
    grind
  taken q := (inv.taken q).trans (results q).symm
  handshake := inv.handshake

theorem Logged.exited (inv : Logged s log) (running : (s.procs p).state = .running)
    (point : s.pc p = .zombify status) :
    Logged ((s.setProc p
      { s.procs p with xstate := status, etime := s.ticks, state := .zombie }).setPc p .zombieHeld)
      (.exited p (s.procs p).pid :: log) := by
  have unreaped := inv.unreaped
  have taken := inv.taken
  constructor
  · grind [Wait.unreaped]
  · grind [Wait.taken]
  · refine ⟨?_, inv.handshake⟩
    rw [unreaped p, running]
    rfl

theorem Logged.reaped (inv : Logged s log) (point : s.pc p = .scan k q.val havekids)
    (child : s.childFor k p q = true) (zombie : (s.procs q).state = .zombie) :
    Logged ((s.setProc q (s.procs q).cleared).setPc p (.waitReturn (some (s.procs q).pid)))
      (.reaped q (s.procs q).pid p (s.procs q).parent :: log) := by
  have unreaped := inv.unreaped
  have taken := inv.taken
  constructor
  · grind [Wait.unreaped]
  · grind [Wait.taken]
  refine ⟨?_, ?_, ?_, inv.handshake⟩
  · rw [unreaped q, if_pos zombie]
  · grind
  · rw [taken p, point]
    rfl

theorem Logged.returned (inv : Logged s log) (point : s.pc p = .waitReturn ret) :
    Logged ((s.setWaitLock none).setPc p .user) (.returned p ret :: log) := by
  have unreaped := inv.unreaped
  have taken := inv.taken
  constructor
  · grind [Wait.unreaped]
  · grind [Wait.taken]
  · refine ⟨?_, inv.handshake⟩
    rw [taken p, point]
    rfl

theorem Pc.result_of_spins {pc pc' : Pc} (spins : pc.spins = some pc') :
    pc.result = none ∧ pc'.result = none := by
  cases pc <;> simp only [Pc.spins, Option.some.injEq, reduceCtorEq] at spins <;>
    subst spins <;> exact ⟨rfl, rfl⟩

theorem RunStep.logged (sound : Sound s) (onCpu : s.onCpu p = true) (inv : Logged s log)
    (step : RunStep s p s' e) {a : Action} : Logged s' (note log s (a, e)) := by
  have child := sound.child
  have idle := sound.idle
  have ended := sound.ended
  rw [State.onCpu_iff] at onCpu
  cases step with
  | exited point => exact inv.exited (by grind -ring -linarith) point
  | reaped point child zombie unlocked => exact inv.reaped point child zombie
  | returned point => exact inv.returned point
  | lock spins free =>
    have results := Pc.result_of_spins spins
    exact inv.of_quiet (by grind -ring -linarith) (by grind -ring -linarith)
      (by grind -ring -linarith)
  | @wakeupDone _ _ child =>
    refine inv.of_quiet (by grind -ring -linarith) (by grind -ring -linarith) ?_
    cases child <;> grind -ring -linarith [Pc.afterWakeup]
  | _ =>
    exact inv.of_quiet (by grind -ring -linarith) (by grind -ring -linarith)
      (by grind -ring -linarith)

theorem Step.logged (sound : Sound s) (inv : Logged s log) (step : Step s l s') :
    Logged s' (note log s l) := by
  cases step with
  | run onCpu step => exact step.logged sound onCpu inv
  | @enter p c pc running atUser entry =>
    refine inv.of_quiet (by grind) (by grind) ?_
    cases c <;> grind [Wait.enter]
  | @block p addr pc running point =>
    obtain ⟨⟨x, rfl⟩, -⟩ := Pc.of_block point
    refine inv.of_quiet (by grind) (by grind) ?_
    cases at_ : s.pc p <;> simp [at_, Pc.block] at point <;> grind
  | tick => exact inv.of_quiet (fun _ => Iff.rfl) (fun _ _ => rfl) (fun _ => rfl)
  | _ => exact inv.of_quiet (by grind) (by grind) (by grind)

theorem logged_of_reachable (reach : logged.Reachable (s, log)) : Sound s ∧ Logged s log := by
  refine Lts.Reachable.invariant (P := fun x => Sound x.1 ∧ Logged x.1 x.2) reach ?_ ?_
  · rintro ⟨s, log⟩ ⟨rfl, rfl⟩
    refine ⟨sound_boot, ?_, ?_, trivial⟩
    · intro q
      simp only [boot]
      split <;> rfl
    · exact fun _ => rfl
  · rintro ⟨s, log⟩ l ⟨s', log'⟩ ⟨sound, inv⟩ ⟨step, rfl⟩
    exact ⟨Step.sound sound (.of_exec step), Step.logged sound inv (.of_exec step)⟩

/-- **Exit and wait lose nothing and duplicate nothing**, in any interleaving of
any processes. -/
theorem exit_wait_handshake (reach : logged.Reachable (s, log)) :
    Handshake log ∧ NoMissedExit s := by
  obtain ⟨sound, inv⟩ := logged_of_reachable reach
  have plain : system.Reachable s := Lts.Reachable.of_observed reach
  exact ⟨inv.handshake, (woken_of_reachable plain).noMissedExit sound⟩

/-- `initproc` forks a child and sleeps for it in `kwait`; the child exits. -/
def forkExitWait : List Action :=
  [.dispatch 0, .call 0 .fork] ++ List.replicate 4 (.run 0 true) ++
    [.call 0 (.wait .kwait)] ++ List.replicate 69 (.run 0 true) ++
    [.dispatch 1, .call 1 (.exit 7)] ++ List.replicate 134 (.run 1 true) ++
    [.dispatch 0] ++ List.replicate 5 (.run 0 true)

/-- The child's exit is reaped, and `kwait` returns its pid. -/
theorem exit_wait_handshake_forkExitWait :
    ∃ s log, logged.Reachable (s, log) ∧
      log = [.returned 0 (some 2), .reaped 1 2 0 (some 0), .exited 1 2] ∧
      Handshake log ∧ NoMissedExit s := by
  obtain ⟨x, reach, entries⟩ : ∃ x, logged.Reachable x ∧
      x.2 = [.returned 0 (some 2), .reaped 1 2 0 (some 0), .exited 1 2] :=
    Lts.exists_of_replay (fun _ _ => True) (by rfl) forkExitWait (by decide +kernel)
  exact ⟨x.1, x.2, reach, entries, exit_wait_handshake reach⟩

end Xv6.Wait
