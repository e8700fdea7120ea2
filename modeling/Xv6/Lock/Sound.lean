import Xv6.Lock.Basic

/-!
# What every state of the lock system satisfies

`Sound` is the part of the state invariant that holds in every run, whatever the
processes do with their locks: a program point inside a critical section of
`locks[id].lk` holds that spinlock, a process inside a system call has not
exited, a sleeping process is inside `sleep` on the channel of the lock it waits
for, and pids identify processes.
-/

namespace Xv6.Lock

open State (setProc_procs)

structure Sound (s : State) : Prop where
  /-- A critical section holds its spinlock. -/
  spin : ∀ p id, (s.pc p).holds = some id → (s.locks id).lk = some p
  /-- A process inside a system call runs, waits for a CPU, or sleeps. -/
  busy : ∀ p, s.pc p ≠ .user →
    (s.procs p).state = .running ∨ (s.procs p).state = .runnable ∨ (s.procs p).state = .sleeping
  /-- The only sleep of this system is the one in `sys_lock_acquire`. -/
  asleep : ∀ p, (s.procs p).state = .sleeping →
    ∃ id, s.pc p = .asleep id ∧ (s.procs p).chan = some (.lock id)
  pid_lt : ∀ p, (s.procs p).state ≠ .unused → (s.procs p).pid < s.nextpid
  pid_inj : ∀ p q, (s.procs p).state ≠ .unused → (s.procs q).state ≠ .unused →
    (s.procs p).pid = (s.procs q).pid → p = q

variable {s s' : State} {p : Slot} {e : Option Effect} {l : Label}

theorem Pc.holds_of_spins {pc pc' : Pc} {id : Id} (spins : pc.spins = some (id, pc')) :
    pc'.holds = some id ∧ pc ≠ .user ∧ pc' ≠ .user ∧ ∀ id', pc ≠ .asleep id' := by
  cases pc <;> simp only [Pc.spins, Option.some.injEq, Prod.mk.injEq, reduceCtorEq] at spins
  all_goals
    obtain ⟨rfl, rfl⟩ := spins
    simp [Pc.holds]

theorem RunStep.spin (sound : Sound s) (step : RunStep s p s' e) (q : Slot) (id : Id)
    (holds : (s'.pc q).holds = some id) : (s'.locks id).lk = some q := by
  have before := sound.spin
  cases step with
  | @lock id' pc' spins free =>
    obtain ⟨entered, -⟩ := Pc.holds_of_spins spins
    -- `lk` was free, so no other process was inside this critical section
    have others : ∀ r, (s.pc r).holds ≠ some id' := by
      intro r inside
      rw [before r id' inside] at free
      cases free
    grind
  | _ => grind [Pc.holds]

theorem RunStep.busy (sound : Sound s) (running : (s.procs p).state = .running)
    (step : RunStep s p s' e) (q : Slot) (inside : s'.pc q ≠ .user) :
    (s'.procs q).state = .running ∨ (s'.procs q).state = .runnable ∨
      (s'.procs q).state = .sleeping := by
  have before := sound.busy
  cases step with
  | wakeupOther point other awake => grind [Proc.wakeup_state]
  | _ => grind

theorem RunStep.asleep (sound : Sound s) (running : (s.procs p).state = .running)
    (step : RunStep s p s' e) (q : Slot) (sleeping : (s'.procs q).state = .sleeping) :
    ∃ id, s'.pc q = .asleep id ∧ (s'.procs q).chan = some (.lock id) := by
  have before := sound.asleep
  cases step with
  | wakeupOther point other awake => grind [Proc.wakeup_state, Proc.wakeup_chan]
  | _ => grind

theorem RunStep.sameProcs (step : RunStep s p s' e) (running : (s.procs p).state = .running)
    (q : Slot) :
    (s'.procs q).pid = (s.procs q).pid ∧
      ((s'.procs q).state = .unused ↔ (s.procs q).state = .unused) ∧
      ((s'.procs q).state = .zombie ↔ (s.procs q).state = .zombie) ∧
      s'.nextpid = s.nextpid := by
  cases step with
  | wakeupOther point other awake => grind [Proc.wakeup_state, Proc.wakeup_pid]
  | _ => grind

theorem RunStep.sound (sound : Sound s) (running : (s.procs p).state = .running)
    (step : RunStep s p s' e) : Sound s' where
  spin := step.spin sound
  busy := step.busy sound running
  asleep := step.asleep sound running
  pid_lt q used := by
    obtain ⟨pid, unused, -, nextpid⟩ := step.sameProcs running q
    rw [pid, nextpid]
    exact sound.pid_lt q (mt unused.mpr used)
  pid_inj q r usedQ usedR same := by
    obtain ⟨pidQ, unusedQ, -⟩ := step.sameProcs running q
    obtain ⟨pidR, unusedR, -⟩ := step.sameProcs running r
    rw [pidQ, pidR] at same
    exact sound.pid_inj q r (mt unusedQ.mpr usedQ) (mt unusedR.mpr usedR) same

/-- What the environment does to one process keeps the invariant, if it leaves
the pids alone, does not put the process to sleep, and ends no system call. -/
theorem Sound.setProc (sound : Sound s)
    (pid : new.state ≠ .unused → (s.procs p).state ≠ .unused ∧ new.pid = (s.procs p).pid)
    (awake : new.state ≠ .sleeping)
    (inside : s.pc p ≠ .user → new.state = .running ∨ new.state = .runnable) :
    Sound (s.setProc p new) := by
  obtain ⟨spin, busy, asleep, pid_lt, pid_inj⟩ := sound
  constructor
  · exact spin
  · intro q inCall
    rw [setProc_procs]
    split
    · next same =>
      subst same
      exact (inside inCall).elim .inl fun runnable => .inr (.inl runnable)
    · exact busy q inCall
  · intro q sleeping
    rw [setProc_procs] at sleeping ⊢
    split at sleeping
    · exact (awake sleeping).elim
    · next other => rw [if_neg other]; exact asleep q sleeping
  · intro q used
    rw [setProc_procs] at used ⊢
    split at used
    · next same =>
      subst same
      rw [if_pos rfl, (pid used).2]
      exact pid_lt q (pid used).1
    · next other => rw [if_neg other]; exact pid_lt q used
  · grind

theorem Sound.allocproc (sound : Sound s) (unused : (s.procs p).state = .unused) :
    Sound { s.setProc p { s.procs p with pid := s.nextpid, state := .used } with
      nextpid := s.nextpid + 1 } := by
  obtain ⟨spin, busy, asleep, pid_lt, pid_inj⟩ := sound
  constructor
  · exact spin
  · intro q inCall
    have state := busy q inCall
    have other : q ≠ p := by
      rintro rfl
      simp [unused] at state
    simpa [other] using state
  · intro q sleeping
    by_cases same : q = p
    · subst same
      simp at sleeping
    · simp only [setProc_procs, if_neg same] at sleeping ⊢
      exact asleep q sleeping
  · intro q used
    by_cases same : q = p
    · subst same
      simp
    · simp only [setProc_procs, if_neg same] at used ⊢
      exact Nat.lt_succ_of_lt (pid_lt q used)
  · intro q r usedQ usedR same
    -- the new pid is above every pid handed out before
    have fresh := fun t used => Nat.ne_of_lt (pid_lt t used)
    by_cases isQ : q = p <;> by_cases isR : r = p
    · exact isQ.trans isR.symm
    · simp only [setProc_procs, if_neg isR, if_pos isQ] at usedR same
      exact (fresh r usedR same.symm).elim
    · simp only [setProc_procs, if_neg isQ, if_pos isR] at usedQ same
      exact (fresh q usedQ same).elim
    · simp only [setProc_procs, if_neg isQ, if_neg isR] at usedQ usedR same
      exact pid_inj q r usedQ usedR same

theorem Sound.enter (sound : Sound s) (running : (s.procs p).state = .running)
    (free : pc.holds = none) : Sound (s.setPc p pc) := by
  obtain ⟨spin, busy, asleep, pid_lt, pid_inj⟩ := sound
  refine ⟨?_, ?_, ?_, pid_lt, pid_inj⟩
  all_goals grind

theorem Step.sound (sound : Sound s) (step : Step s l s') : Sound s' := by
  cases step with
  | run running step => exact step.sound sound running
  | @enter p c pc running atUser entry =>
    refine sound.enter running ?_
    rcases entry with ⟨rfl, -⟩ | ⟨_, _, -, ⟨rfl, -⟩ | ⟨rfl, -⟩ | ⟨rfl, -⟩⟩ <;> rfl
  | refused => exact sound
  | dispatch runnable => exact sound.setProc (by simp [runnable]) (by simp) (by simp)
  | yield running _ => exact sound.setProc (by simp [running]) (by simp) (by simp)
  | @kill p used awake =>
    refine sound.setProc (fun _ => ⟨used, rfl⟩) ?_ ?_
    · simp only [Proc.kill]
      split
      · exact ProcState.noConfusion
      · assumption
    intro inside
    simp only [Proc.kill]
    rcases sound.busy p inside with running | runnable | sleeping
    · simp [running]
    · simp [runnable]
    · simp [sleeping]
  | spurious sleeping => exact sound.setProc (by simp [sleeping]) (by simp) (by simp)
  | allocproc unused => exact sound.allocproc unused
  | @start p used =>
    exact sound.setProc (by simp [used]) (by simp) (by simp)
  | @exit p running atUser =>
    exact sound.setProc (by simp [running]) (by simp) (by simp [atUser])
  | @reap p zombie =>
    refine sound.setProc (by simp [Proc.cleared]) (by simp [Proc.cleared]) ?_
    intro inside
    have state := sound.busy p inside
    simp [zombie] at state

theorem sound_boot : Sound boot := by
  constructor <;> simp +contextual [boot, Pc.holds] <;> grind

end Xv6.Lock
