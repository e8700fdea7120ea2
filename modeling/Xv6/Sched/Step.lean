import Xv6.Sched.Inv

/-!
# Every statement keeps the invariant of the scheduler
-/

namespace Xv6.Sched

open Function (update update_of_ne update_self)
open State (goto_procs setProc_other setProc_self)

variable {n : Nat} {s s' s1 : State n} {c : Fin n} {p q t : Slot} {code : Code} {cpu : Cpu}
  {job : Job} {choice : Choice} {effect : Option Effect} {pc : Pc}

theorem Inv.goto (inv : Inv s) (s1 : State n) (cpus : s1.cpus = s.cpus)
    (proc : code.proc = (s.cpus c).code.proc)
    (away : ∀ p, code.away = some p → (s.cpus c).code.away = some p)
    (plan : ∀ t q job, code = .thread t (.held q job) → job.allowed s1 t q = true) :
    GoesOn s (s1.goto c code) c { s.cpus c with code := code } := by
  refine ⟨?_, ?_, fun p at_ => inv.away c p (away p at_), plan⟩
  · unfold State.goto
    rw [cpus]
  · rw [proc]
    exact inv.proc c

/-- A CPU takes a `p->lock` and otherwise stays as it is. -/
theorem Inv.acquire (inv : Inv s) (step : s.acquire c q code = some s')
    (idle : (s.cpus c).code.holds = none) (holds : code.holds = some q)
    (runs : code.runs = (s.cpus c).code.runs) (leaves : code.leaves = none)
    (proc : code.proc = (s.cpus c).code.proc)
    (away : ∀ p, code.away = some p → (s.cpus c).code.away = some p)
    (plan : ∀ t q job, code = .thread t (.held q job) → job.allowed s t q = true) : Inv s' := by
  unfold State.acquire at step
  split at step
  · next free =>
    cases step
    refine inv.relock (inv.goto (s.setLock q (some c)) rfl proc away plan) ?_
      (.inl ⟨free, idle, holds⟩) (fun _ => rfl) rfl runs leaves
    rw [if_pos holds]
    rfl
  · cases step

theorem Inv.release (inv : Inv s) (same : ∀ p, (s1.procs p).state = (s.procs p).state)
    (cpus : s1.cpus = s.cpus) (lock : s1.lock = s.lock) (np : s1.np = s.np)
    (here : (s.cpus c).code.holds = some q) (holds : code.holds = none)
    (runs : code.runs = (s.cpus c).code.runs) (leaves : code.leaves = none)
    (proc : code.proc = (s.cpus c).code.proc)
    (away : ∀ p, code.away = some p → (s.cpus c).code.away = some p) :
    Inv (s1.release c q code) := by
  refine inv.relock (inv.goto (s1.setLock q none) cpus proc away ?_) ?_
    (.inr ⟨here, holds⟩) same np runs leaves
  · rintro t q job rfl
    cases holds
  · rw [if_neg (by rw [holds]; exact nofun)]
    unfold State.release State.goto State.setLock
    rw [lock]

theorem State.setProc_state_same (same : (f (s.procs q)).state = (s.procs q).state) (p : Slot) :
    ((s.setProc q f).procs p).state = (s.procs p).state := by
  by_cases at_ : p = q
  · rw [at_, setProc_self, same]
  · rw [setProc_other s q at_]

/-- A process that is not `RUNNING` runs on no CPU. -/
theorem Inv.idle (inv : Inv s) (stopped : (s.procs q).state ≠ .running) (c' : Fin n) :
    (s.cpus c').code.runs ≠ some q :=
  fun runs => stopped ((inv.running q).mpr ⟨c', runs⟩)

/-- The scheduler makes a process `RUNNING`, whose context it loads next. -/
theorem Inv.pick (inv : Inv s) (at_ : (s.cpus c).code = .check q)
    (runnable : (s.procs q).state = .runnable) :
    Inv ((s.setState q .running).goto c (.picked q)) := by
  have stopped : (s.procs q).state ≠ .running := by
    rw [runnable]
    exact nofun
  refine inv.restate (q := q) (inv.goto (s.setState q .running) rfl ?_ nofun nofun) rfl
    (by rw [at_]; rfl) rfl (fun c' _ => inv.idle stopped c') ?_ ?_ ?_ nofun ?_ inv.mine ?_
  · rw [at_]
    rfl
  · intro p other
    rw [goto_procs, State.setState, setProc_other s q other]
  · refine iff_of_true ?_ rfl
    rw [goto_procs, State.setState, setProc_self]
  · intro p other
    rw [at_]
    simp [Code.runs, Ne.symm other]
  · intro p r made
    have used := inv.used p r made
    have other : r ≠ q := by
      rintro rfl
      rw [used] at runnable
      cases runnable
    rwa [goto_procs, State.setState, setProc_other s q other]
  · intro t _
    rfl

/-- A thread that calls `sched` has left `RUNNING` and still has its lock. -/
theorem Inv.stop (inv : Inv s) (at_ : (s.cpus c).code = .thread t pc)
    (holds : pc.holds t = some t) (runs : pc.leaves = false)
    (stopped : (f (s.procs t)).state ≠ .running) :
    Inv ((s.setProc t f).goto c (.thread t (.sched resume))) := by
  have mine : (s.cpus c).code.runs = some t := by
    rw [at_]
    exact Code.runs_thread runs
  refine inv.restate (q := t) (inv.goto (s.setProc t f) rfl ?_ ?_ nofun) rfl
    (by rw [at_]; exact holds) rfl ?_ ?_ ?_ ?_ ?_ ?_ inv.mine ?_
  · rw [at_]
    rfl
  · rw [at_]
    exact fun _ same => same
  · intro c' other runs
    exact other (inv.once c' c t runs mine)
  · intro p other
    rw [goto_procs, setProc_other s t other]
  · refine iff_of_false ?_ nofun
    rw [goto_procs, setProc_self]
    exact stopped
  · intro p other
    rw [mine]
    simp [Code.runs, Pc.leaves, Ne.symm other]
  · intro p left
    refine ⟨?_, nofun⟩
    simpa [Code.leaves, Pc.leaves, eq_comm] using left
  · intro p r made
    have used := inv.used p r made
    have other : r ≠ t := by
      rintro rfl
      rw [(inv.running r).mpr ⟨c, mine⟩] at used
      cases used
    rwa [goto_procs, setProc_other s t other]
  · intro t _
    rfl

theorem Inv.visit (inv : Inv s) (holds : (s.cpus c).code.holds = some q) (on : GoesOn s s' c cpu)
    (lock : s'.lock = s.lock) (procs : s'.procs = (s.setProc q f).procs)
    (stays : cpu.code.holds = some q) (runs : cpu.code.runs = (s.cpus c).code.runs)
    (leaves : cpu.code.leaves = none) (before : (s.procs q).state ≠ .running)
    (after : (f (s.procs q)).state ≠ .running)
    (used : ∀ p r, s'.np p = some r → (s'.procs r).state = .used)
    (mine : ∀ p p' r, s'.np p = some r → s'.np p' = some r → p = p')
    (plans : ∀ t, (s.cpus c).code.runs ≠ some t → s'.np t = s.np t) : Inv s' := by
  refine inv.restate on lock holds stays (fun c' _ => inv.idle before c') ?_ ?_ ?_ ?_ used mine
    plans
  · intro p other
    rw [procs, setProc_other s q other]
  · refine iff_of_false ?_ ?_
    · rw [procs, setProc_self]
      exact after
    · rw [runs]
      exact inv.idle before c
  · intro p _
    rw [runs]
  · intro p left
    rw [leaves] at left
    cases left

/-- `wakeup` and the other visits change the state of a process that sleeps, is a zombie, or is
not in use; what `kfork` has allocated stays. -/
theorem Inv.used_other (inv : Inv s) (other : (s.procs q).state ≠ .used) (p r : Slot)
    (made : s.np p = some r) : ((s.setProc q f).procs r).state = .used := by
  have used := inv.used p r made
  rw [setProc_other s q]
  · exact used
  · rintro rfl
    exact other used

theorem Inv.wakeup (inv : Inv s) (holds : (s.cpus c).code.holds = some q)
    (stays : code.holds = some q) (runs : code.runs = (s.cpus c).code.runs)
    (leaves : code.leaves = none) (left : (s.cpus c).code.leaves = none)
    (on : GoesOn s ((s.setProc q (Proc.wakeup chan)).goto c code) c
      { s.cpus c with code := code }) :
    Inv ((s.setProc q (Proc.wakeup chan)).goto c code) := by
  by_cases wakes : (s.procs q).state = .sleeping ∧ (s.procs q).chan = chan
  · refine inv.visit holds on rfl rfl stays runs leaves ?_ ?_ ?_ inv.mine fun _ _ => rfl
    · rw [wakes.1]
      exact nofun
    · rw [Proc.wakeup_state, if_pos wakes]
      exact nofun
    · refine inv.used_other ?_
      rw [wakes.1]
      exact nofun
  · refine inv.move on rfl ?_ rfl (stays.trans holds.symm) runs (leaves.trans left.symm)
    refine State.setProc_state_same ?_
    rw [Proc.wakeup_state, if_neg wakes]

theorem State.setCurrent_goto :
    ((s.setCurrent c cur).goto c code).cpus =
      update s.cpus c { s.cpus c with proc := cur, code := code } := by
  simp [State.setCurrent, State.goto]

theorem State.saveCpu_goto :
    ((s.saveCpu c p).goto c code).cpus =
      update s.cpus c { s.cpus c with context := some p, code := code } := by
  simp [State.saveCpu, State.goto]

theorem Resume.entry_runs (resume : Resume) :
    resume.entry.leaves = false ∧ ∀ t, resume.entry.holds t = some t := by
  cases resume <;> exact ⟨rfl, fun _ => rfl⟩

section

variable (inv : Inv s)

include inv

/-- Every statement of `scheduler`. -/
theorem Inv.scheduler (at_ : (s.cpus c).code = code)
    (step : scheduler s c code choice = some (s', effect)) : Inv s' := by
  have proc := inv.proc c
  have away := inv.away c
  rw [at_] at proc away
  unfold Sched.scheduler at step
  split at step
  · obtain ⟨s1, acquired, ⟨⟩⟩ := Option.map_eq_some_iff.mp step
    refine inv.acquire acquired ?_ rfl ?_ rfl ?_ nofun nofun
    all_goals rw [at_]; rfl
  · split at step
    · next runnable =>
      cases step
      exact inv.pick at_ runnable
    · cases step
      refine inv.release (fun _ => rfl) rfl rfl rfl ?_ rfl ?_ rfl ?_ nofun
      all_goals rw [at_]; rfl
  · cases step
    refine inv.move ⟨State.setCurrent_goto, rfl, nofun, nofun⟩ rfl (fun _ => rfl) rfl ?_ ?_ ?_
    all_goals rw [at_]; rfl
  · cases step
    refine inv.move ⟨State.saveCpu_goto, proc, fun p same => same, nofun⟩ rfl (fun _ => rfl) rfl
      ?_ ?_ ?_
    all_goals rw [at_]; rfl
  · next p =>
    cases step
    obtain ⟨runs, holds⟩ := (s.context p).entry_runs
    refine inv.move (inv.goto _ rfl ?_ ?_ ?_) rfl (fun _ => rfl) rfl ?_ ?_ ?_
    · rw [at_]
      rfl
    · rw [at_]
      exact fun _ same => same
    · rintro t q job entered
      obtain ⟨-, entered⟩ := Code.thread.inj entered
      cases resume : s.context p <;> rw [resume] at entered <;> cases entered
    · rw [at_]
      exact holds p
    · rw [at_]
      exact Code.runs_thread runs
    · rw [at_]
      exact Code.leaves_thread runs
  · cases step
    refine inv.move ⟨State.setCurrent_goto, rfl, nofun, nofun⟩ rfl (fun _ => rfl) rfl ?_ ?_ ?_
    all_goals rw [at_]; rfl
  · cases step
    refine inv.release (fun _ => rfl) rfl rfl rfl ?_ rfl ?_ rfl ?_ nofun
    all_goals rw [at_]; rfl
  · obtain ⟨s1, acquired, ⟨⟩⟩ := Option.map_eq_some_iff.mp step
    refine inv.acquire acquired ?_ rfl ?_ rfl ?_ nofun nofun
    all_goals rw [at_]; rfl
  · next q chan =>
    cases step
    refine inv.wakeup ?_ rfl ?_ rfl ?_ (inv.goto _ rfl ?_ nofun nofun)
    all_goals rw [at_]; rfl
  · cases step
    refine inv.release (fun _ => rfl) rfl rfl rfl ?_ rfl ?_ rfl ?_ nofun
    all_goals rw [at_]; rfl
  · cases step

theorem Inv.visited (at_ : (s.cpus c).code = .thread t (.held q job))
    (cpus : s1.cpus = s.cpus) :
    GoesOn s (s1.goto c (.thread t (.done q))) c { s.cpus c with code := .thread t (.done q) } := by
  refine inv.goto _ cpus ?_ ?_ nofun
  · rw [at_]
    rfl
  · rw [at_]
    exact fun _ same => same

/-- `kfork` and `kclone` take an unused process, which no other thread has taken. -/
theorem Inv.alloc (at_ : (s.cpus c).code = .thread t (.held q (.alloc true)))
    (unused : (s.procs q).state = .unused) :
    Inv ((allocproc s t q true).goto c (.thread t (.done q))) := by
  have fresh : (s.procs q).state ≠ .used := by
    rw [unused]
    exact nofun
  have taken : ∀ p, s.np p ≠ some q := fun p made => fresh (inv.used p q made)
  have procs : ((allocproc s t q true).goto c (.thread t (.done q))).procs =
      (s.setProc q fun proc => { proc with pid := s.nextpid, state := .used }).procs := rfl
  refine inv.visit ?_ (inv.visited at_ rfl) rfl procs rfl ?_ rfl ?_ nofun ?_ ?_ ?_
  · rw [at_]
    rfl
  · rw [at_]
    rfl
  · rw [unused]
    exact nofun
  · intro p r made
    change update s.np t (some q) p = some r at made
    by_cases self : p = t
    · rw [self, update_self] at made
      cases made
      rw [procs, setProc_self]
    · rw [update_of_ne self] at made
      rw [procs]
      exact inv.used_other fresh p r made
  · intro p p' r made made'
    change update s.np t (some q) p = some r at made
    change update s.np t (some q) p' = some r at made'
    by_cases self : p = t <;> by_cases self' : p' = t
    · rw [self, self']
    · rw [self, update_self] at made
      rw [update_of_ne self', ← made] at made'
      exact absurd made' (taken p')
    · rw [self', update_self] at made'
      rw [update_of_ne self, ← made'] at made
      exact absurd made (taken p)
    · rw [update_of_ne self] at made
      rw [update_of_ne self'] at made'
      exact inv.mine p p' r made made'
  · intro t' other
    apply update_of_ne
    rintro rfl
    exact other (by rw [at_]; rfl)

/-- `kfork` and `kclone` start the process that they have taken, which has waited for it. -/
theorem Inv.start (at_ : (s.cpus c).code = .thread t (.held q .start)) :
    Inv ((Job.run s t q .start).goto c (.thread t (.done q))) := by
  have made : s.np t = some q := of_decide_eq_true (inv.plan c t q .start at_)
  have others : ∀ p r, update s.np t none p = some r → p ≠ t ∧ s.np p = some r := by
    intro p r left
    by_cases self : p = t
    · rw [self, update_self] at left
      cases left
    · rw [update_of_ne self] at left
      exact ⟨self, left⟩
  refine inv.visit (q := q) (f := fun proc => { proc with state := .runnable })
    ?_ (inv.visited at_ rfl) rfl rfl rfl ?_ rfl ?_ nofun ?_ ?_ ?_
  · rw [at_]
    rfl
  · rw [at_]
    rfl
  · rw [inv.used t q made]
    exact nofun
  · intro p r left
    obtain ⟨self, made'⟩ := others p r left
    have other : r ≠ q := by
      rintro rfl
      exact self (inv.mine p t r made' made)
    change ((s.setState q .runnable).procs r).state = _
    rw [State.setState, setProc_other s q other]
    exact inv.used p r made'
  · intro p p' r first second
    exact inv.mine p p' r (others p r first).2 (others p' r second).2
  · intro t' other
    apply update_of_ne
    rintro rfl
    exact other (by rw [at_]; rfl)

/-- What a thread does to a process whose lock it has taken. -/
theorem Inv.runJob (at_ : (s.cpus c).code = .thread t (.held q job)) :
    Inv ((job.run s t q).goto c (.thread t (.done q))) := by
  have holds : (s.cpus c).code.holds = some q := by
    rw [at_]
    rfl
  have runs : Code.runs (.thread t (.done q)) = (s.cpus c).code.runs := by
    rw [at_]
    rfl
  have left : (s.cpus c).code.leaves = none := by
    rw [at_]
    rfl
  have unchanged : Inv (s.goto c (.thread t (.done q))) :=
    inv.move (inv.visited at_ rfl) rfl (fun _ => rfl) rfl holds.symm runs left.symm
  -- a visit that stops at a process which is neither running nor taken by `kfork`
  have changed : ∀ {f : Proc → Proc}, (s.procs q).state ≠ .running →
      (s.procs q).state ≠ .used → (f (s.procs q)).state ≠ .running →
      Inv ((s.setProc q f).goto c (.thread t (.done q))) := fun stopped other after =>
    inv.visit holds (inv.visited at_ rfl) rfl rfl rfl runs rfl stopped after (inv.used_other other)
      inv.mine fun _ _ => rfl
  cases job with
  | wakeup chan => exact inv.wakeup holds rfl runs rfl left (inv.visited at_ rfl)
  | kkill pid =>
    simp only [Job.run]
    split
    · by_cases sleeps : (s.procs q).state = .sleeping
      · apply changed
        · simp [sleeps]
        · simp [sleeps]
        · simp [Proc.kill, sleeps]
      · refine inv.move (inv.visited at_ rfl) rfl ?_ rfl holds.symm runs left.symm
        exact State.setProc_state_same (by simp [Proc.kill, sleeps])
    · exact unchanged
  | reap =>
    simp only [Job.run]
    split
    · next zombie =>
      apply changed
      · simp [zombie]
      · simp [zombie]
      · simp [Proc.cleared]
    · exact unchanged
  | alloc ok =>
    simp only [Job.run]
    split
    · next unused =>
      cases ok with
      | false =>
        refine inv.visit (f := Proc.cleared) holds (inv.visited at_ rfl) rfl rfl rfl runs rfl
          ?_ ?_ (inv.used_other ?_) inv.mine fun _ _ => rfl
        · simp [unused]
        · simp [Proc.cleared]
        · simp [unused]
      | true => exact inv.alloc at_ unused
    · exact unchanged
  | start => exact inv.start at_

theorem Inv.threadAcquire (at_ : (s.cpus c).code = .thread t .body)
    (step : (s.acquire c q (.thread t pc)).map (·, none) = some (s', effect))
    (holds : pc.holds t = some q) (runs : pc.leaves = false)
    (plan : ∀ q job, pc = .held q job → job.allowed s t q = true) : Inv s' := by
  obtain ⟨s1, acquired, ⟨⟩⟩ := Option.map_eq_some_iff.mp step
  refine inv.acquire acquired ?_ holds ?_ (Code.leaves_thread runs) ?_ ?_ ?_
  · rw [at_]
    rfl
  · rw [at_, Code.runs_thread runs, Code.runs_thread rfl]
  · rw [at_]
    rfl
  · rw [at_]
    exact fun _ same => same
  · rintro t q job ⟨⟩
    exact plan q job rfl

theorem Inv.threadRelease (at_ : (s.cpus c).code = .thread t pc)
    (same : ∀ p, (s1.procs p).state = (s.procs p).state) (cpus : s1.cpus = s.cpus)
    (lock : s1.lock = s.lock) (np : s1.np = s.np) (holds : pc.holds t = some q)
    (runs : pc.leaves = false) : Inv (s1.release c q (.thread t .body)) := by
  refine inv.release same cpus lock np ?_ rfl ?_ rfl ?_ ?_
  · rw [at_]
    exact holds
  · rw [at_, Code.runs_thread runs, Code.runs_thread rfl]
  · rw [at_]
    rfl
  · rw [at_]
    exact fun _ same => same

/-- Every statement of a kernel thread. -/
theorem Inv.thread (at_ : (s.cpus c).code = .thread t pc)
    (step : thread s c t t pc choice = some (s', effect)) : Inv s' := by
  unfold Sched.thread at step
  split at step
  · cases step
    exact inv.threadRelease at_ (fun _ => rfl) rfl rfl rfl rfl rfl
  · exact inv.threadAcquire at_ step rfl rfl nofun
  · exact inv.threadAcquire at_ step rfl rfl nofun
  · split at step
    · cases step
    · exact inv.threadAcquire at_ step rfl rfl nofun
  · split at step
    · next allowed =>
      refine inv.threadAcquire at_ step rfl rfl ?_
      rintro q job ⟨⟩
      exact allowed
    · cases step
  · cases step
    exact inv.stop at_ rfl rfl nofun
  · cases step
    exact inv.stop at_ rfl rfl nofun
  · cases step
    exact inv.stop at_ rfl rfl nofun
  · split at step <;> cases step
    refine inv.move (inv.goto _ rfl ?_ ?_ nofun) rfl (fun _ => rfl) rfl ?_ ?_ ?_
    · rw [at_]
      rfl
    · rw [at_]
      exact fun _ same => same
    all_goals rw [at_]; rfl
  · -- the scheduler resumes with the process that it switched to
    rw [inv.away c t (by rw [at_]; rfl)] at step
    cases step
    refine inv.move (inv.goto _ rfl ?_ nofun nofun) rfl (fun _ => rfl) rfl ?_ ?_ ?_
    all_goals rw [at_]; rfl
  · cases step
    exact inv.threadRelease at_ (State.setProc_state_same rfl) rfl rfl rfl rfl rfl
  · cases step
    exact inv.threadRelease at_ (fun _ => rfl) rfl rfl rfl rfl rfl
  · cases step
    exact inv.runJob at_
  · cases step
    exact inv.threadRelease at_ (fun _ => rfl) rfl rfl rfl rfl rfl
  · cases step

theorem Inv.step (step : exec s (c, choice) = some (s', effect)) : Inv s' := by
  unfold exec at step
  dsimp only at step
  split at step
  · next t pc at_ =>
    rw [inv.proc c, at_] at step
    exact inv.thread at_ step
  · exact inv.scheduler rfl step

end

end Xv6.Sched
