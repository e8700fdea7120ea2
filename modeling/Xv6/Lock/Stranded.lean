import Xv6.Lock.Destroy

/-!
# Stranded waiters

Only `sys_lock_release` wakes the processes that sleep for a lock. A waiter is
left behind by the three other things that change its situation: the slot is
destroyed under it, the holder exits without releasing, or the holder asks for
the lock again and sleeps for itself (`waiter_stranded`).

`Tended` is the condition on one step that rules the three out, and
`notStranded_of_tended` the invariant of the runs that meet it: while
`locks[id].lk` is free, a process asleep on `&locks[id]` waits for another live
process that holds the lock.

The invariant says why: a process that is asleep on `&locks[id]`, or is about to
be, finds the lock held, or a `wakeup` that has not come to it yet. `wakeup` runs
with `lk` held, so with `lk` free only the first remains.
-/

namespace Xv6.Lock

/-- With the slot's spinlock free, a process asleep on `&locks[id]` waits for a
lock that another live process holds. -/
def NotStranded (s : State) : Prop :=
  ∀ id p, (s.locks id).lk = none → (s.procs p).state = .sleeping →
    (s.procs p).chan = some (.lock id) →
    (s.locks id).used = true ∧ (s.locks id).locked = true ∧
      ∃ q, (s.procs q).pid = (s.locks id).pid ∧ (s.procs q).state.live = true ∧ q ≠ p

/-- Process `p` is recorded as the holder of slot `id`. -/
def State.holdsLock (s : State) (p : Slot) (id : Id) : Prop :=
  (s.locks id).locked = true ∧ (s.locks id).pid = (s.procs p).pid
  deriving Decidable

/-- The condition on one step: no slot is destroyed while a process waits for it,
no holder of a lock exits, and no holder asks for its lock again. -/
def Tended (s : State) (l : Label) : Prop :=
  (∀ id ∈ destroys s l.1, ∀ q, (s.pc q).waits ≠ some id) ∧
    match l.1 with
    | .exit p => ∀ id, ¬ s.holdsLock p id
    | .call p (.acquire i) => ∀ id ∈ lockId i, ¬ s.holdsLock p id
    | _ => True

instance (s : State) (l : Label) : Decidable (Tended s l) :=
  @instDecidableAnd _ _ inferInstance <|
    match l.1 with
    | .exit _ => inferInstanceAs (Decidable (∀ _, ¬ _))
    | .call _ (.acquire _) => inferInstanceAs (Decidable (∀ _ ∈ _, ¬ _))
    | .call _ .create | .call _ (.release _) | .call _ (.destroy _) | .run _ | .dispatch _
    | .yield _ | .kill _ | .spurious _ | .allocproc _ | .start _ | .reap _ => isTrue trivial

/-! ## The failing run -/

/-- The slot is destroyed under a sleeping waiter. -/
theorem waiter_stranded : ¬ ∀ s, system.Reachable s → NotStranded s := by
  intro always
  obtain ⟨s, reach, free, asleep, chan, unused⟩ : ∃ s, system.Reachable s ∧ (s.locks 0).lk = none ∧
      (s.procs 1).state = .sleeping ∧ (s.procs 1).chan = some (.lock 0) ∧
      (s.locks 0).used = false :=
    Lts.exists_of_run rfl (destroyedWhileWaiting.take 20) (by decide +kernel)
  have used := (always s reach 0 1 free asleep chan).1
  rw [unused] at used
  cases used

/-! ## The invariant of tended runs -/

/-- The process has decided to sleep for slot `id` and has not been woken. -/
def State.sleepsFor (s : State) (p : Slot) (id : Id) : Prop :=
  s.pc p = .sleepHeld id ∨ s.pc p = .sleepFree id ∨
    s.pc p = .asleep id ∧ (s.procs p).state = .sleeping

structure Waited (s : State) : Prop where
  /-- Waiters have seen the slot allocated, and it still is. -/
  used : ∀ p id, (s.pc p).waits = some id → (s.locks id).used = true
  /-- A held lock has a live holder. -/
  owner : ∀ id, (s.locks id).locked = true →
    ∃ q, (s.procs q).pid = (s.locks id).pid ∧ (s.procs q).state.live = true
  /-- A process inside a `lock_acquire` is not the holder. -/
  notSelf : ∀ p id, (s.pc p).acquires = some id → ¬ s.holdsLock p id
  /-- A sleeper finds the lock held, or the `wakeup` that will come to it. -/
  woken : ∀ p id, s.sleepsFor p id →
    (s.locks id).locked = true ∨ ∃ q j, s.pc q = .wakeup id j ∧ j ≤ p.val

theorem Waited.notStranded (sound : Sound s) (inv : Waited s) : NotStranded s := by
  intro id p free asleep onChan
  obtain ⟨id', point, chan⟩ := sound.asleep p asleep
  have same : id' = id := by
    rw [onChan] at chan
    cases chan
    rfl
  subst same
  have used := inv.used p id' (by simp [point, Pc.waits])
  have locked : (s.locks id').locked = true := by
    rcases inv.woken p id' (.inr (.inr ⟨point, asleep⟩)) with locked | ⟨q, j, waker, -⟩
    · exact locked
    · have held := sound.spin q id' (by simp [waker, Pc.holds])
      rw [free] at held
      cases held
  obtain ⟨q, pid, live⟩ := inv.owner id' locked
  refine ⟨used, locked, q, pid, live, ?_⟩
  rintro rfl
  exact inv.notSelf q id' (by simp [point, Pc.acquires]) ⟨locked, pid.symm⟩

variable {s s' : State} {p : Slot} {e : Option Effect} {l : Label}

theorem RunStep.waited_used (inv : Waited s) (tended : Tended s (.run p, e))
    (step : RunStep s p s' e) (q : Slot) (id : Id) (waits : (s'.pc q).waits = some id) :
    (s'.locks id).used = true := by
  have before := inv.used
  cases step with
  | lock spins free =>
    obtain ⟨-, same⟩ := Pc.acquires_of_spins spins
    grind
  | @destroyed id' point used =>
    have nobody := tended.1 id' (destroys_run point used)
    grind [Pc.waits]
  | _ => grind [Pc.waits]

theorem RunStep.live_iff (step : RunStep s p s' e) (running : (s.procs p).state = .running)
    (q : Slot) : (s'.procs q).state.live = (s.procs q).state.live := by
  cases step with
  | wakeupOther point other awake =>
    simp only [State.setPc_procs, State.setProc_procs]
    split
    · next same =>
      subst same
      rw [Proc.wakeup_state]
      split
      · next sleeping => rw [sleeping.1]; rfl
      · rfl
    · rfl
  | sleepSwitch point =>
    simp only [State.setPc_procs, State.setProc_procs]
    split
    · next same => subst same; rw [running]; rfl
    · rfl
  | _ => grind

theorem RunStep.waited_owner (inv : Waited s) (running : (s.procs p).state = .running)
    (step : RunStep s p s' e) (id : Id) (locked : (s'.locks id).locked = true) :
    ∃ q, (s'.procs q).pid = (s'.locks id).pid ∧ (s'.procs q).state.live = true := by
  -- processes keep their pids and none ends, so only the recorded pid matters
  suffices ∃ q, (s.procs q).pid = (s'.locks id).pid ∧ (s.procs q).state.live = true by
    obtain ⟨q, pid, live⟩ := this
    exact ⟨q, (step.sameProcs running q).1.trans pid, (step.live_iff running q).trans live⟩
  have before := inv.owner
  cases step with
  | acquired point free =>
    have live : (s.procs p).state.live = true := by rw [running]; rfl
    grind
  | _ => grind

theorem RunStep.waited_notSelf (sound : Sound s) (inv : Waited s)
    (running : (s.procs p).state = .running) (step : RunStep s p s' e) (q : Slot) (id : Id)
    (inside : (s'.pc q).acquires = some id) : ¬ s'.holdsLock q id := by
  have before := inv.notSelf
  have pid := (step.sameProcs running q).1
  unfold State.holdsLock at before ⊢
  cases step with
  | lock spins free =>
    obtain ⟨same, -⟩ := Pc.acquires_of_spins spins
    grind
  | acquired point free =>
    -- the process that took the lock has left the call; any other has another pid
    by_cases self : q = p
    · subst self
      simp [Pc.acquires] at inside
    have inCall : s.pc q ≠ .user := by
      rintro outside
      simp [self, outside, Pc.acquires] at inside
    have usedQ : (s.procs q).state ≠ .unused := by
      rcases sound.busy q inCall with state | state | state <;> simp [state]
    have distinct : (s.procs p).pid ≠ (s.procs q).pid := fun same =>
      self (sound.pid_inj p q (by simp [running]) usedQ same).symm
    grind
  | _ => grind [Pc.acquires]

theorem Waited.woken_of (inv : Waited s) {id : Id} (sleeps : s.sleepsFor q id)
    (locked : (s.locks id).locked = true → (s'.locks id).locked = true)
    (wakers : ∀ r j, s.pc r = .wakeup id j → s'.pc r = .wakeup id j) :
    (s'.locks id).locked = true ∨ ∃ r j, s'.pc r = .wakeup id j ∧ j ≤ q.val := by
  rcases inv.woken q id sleeps with held | ⟨r, j, waker, before⟩
  · exact .inl (locked held)
  · exact .inr ⟨r, j, wakers r j waker, before⟩

theorem Waited.woken_of_next (inv : Waited s) {id id' : Id} (sleeps : s.sleepsFor q id)
    (point : s.pc p = .wakeup id' r.val) (behind : id = id' → q ≠ r)
    (locked : (s'.locks id).locked = (s.locks id).locked)
    (next : s'.pc p = .wakeup id' (r.val + 1)) (others : ∀ t, t ≠ p → s'.pc t = s.pc t) :
    (s'.locks id).locked = true ∨ ∃ t j, s'.pc t = .wakeup id j ∧ j ≤ q.val := by
  rcases inv.woken q id sleeps with held | ⟨t, j, waker, before⟩
  · exact .inl (locked.trans held)
  by_cases self : t = p
  · subst self
    rw [point] at waker
    cases waker
    have past : r.val ≠ q.val := fun same => behind rfl (Fin.ext same.symm)
    exact .inr ⟨t, r.val + 1, next, by omega⟩
  · exact .inr ⟨t, j, (others t self).trans waker, before⟩

theorem Pc.sleepless_of_spins {pc pc' : Pc} {id : Id} (spins : pc.spins = some (id, pc'))
    (id' : Id) : pc' ≠ .sleepHeld id' ∧ pc' ≠ .sleepFree id' ∧ pc' ≠ .asleep id' := by
  cases pc <;> simp only [Pc.spins, Option.some.injEq, Prod.mk.injEq, reduceCtorEq] at spins
  all_goals
    obtain ⟨rfl, rfl⟩ := spins
    simp

theorem RunStep.waited_woken (sound : Sound s) (inv : Waited s)
    (running : (s.procs p).state = .running) (tended : Tended s (.run p, e))
    (step : RunStep s p s' e) (q : Slot) (id : Id) (sleeps : s'.sleepsFor q id) :
    (s'.locks id).locked = true ∨ ∃ r j, s'.pc r = .wakeup id j ∧ j ≤ q.val := by
  unfold State.sleepsFor at sleeps
  cases step with
  | lock spins free =>
    have sleepless := Pc.sleepless_of_spins spins
    refine inv.woken_of ?_ (by grind) (by grind [Pc.spins])
    unfold State.sleepsFor
    grind
  | @mustSleep id' point locked =>
    by_cases self : q = p
    · left
      grind
    · refine inv.woken_of ?_ (by grind) (by grind)
      unfold State.sleepsFor
      grind
  | @released id' point used locked owner =>
    by_cases same : id = id'
    · subst same
      exact .inr ⟨p, 0, by simp, Nat.zero_le _⟩
    · refine inv.woken_of ?_ (by grind) (by grind)
      unfold State.sleepsFor
      grind
  | @wakeupSelf id' point =>
    refine inv.woken_of_next ?_ point ?_ rfl (by simp) (by grind)
    · unfold State.sleepsFor
      grind
    · rintro - rfl
      grind
  | @wakeupOther id' r point other awake =>
    refine inv.woken_of_next ?_ point ?_ rfl (by simp) (by grind)
    · unfold State.sleepsFor
      grind [Proc.wakeup_state]
    -- the process `wakeup` has just come to does not sleep on the channel any more
    rintro rfl rfl
    have onChan := sound.asleep q
    grind [State.inSleep, Proc.wakeup_state, Proc.wakeup_chan]
  | @wakeupDone id' j point past =>
    have before : s.sleepsFor q id := by
      unfold State.sleepsFor
      grind
    rcases inv.woken q id before with held | ⟨r, j', waker, ahead⟩
    · exact .inl (by simpa using held)
    · exact .inr ⟨r, j', by grind, ahead⟩
  | @destroyed id' point used =>
    have nobody := tended.1 id' (destroys_run point used)
    have before : s.sleepsFor q id := by
      unfold State.sleepsFor
      grind
    have waits : (s.pc q).waits = some id := by
      grind [Pc.waits]
    exact inv.woken_of before (by grind) (by grind)
  | @created id' point free =>
    have before : s.sleepsFor q id := by
      unfold State.sleepsFor
      grind
    have used := inv.used q id <| by
      grind [Pc.waits]
    exact inv.woken_of before (by grind) (by grind)
  | _ =>
    refine inv.woken_of ?_ (by grind) (by grind)
    unfold State.sleepsFor
    grind

theorem RunStep.waited (sound : Sound s) (inv : Waited s) (running : (s.procs p).state = .running)
    (tended : Tended s (.run p, e)) (step : RunStep s p s' e) : Waited s' where
  used := step.waited_used inv tended
  owner := step.waited_owner inv running
  notSelf := step.waited_notSelf sound inv running
  woken := step.waited_woken sound inv running tended

/-- What the environment does to one process keeps the invariant, if a holder
stays alive under its pid and no process falls asleep. -/
theorem Waited.setProc (inv : Waited s)
    (holder : ∀ id, s.holdsLock p id → (s.procs p).state.live = true →
      new.pid = (s.procs p).pid ∧ new.state.live = true)
    (pid : s.pc p ≠ .user → new.pid = (s.procs p).pid)
    (awake : new.state = .sleeping → (s.procs p).state = .sleeping) :
    Waited (s.setProc p new) where
  used := inv.used
  owner id locked := by
    obtain ⟨q, owns, live⟩ := inv.owner id locked
    refine ⟨q, ?_⟩
    rw [State.setProc_procs]
    split
    · next same =>
      subst same
      obtain ⟨samePid, stillLive⟩ := holder id ⟨locked, owns.symm⟩ live
      exact ⟨samePid.trans owns, stillLive⟩
    · exact ⟨owns, live⟩
  notSelf q id inside := by
    have before := inv.notSelf q id inside
    have inCall : s.pc q ≠ .user := by
      rintro outside
      rw [State.setProc_pc, outside] at inside
      cases inside
    unfold State.holdsLock at before ⊢
    grind
  woken q id sleeps := by
    refine inv.woken q id ?_
    unfold State.sleepsFor at sleeps ⊢
    grind

theorem Waited.enter (inv : Waited s)
    (tended : Tended s (.call p c, none)) (atUser : s.pc p = .user)
    (entry : c.Enters pc) : Waited (s.setPc p pc) := by
  have outside : pc.waits = none ∧ (∀ id, pc.acquires = some id → ¬ s.holdsLock p id) ∧
      ∀ id, pc ≠ .sleepHeld id ∧ pc ≠ .sleepFree id ∧ pc ≠ .asleep id := by
    rcases entry with ⟨rfl, rfl⟩ | ⟨id, i, found, ⟨rfl, rfl⟩ | ⟨rfl, rfl⟩ | ⟨rfl, rfl⟩⟩
    · simp [Pc.waits, Pc.acquires]
    · have notHolder := tended.2 i found
      simp [Pc.waits, Pc.acquires, notHolder]
    · simp [Pc.waits, Pc.acquires]
    · simp [Pc.waits, Pc.acquires]
  obtain ⟨noWait, notHolder, sleepless⟩ := outside
  have before := inv.notSelf
  constructor
  · have used := inv.used
    grind
  · exact inv.owner
  · intro q id inside
    unfold State.holdsLock at *
    grind
  · intro q id sleeps
    refine inv.woken_of ?_ (fun held => held) (by grind)
    unfold State.sleepsFor at sleeps ⊢
    grind

theorem Step.waited (sound : Sound s) (inv : Waited s) (tended : Tended s l)
    (step : Step s l s') : Waited s' := by
  cases step with
  | run running step => exact step.waited sound inv running tended
  | enter running atUser entry => exact inv.enter tended atUser entry
  | refused => exact inv
  | dispatch runnable | yield running _ | spurious sleeping | start used =>
    exact inv.setProc (by simp [ProcState.live]) (by simp) (by simp)
  | @kill p used awake =>
    refine inv.setProc (fun id _ live => ⟨rfl, ?_⟩) (fun _ => rfl) ?_
    · simp only [Proc.kill]
      split
      · rfl
      · exact live
    · simp only [Proc.kill]
      split <;> simp
  | @allocproc p unused =>
    have idle : s.pc p = .user := by
      by_contra inside
      have state := sound.busy p inside
      simp [unused] at state
    have inv' : Waited (s.setProc p { s.procs p with pid := s.nextpid, state := .used }) :=
      inv.setProc (by simp [unused, ProcState.live]) (by simp [idle]) (by simp)
    exact ⟨inv'.used, inv'.owner, inv'.notSelf, inv'.woken⟩
  | @exit p running atUser =>
    refine inv.setProc (fun id holds _ => ?_) (by simp) (by simp)
    exact (tended.2 id holds).elim
  | @reap p zombie =>
    have idle : s.pc p = .user := by
      by_contra inside
      have state := sound.busy p inside
      simp [zombie] at state
    exact inv.setProc (by simp [zombie, ProcState.live]) (by simp [idle])
      (by simp [Proc.cleared])

theorem waited_of_reachable (reach : system.ReachableWhen Tended s) : Sound s ∧ Waited s := by
  refine reach.invariant (P := fun s => Sound s ∧ Waited s) ?_ ?_
  · rintro s rfl
    refine ⟨sound_boot, ?_⟩
    constructor <;> simp [boot, Pc.waits, Pc.acquires, State.sleepsFor]
  · rintro s l s' ⟨sound, inv⟩ tended step
    exact ⟨Step.sound sound (.of_exec step), Step.waited sound inv tended (.of_exec step)⟩

/-- **No stranded waiter**, in every run in which no slot is destroyed under a
waiter, no holder exits, and no holder asks for its own lock. -/
theorem notStranded_of_tended (reach : system.ReachableWhen Tended s) : NotStranded s := by
  obtain ⟨sound, inv⟩ := waited_of_reachable reach
  exact inv.notStranded sound

/-- Process 0 holds lock 0 and process 1 sleeps for it, in a tended run. -/
theorem notStranded_contended :
    ∃ s, system.ReachableWhen Tended s ∧ (s.procs 1).state = .sleeping ∧ NotStranded s := by
  obtain ⟨s, reach, asleep⟩ : ∃ s, system.ReachableWhen Tended s ∧ (s.procs 1).state = .sleeping :=
    Lts.exists_of_run rfl (destroyedWhileWaiting.take 17) (by decide +kernel)
  exact ⟨s, reach, asleep, notStranded_of_tended reach⟩

end Xv6.Lock
