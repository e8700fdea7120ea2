import Xv6.Wait.Sound

/-!
# No missed exit

`kexit` wakes the parent, becomes a zombie and only then releases `wait_lock`;
`kwait`, `kjoin` and `waitx` scan the table and go to sleep inside one critical
section of it. So a process that sleeps for a child and has a zombie child finds
a `wakeup` on its way to it (`Woken.woken`), and that `wakeup` runs with
`wait_lock` held.

`reparent` is the only other place that makes zombie children. It hands them to
`initproc` before it wakes it, under the same lock.
-/

namespace Xv6.Wait

/-- The process has decided to sleep for a child and has not been woken. -/
def State.sleepsFor (s : State) (p : Slot) (k : Waiter) : Prop :=
  s.pc p = .sleepEnter k ∨ s.pc p = .sleepHeld k ∨ s.pc p = .sleepFree k ∨
    s.pc p = .asleep k ∧ (s.procs p).state = .sleeping

/-- The process in slot `q` is a zombie that `k`, called by `p`, would reap. -/
def State.zombieChild (s : State) (k : Waiter) (p q : Slot) : Prop :=
  s.childFor k p q = true ∧ (s.procs q).state = .zombie

structure Woken (s : State) : Prop where
  /-- The children a scan has passed have not exited. -/
  scan : ∀ p k j havekids q, s.pc p = .scan k j havekids → q.val < j → ¬ s.zombieChild k p q
  /-- A sleeper that has a zombie child finds the `wakeup` that will come to it. -/
  woken : ∀ p k q, s.sleepsFor p k → s.zombieChild k p q →
    ∃ r status i child, s.pc r = .wakeup status (some p) i child ∧ i ≤ p.val
  /-- The last `wakeup` of `kexit` is for the parent. -/
  parent : ∀ r status chan i, s.pc r = .wakeup status chan i none → chan = (s.procs r).parent
  /-- A `wakeup` has woken the processes it has passed. -/
  past : ∀ r status p i child k, s.pc r = .wakeup status (some p) i child → p.val < i →
    ¬ s.sleepsFor p k
  /-- A process about to become a zombie has woken its parent. -/
  last : ∀ r status p k, s.pc r = .zombify status → (s.procs r).parent = some p →
    ¬ s.sleepsFor p k

variable {s s' : State} {p q : Slot} {k : Waiter} {e : Option Effect} {l : Label}

attribute [local grind →] Pc.start_of_spins
attribute [local grind =] Pc.afterWakeup Pc.holdsWait Pc.ended Pc.creates Pc.locked
  Proc.wakeup_state Proc.wakeup_chan Proc.wakeup_parent Proc.wakeup_isThread State.newProc
  Proc.cleared Proc.kill State.childFor

theorem RunStep.sleepsFor_of (step : RunStep s p s' e) (sleeps : s'.sleepsFor q k) :
    s.sleepsFor q k ∨ q = p ∧ ∃ j havekids, s.pc p = .scan k j havekids ∧ NPROC ≤ j := by
  unfold State.sleepsFor at *
  cases step with
  | @wakeupDone _ _ child => cases child <;> grind
  | _ => grind

theorem RunStep.zombieChild_of (sound : Sound s) (step : RunStep s p s' e)
    (child : s'.zombieChild k q r) :
    s.zombieChild k q r ∨
      (r = p ∧ (s.procs p).parent = some q ∧ ∃ status, s.pc p = .zombify status) ∨
      (q = initproc ∧ ∃ status j, s.pc p = .reparent status j ∧
        s'.pc p = .wakeup status (some initproc) 0 (some j)) := by
  have child := sound.child
  unfold State.zombieChild at *
  cases step with
  | _ => grind

theorem RunStep.spectator (sound : Sound s) (step : RunStep s p s' e) (other : q ≠ p)
    (holds : (s'.pc q).holdsWait = true) :
    s'.pc q = s.pc q ∧ (s.pc p).holdsWait = false ∧ (s'.procs q).parent = (s.procs q).parent := by
  have wait := sound.wait
  have idle := sound.idle
  cases step with
  | _ => grind

theorem RunStep.keeps (sound : Sound s) (step : RunStep s p s' e) (other : q ≠ p)
    (holds : (s.pc q).holdsWait = true) : s'.pc q = s.pc q := by
  have idle := sound.idle
  cases step with
  | _ => grind

/-! ## How a process comes to a program point -/

theorem RunStep.to_scan (step : RunStep s p s' e) (point : s'.pc p = .scan k j havekids) :
    j = 0 ∨ ∃ (q : Slot) (havekids' : Bool),
      j = q.val + 1 ∧ s.pc p = .scan k q.val havekids' ∧ ¬ s.zombieChild k p q := by
  unfold State.zombieChild
  cases step with
  | @wakeupDone _ _ child => cases child <;> grind
  | _ => grind

theorem RunStep.to_wakeup (step : RunStep s p s' e)
    (point : s'.pc p = .wakeup status chan i child) :
    (i = 0 ∧ (child = none → chan = (s'.procs p).parent)) ∨
      ∃ i', i = i' + 1 ∧ s.pc p = .wakeup status chan i' child ∧
        (s'.procs p).parent = (s.procs p).parent := by
  cases step with
  | @wakeupDone _ _ child => cases child <;> grind
  | _ => grind

theorem RunStep.to_zombify (step : RunStep s p s' e) (point : s'.pc p = .zombify status) :
    (s'.procs p).parent = (s.procs p).parent ∧
      ∃ chan i, s.pc p = .wakeup status chan i none ∧ NPROC ≤ i := by
  cases step with
  | @wakeupDone _ _ child => cases child <;> grind
  | _ => grind

theorem RunStep.from_wakeup (sound : Sound s) (step : RunStep s p s' e)
    (point : s.pc p = .wakeup status chan i child) :
    NPROC ≤ i ∨ s'.pc p = .wakeup status chan (i + 1) child ∧
      ∀ q k, chan = some q → q.val = i → ¬ s'.sleepsFor q k := by
  cases step with
  | lock spins free => simp [point, Pc.spins] at spins
  | wakeupDone at_ past => grind
  | wakeupSelf at_ =>
    rw [at_] at point
    cases point
    refine .inr ⟨by simp, fun q k _ same => ?_⟩
    have self : q = p := Fin.ext same
    simp [State.sleepsFor, self]
  | @wakeupOther _ _ _ r at_ other unlocked =>
    rw [at_] at point
    cases point
    refine .inr ⟨by simp, fun q k target same => ?_⟩
    have wait := sound.wait
    have asleep := sound.asleep q
    unfold State.sleepsFor
    grind
  | _ => grind

/-! ## One step keeps the invariant -/

theorem RunStep.sleepsFor_of_free (step : RunStep s p s' e) (free : (s.pc p).holdsWait = false)
    (sleeps : s'.sleepsFor q k) : s.sleepsFor q k := by
  rcases step.sleepsFor_of sleeps with before | ⟨-, j, havekids, point, -⟩
  · exact before
  · rw [point] at free
    cases free

section

variable (sound : Sound s)

include sound

theorem RunStep.zombieChild_of_free (step : RunStep s p s' e)
    (free : (s.pc p).holdsWait = false) (child : s'.zombieChild k q r) : s.zombieChild k q r := by
  rcases step.zombieChild_of sound child with
    before | ⟨-, -, status, point⟩ | ⟨-, status, j, point, -⟩
  · exact before
  all_goals
    rw [point] at free
    cases free

section

variable (inv : Woken s) (step : RunStep s p s' e)

include inv step

theorem RunStep.woken_scan (point : s'.pc r = .scan k j havekids) (before : q.val < j) :
    ¬ s'.zombieChild k r q := by
  intro child
  by_cases self : r = p
  · subst self
    rcases step.to_scan point with start | ⟨q', havekids', next, from_, alive⟩
    · omega
    rcases step.zombieChild_of sound child with
      old | ⟨-, -, status, point'⟩ | ⟨-, status, j, point', -⟩
    · by_cases here : q = q'
      · exact alive (here ▸ old)
      · have passed : q.val ≠ q'.val := fun same => here (Fin.ext same)
        exact inv.scan r k q'.val havekids' q from_ (by omega) old
    all_goals
      rw [from_] at point'
      cases point'
  · obtain ⟨same, free, -⟩ := step.spectator sound self (by rw [point]; rfl)
    exact inv.scan r k j havekids q (same ▸ point) before
      (step.zombieChild_of_free sound free child)

theorem RunStep.woken_parent (point : s'.pc r = .wakeup status chan i none) :
    chan = (s'.procs r).parent := by
  by_cases self : r = p
  · subst self
    rcases step.to_wakeup point with ⟨-, start⟩ | ⟨i', -, from_, kept⟩
    · exact start rfl
    · exact (inv.parent r status chan i' from_).trans kept.symm
  · obtain ⟨same, -, kept⟩ := step.spectator sound self (by rw [point]; rfl)
    exact (inv.parent r status chan i (same ▸ point)).trans kept.symm

theorem RunStep.woken_past (point : s'.pc r = .wakeup status (some q) i child)
    (behind : q.val < i) : ¬ s'.sleepsFor q k := by
  intro sleeps
  by_cases self : r = p
  · subst self
    rcases step.to_wakeup point with ⟨start, -⟩ | ⟨i', next, from_, -⟩
    · omega
    rcases step.from_wakeup sound from_ with done | ⟨-, woken⟩
    all_goals
      by_cases here : q.val = i'
      · grind
      · rcases step.sleepsFor_of sleeps with before | ⟨-, j, havekids, point', -⟩
        · exact inv.past r status q i' child k from_ (by omega) before
        · rw [from_] at point'
          cases point'
  · obtain ⟨same, free, -⟩ := step.spectator sound self (by rw [point]; rfl)
    exact inv.past r status q i child k (same ▸ point) behind
      (step.sleepsFor_of_free free sleeps)

theorem RunStep.woken_last (point : s'.pc r = .zombify status)
    (parent : (s'.procs r).parent = some q) : ¬ s'.sleepsFor q k := by
  intro sleeps
  by_cases self : r = p
  · subst self
    obtain ⟨kept, chan, i, from_, done⟩ := step.to_zombify point
    have target : chan = some q :=
      (inv.parent r status chan i from_).trans (kept.symm.trans parent)
    subst target
    rcases step.sleepsFor_of sleeps with before | ⟨-, j, havekids, point', -⟩
    · exact inv.past r status q i none k from_ (by omega) before
    · rw [from_] at point'
      cases point'
  · obtain ⟨same, free, kept⟩ := step.spectator sound self (by rw [point]; rfl)
    exact inv.last r status q k (same ▸ point) (kept.symm.trans parent)
      (step.sleepsFor_of_free free sleeps)

end

/-- The `wakeup` that is to come to a sleeper is still to come after the step. -/
theorem RunStep.waker_stays (step : RunStep s p s' e)
    (sleeps : s'.sleepsFor q k) (point : s.pc r = .wakeup status (some q) i child)
    (ahead : i ≤ q.val) :
    ∃ r status i child, s'.pc r = .wakeup status (some q) i child ∧ i ≤ q.val := by
  by_cases self : r = p
  · subst self
    rcases step.from_wakeup sound point with done | ⟨next, woken⟩
    · omega
    · have here : q.val ≠ i := fun same => woken q k rfl same sleeps
      exact ⟨r, status, i + 1, child, next, by omega⟩
  · have same := step.keeps sound self (by rw [point]; rfl)
    exact ⟨r, status, i, child, same.trans point, ahead⟩

theorem RunStep.woken_woken (inv : Woken s) (step : RunStep s p s' e)
    (sleeps : s'.sleepsFor q k) (child : s'.zombieChild k q r) :
    ∃ r status i child, s'.pc r = .wakeup status (some q) i child ∧ i ≤ q.val := by
  rcases step.sleepsFor_of sleeps with before | ⟨rfl, j, havekids, point, done⟩
  · rcases step.zombieChild_of sound child with
      old | ⟨rfl, parent, status, point⟩ | ⟨rfl, status, j, -, next⟩
    · obtain ⟨r', status, i, child', point, ahead⟩ := inv.woken q k r before old
      exact step.waker_stays sound sleeps point ahead
    · exact (inv.last r status q k point parent before).elim
    · exact ⟨p, status, 0, some j, next, Nat.zero_le _⟩
  · -- a scan that has come to its end has seen no zombie child
    rcases step.zombieChild_of sound child with
      old | ⟨-, -, status, point'⟩ | ⟨-, status, j, point', -⟩
    · exact (inv.scan q k j havekids r point (by omega) old).elim
    all_goals
      rw [point] at point'
      cases point'

theorem RunStep.woken (inv : Woken s) (step : RunStep s p s' e) : Woken s' where
  scan _ _ _ _ _ point before := step.woken_scan sound inv point before
  woken _ _ _ sleeps child := step.woken_woken sound inv sleeps child
  parent _ _ _ _ point := step.woken_parent sound inv point
  past _ _ _ _ _ _ point behind := step.woken_past sound inv point behind
  last _ _ _ _ point parent := step.woken_last sound inv point parent

end

/-- The environment makes no sleeper and no zombie, and moves no holder of
`wait_lock`. -/
theorem Woken.of_frame (inv : Woken s)
    (pcs : ∀ q, (s'.pc q).holdsWait = true ∨ (s.pc q).holdsWait = true → s'.pc q = s.pc q)
    (sleeps : ∀ q k, s'.sleepsFor q k → s.sleepsFor q k)
    (states : ∀ q, (s'.procs q).state = .zombie → (s.procs q).state = .zombie)
    (parents : ∀ q, (s'.procs q).parent = (s.procs q).parent)
    (threads : ∀ q, (s'.procs q).isThread = (s.procs q).isThread) : Woken s' := by
  have children : ∀ k q r, s'.zombieChild k q r → s.zombieChild k q r := by
    unfold State.zombieChild
    grind
  have back : ∀ {r pc}, s'.pc r = pc → pc.holdsWait = true → s.pc r = pc := by
    rintro r pc rfl holds
    exact (pcs r (.inl holds)).symm
  constructor
  · intro r k j havekids q point before child
    exact inv.scan r k j havekids q (back point rfl) before (children k r q child)
  · intro q k r sleeping child
    obtain ⟨r', status, i, c, point, ahead⟩ :=
      inv.woken q k r (sleeps q k sleeping) (children k q r child)
    exact ⟨r', status, i, c, (pcs r' (.inr (by rw [point]; rfl))).trans point, ahead⟩
  · intro r status chan i point
    exact (inv.parent r status chan i (back point rfl)).trans (parents r).symm
  · intro r status q i c k point behind sleeping
    exact inv.past r status q i c k (back point rfl) behind (sleeps q k sleeping)
  · intro r status q k point parent sleeping
    exact inv.last r status q k (back point rfl) ((parents r).symm.trans parent)
      (sleeps q k sleeping)

theorem Step.woken (sound : Sound s) (inv : Woken s) (step : Step s l s') : Woken s' := by
  cases step with
  | run onCpu step => exact step.woken sound inv
  | @enter p c pc running atUser entry =>
    have outside := Pc.of_enter entry
    have awake : ∀ k, pc ≠ .sleepEnter k ∧ pc ≠ .sleepHeld k ∧ pc ≠ .sleepFree k ∧
        pc ≠ .asleep k := by
      cases c <;> grind [Wait.enter]
    refine inv.of_frame ?_ ?_ ?_ ?_ ?_
    · grind
    · unfold State.sleepsFor
      grind
    all_goals grind
  | @block p addr pc running point =>
    obtain ⟨⟨x, rfl⟩, -⟩ := Pc.of_block point
    refine inv.of_frame ?_ ?_ ?_ ?_ ?_
    · cases at_ : s.pc p <;> simp [at_, Pc.block] at point <;> grind
    · unfold State.sleepsFor
      grind
    all_goals grind
  | tick => exact ⟨inv.scan, inv.woken, inv.parent, inv.past, inv.last⟩
  | _ =>
    refine inv.of_frame ?_ ?_ ?_ ?_ ?_
    · grind
    · unfold State.sleepsFor
      grind
    all_goals grind

theorem woken_of_reachable (reach : system.Reachable s) : Woken s := by
  have both : Sound s ∧ Woken s := by
    refine reach.invariant (P := fun s => Sound s ∧ Woken s) ?_ ?_
    · rintro s rfl
      refine ⟨sound_boot, ?_⟩
      constructor <;> simp [boot, State.sleepsFor]
    · rintro s l s' ⟨sound, inv⟩ step
      exact ⟨Step.sound sound (.of_exec step), Step.woken sound inv (.of_exec step)⟩
  exact both.2

/-- With `wait_lock` free, no process sleeps in `kwait` or `waitx` over a zombie
child, and none in `kjoin` over a zombie thread. -/
def NoMissedExit (s : State) : Prop :=
  s.waitLock = none → ∀ p q, (s.procs p).state = .sleeping → (s.procs q).state = .zombie →
    (s.procs q).parent = some p →
    s.pc p ≠ .asleep .kwait ∧ s.pc p ≠ .asleep .waitx ∧
      ((s.procs q).isThread = true → s.pc p ≠ .asleep .kjoin)

theorem Woken.noMissedExit (sound : Sound s) (inv : Woken s) : NoMissedExit s := by
  intro free p q asleep zombie parent
  have awake : ∀ k, s.childFor k p q = true → s.pc p ≠ .asleep k := by
    intro k child point
    obtain ⟨r, status, i, c, waker, -⟩ :=
      inv.woken p k q (.inr (.inr (.inr ⟨point, asleep⟩))) ⟨child, zombie⟩
    have held := sound.wait r (by rw [waker]; rfl)
    rw [free] at held
    cases held
  refine ⟨awake .kwait ?_, awake .waitx ?_, fun thread => awake .kjoin ?_⟩
  · simp [State.childFor, parent]
  · simp [State.childFor, parent]
  · simp [State.childFor, parent, thread]

end Xv6.Wait
