import Xv6.Wait.Basic

/-!
# Program points and process states

The invariant that ties the place of a process in the code to its state, to
`wait_lock` and to the child it is creating.
-/

namespace Xv6.Wait

/-- Program points at which a process holds `wait_lock`. -/
def Pc.holdsWait : Pc → Bool
  | .reparent _ _ | .wakeup _ _ _ _ | .zombify _ | .zombieHeld | .scan _ _ _ | .sleepEnter _
  | .sleepHeld _ | .waitReturn _ => true
  | _ => false

/-- The child that `kfork` or `kclone` has allocated and not yet started. -/
def Pc.creates : Pc → Option Slot
  | .setParent np _ | .setRunnable np _ => some np
  | _ => none

/-- Program points at which the process has become a zombie. -/
def Pc.ended : Pc → Bool
  | .zombieHeld | .zombieFree | .dead => true
  | _ => false

structure Sound (s : State) : Prop where
  wait : ∀ p, (s.pc p).holdsWait = true → s.waitLock = some p
  zombie : ∀ p, (s.procs p).state = .zombie → (s.pc p).ended = true
  ended : ∀ p, (s.pc p).ended = true →
    (s.procs p).state = .zombie ∨ s.pc p = .dead ∧ (s.procs p).state = .unused
  /-- A slot that is free or being set up runs no kernel code. -/
  idle : ∀ p, (s.procs p).state = .unused ∨ (s.procs p).state = .used →
    s.pc p = .user ∨ s.pc p = .dead
  asleep : ∀ p, (s.procs p).state = .sleeping →
    (∃ k, s.pc p = .asleep k ∧ (s.procs p).chan = some (.proc p)) ∨ ∃ x, s.pc p = .blocked x
  child : ∀ p np, (s.pc p).creates = some np → (s.procs np).state = .used
  child_inj : ∀ p p' np, (s.pc p).creates = some np → (s.pc p').creates = some np → p = p'

theorem State.onCpu_iff {s : State} :
    s.onCpu p = true ↔
      (s.procs p).state = .running ∨ s.pc p = .zombieHeld ∨ s.pc p = .zombieFree := by
  simp [State.onCpu, or_assoc]

variable {s s' : State} {p : Slot} {e : Option Effect} {l : Label}

theorem Pc.of_spins {pc pc' : Pc} (spins : pc.spins = some pc') :
    pc.ended = false ∧ pc.creates = none ∧ pc'.holdsWait = true ∧ pc'.ended = false ∧
      pc'.creates = none := by
  cases pc <;> simp only [Pc.spins, Option.some.injEq, reduceCtorEq] at spins <;>
    subst spins <;> simp [Pc.ended, Pc.creates, Pc.holdsWait]

theorem Pc.start_of_spins {pc pc' : Pc} (spins : pc.spins = some pc') :
    (∃ status, pc' = .reparent status 0) ∨ ∃ k, pc' = .scan k 0 false := by
  cases pc <;> simp_all [Pc.spins, eq_comm]

@[simp, grind =] theorem Pc.afterWakeup_ended (status : Int) (child : Option Nat) :
    (Pc.afterWakeup status child).ended = false := by
  cases child <;> rfl

@[simp, grind =] theorem Pc.afterWakeup_creates (status : Int) (child : Option Nat) :
    (Pc.afterWakeup status child).creates = none := by
  cases child <;> rfl

attribute [local grind →] Pc.of_spins
attribute [local grind =] Pc.holdsWait Pc.ended Pc.creates Pc.locked Proc.wakeup_state
  Proc.wakeup_chan State.newProc Proc.cleared Proc.kill

section

variable (sound : Sound s)

include sound

theorem Sound.dead (zombie : (s.procs q).state = .zombie) (unlocked : (s.pc q).locked = false) :
    s.pc q = .dead := by
  have done := sound.zombie q zombie
  cases at_ : s.pc q <;> simp_all [Pc.ended, Pc.locked]

theorem RunStep.sound_wait (step : RunStep s p s' e) :
    ∀ q, (s'.pc q).holdsWait = true → s'.waitLock = some q := by
  have wait := sound.wait
  cases step with
  | _ => grind

theorem RunStep.sound_zombie (step : RunStep s p s' e) :
    ∀ q, (s'.procs q).state = .zombie → (s'.pc q).ended = true := by
  have zombie := sound.zombie
  have child := sound.child
  cases step with
  | _ => grind

theorem RunStep.sound_ended (step : RunStep s p s' e) :
    ∀ q, (s'.pc q).ended = true →
      (s'.procs q).state = .zombie ∨ s'.pc q = .dead ∧ (s'.procs q).state = .unused := by
  have ended := sound.ended
  have child := sound.child
  cases step with
  | reaped _ _ zombie unlocked =>
    have dead := sound.dead zombie unlocked
    grind
  | _ => grind

theorem RunStep.sound_idle (onCpu : s.onCpu p = true) (step : RunStep s p s' e) :
    ∀ q, (s'.procs q).state = .unused ∨ (s'.procs q).state = .used →
      s'.pc q = .user ∨ s'.pc q = .dead := by
  have idle := sound.idle
  have ended := sound.ended
  have child := sound.child
  rw [State.onCpu_iff] at onCpu
  cases step with
  | reaped _ _ zombie unlocked =>
    have dead := sound.dead zombie unlocked
    grind
  | _ => grind

theorem RunStep.sound_asleep (onCpu : s.onCpu p = true)
    (step : RunStep s p s' e) :
    ∀ q, (s'.procs q).state = .sleeping →
      (∃ k, s'.pc q = .asleep k ∧ (s'.procs q).chan = some (.proc q)) ∨
        ∃ x, s'.pc q = .blocked x := by
  have asleep := sound.asleep
  have ended := sound.ended
  have child := sound.child
  rw [State.onCpu_iff] at onCpu
  cases step with
  | _ => grind

theorem RunStep.sound_child (onCpu : s.onCpu p = true) (step : RunStep s p s' e) :
    ∀ q np, (s'.pc q).creates = some np → (s'.procs np).state = .used := by
  have ended := sound.ended
  have child := sound.child
  rw [State.onCpu_iff] at onCpu
  have inj := sound.child_inj
  cases step with
  | _ => grind

theorem RunStep.sound_child_inj (step : RunStep s p s' e) :
    ∀ q q' np, (s'.pc q).creates = some np → (s'.pc q').creates = some np → q = q' := by
  have child := sound.child
  have inj := sound.child_inj
  cases step with
  | _ => grind

end

theorem RunStep.sound (sound : Sound s) (onCpu : s.onCpu p = true)
    (step : RunStep s p s' e) : Sound s' where
  wait := step.sound_wait sound
  zombie := step.sound_zombie sound
  ended := step.sound_ended sound
  idle := step.sound_idle sound onCpu
  asleep := step.sound_asleep sound onCpu
  child := step.sound_child sound onCpu
  child_inj := step.sound_child_inj sound

/-- An environment step on one process keeps the invariant if it leads from an
awake state to one that the process's program point admits. -/
theorem Sound.setProc (sound : Sound s) (kept : new.chan = (s.procs p).chan)
    (awake : new.state = .runnable ∧ (s.procs p).state = .sleeping ∨
      new.state = .running ∧ (s.procs p).state = .runnable ∨
      new.state = .runnable ∧ (s.procs p).state = .running ∨
      new.state = (s.procs p).state) : Sound (s.setProc p new) := by
  obtain ⟨wait, zombie, ended, idle, asleep, child, child_inj⟩ := sound
  constructor
  · exact wait
  all_goals grind

theorem Pc.of_enter (entry : Wait.enter p c = some pc) :
    pc.holdsWait = false ∧ pc.ended = false ∧ pc.creates = none := by
  cases c <;> grind [Wait.enter]

theorem Pc.of_block {pc pc' : Pc} (block : pc.block = some pc') :
    (∃ x, pc' = .blocked x) ∧ pc.ended = false ∧ pc.creates = none := by
  cases pc <;> simp only [Pc.block, Option.some.injEq, reduceCtorEq] at block <;>
    simp [← block, Pc.ended, Pc.creates]

theorem Step.sound (sound : Sound s) (step : Step s l s') : Sound s' := by
  cases step with
  | run onCpu step => exact step.sound sound onCpu
  | enter running atUser entry =>
    have outside := Pc.of_enter entry
    obtain ⟨wait, zombie, ended, idle, asleep, child, child_inj⟩ := sound
    constructor <;> grind
  | dispatch runnable => exact sound.setProc rfl (.inr (.inl ⟨rfl, runnable⟩))
  | preempt running => exact sound.setProc rfl (.inr (.inr (.inl ⟨rfl, running⟩)))
  | tick => exact ⟨sound.wait, sound.zombie, sound.ended, sound.idle, sound.asleep, sound.child,
      sound.child_inj⟩
  | setkilled running => exact sound.setProc rfl (.inr (.inr (.inr rfl)))
  | block running point =>
    obtain ⟨⟨x, rfl⟩, outside⟩ := Pc.of_block point
    obtain ⟨wait, zombie, ended, idle, asleep, child, child_inj⟩ := sound
    constructor <;> grind
  | @unblock p addr =>
    refine sound.setProc (Proc.wakeup_chan _ _) ?_
    rw [Proc.wakeup_state]
    split
    · next asleep => exact .inl ⟨rfl, asleep.1⟩
    · exact .inr (.inr (.inr rfl))

theorem sound_boot : Sound boot := by
  constructor <;> grind [boot]

end Xv6.Wait
