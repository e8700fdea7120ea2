import Xv6.Pipe.Basic

/-!
# Who sleeps on a counter of the pipe

A process sleeps on `&pi->nread` while the pipe is empty, and on `&pi->nwrite` while it is
full. Who changes that holds `pi->lock`, and wakes up the sleepers before it releases it; so
the invariant is that a sleeper has its reason to sleep, or the holder of the lock is still
to come by in `wakeup` (`Pc.Wakes`). A process counts as a sleeper once it has released
`pi->lock` in `sleep`. As it holds its `p->lock` until it is `SLEEPING`, `wakeup` waits for
it.

One exit of `pipewrite` is without a `wakeup`: if it finds that it has been killed, after it
has put bytes into the pipe. `Deserts` is a state in which a process is about to take it.
-/

namespace Xv6.Pipe

open State (setPc_pc setProc_procs)

/-- There is a reason to sleep on the counter. -/
def Ready (s : State) : Counter → Prop
  | .nread => s.nread = s.nwrite ∧ s.writeopen = true
  | .nwrite => s.nwrite = s.nread + UInt32.ofNat PIPESIZE ∧ s.readopen = true

/-- In `sleep` with `pi->lock` released, or asleep. -/
def Waits (s : State) (q : Slot) (c : Counter) : Prop :=
  (∃ k, s.pc q = .sleepFree k ∧ k.counter = c) ∨ SleepsOn (s.procs q) c

/-- The holder of the lock is going to wake up process `q` from the counter. -/
def Pc.Wakes : Pc → Counter → Slot → Prop
  | .writing _ _ put, c, _ => put = true ∧ c = .nread
  | .copying _ _, c, _ => c = .nwrite
  | .wakeup c' j _, c, q => c' = c ∧ j ≤ q.val
  | _, _, _ => False

def After.Sees (s : State) : After → Prop
  | .sleep k => Ready s k.counter
  | .release _ => True

/-- What the holder of the lock knows: that a byte was put into an open pipe, or that there is a
reason to sleep. -/
def Pc.Sees (s : State) : Pc → Prop
  | .writing _ _ put => put = true → s.readopen = true
  | .wakeup _ _ next => next.Sees s
  | .sleepEnter k | .sleepHeld k => Ready s k.counter
  | _ => True

structure Woken (s : State) : Prop where
  held : Held s
  sees : ∀ p, (s.pc p).Sees s
  asleep : ∀ {q c}, SleepsOn (s.procs q) c → ∃ k, s.pc q = .asleep k ∧ k.counter = c
  waits : ∀ {q c}, Waits s q c → Ready s c ∨ ∃ p, (s.pc p).Wakes c q

/-- In `pipewrite` with more bytes to write, and with a byte in the pipe that was put there since
`pi->lock` was acquired. -/
def Pc.unannounced : Pc → Bool
  | .writing n i put => put && i < n
  | _ => false

/-- A process is about to leave `pipewrite` because it has been killed, and has not announced its
bytes. -/
def Deserts (s : State) (p : Slot) : Prop :=
  (s.pc p).unannounced = true ∧ (s.procs p).killed = true
  deriving Decidable

section Pcs

variable {s : State} {p q : Slot} {pc : Pc} {c : Counter}

theorem Pc.Wakes.holds (wakes : pc.Wakes c q) : pc.holds = true := by
  cases pc with
  | writing | copying | wakeup => rfl
  | _ => exact wakes.elim

theorem Pc.sees_of_out (out : pc.holds = false) : pc.Sees s := by
  cases pc with
  | writing | wakeup | sleepEnter | sleepHeld => cases out
  | _ => trivial

theorem Woken.mine (woken : Woken s) (mine : s.lock = some p) (waits : Waits s q c) :
    Ready s c ∨ (s.pc p).Wakes c q := by
  rcases woken.waits waits with ready | ⟨p', wakes⟩
  · exact .inl ready
  · have has := woken.held p' wakes.holds
    rw [mine] at has
    cases has
    exact .inr wakes

theorem Woken.free (woken : Woken s) (free : s.lock = none) (waits : Waits s q c) : Ready s c := by
  rcases woken.waits waits with ready | ⟨p', wakes⟩
  · exact ready
  · have has := woken.held p' wakes.holds
    rw [free] at has
    cases has

end Pcs

section Step

variable {s s' t : State} {p q : Slot} {pc' : Pc} {c : Counter} {e : Option Effect} {a : Action}

theorem Woken.not_waiting (woken : Woken s) (awake : ∀ k, s.pc p ≠ .asleep k) :
    ¬ SleepsOn (s.procs p) c := by
  intro sleeps
  obtain ⟨k, at_, -⟩ := woken.asleep sleeps
  exact awake k at_

/-- A step of `p` in a critical section, or into one. Those that wait after the step waited before,
and for each of them there is to be a reason after the step. -/
theorem Woken.moves (woken : Woken s) (mine : s.lock = some p ∨ s.lock = none)
    (awake : ∀ k, s.pc p ≠ .asleep k) (pcs : t.pc = s.pc) (procs : t.procs = s.procs)
    (held : Held (t.setPc p pc')) (out : ∀ k, pc' ≠ .sleepFree k) (sees : pc'.Sees t)
    (reason : ∀ {q c}, q ≠ p → Waits s q c → Ready t c ∨ pc'.Wakes c q) :
    Woken (t.setPc p pc') where
  held := held
  sees q := by
    rw [setPc_pc]
    split
    · exact sees
    · next ne =>
      rw [pcs]
      exact Pc.sees_of_out (woken.held.other mine ne)
  asleep := by
    intro q c sleeps
    have same : (t.setPc p pc').procs = s.procs := procs
    rw [same] at sleeps
    have ne : q ≠ p := by
      rintro rfl
      exact woken.not_waiting awake sleeps
    rw [setPc_pc, if_neg ne, pcs]
    exact woken.asleep sleeps
  waits := by
    intro q c waits
    have same : (t.setPc p pc').procs = s.procs := procs
    unfold Waits at waits
    rw [same, setPc_pc] at waits
    have ne : q ≠ p := by
      rintro rfl
      rw [if_pos rfl] at waits
      rcases waits with ⟨k, at_, -⟩ | sleeps
      · exact out k at_
      · exact woken.not_waiting awake sleeps
    rw [if_neg ne, pcs] at waits
    rcases reason ne waits with ready | wakes
    · exact .inl ready
    · refine .inr ⟨p, ?_⟩
      rw [setPc_pc, if_pos rfl]
      exact wakes

theorem Woken.setProc (woken : Woken s) (fewer : ∀ {c}, SleepsOn v c → SleepsOn (s.procs q) c) :
    Woken (s.setProc q v) := by
  have before {q' : Slot} {c : Counter} (sleeps : SleepsOn ((s.setProc q v).procs q') c) :
      SleepsOn (s.procs q') c := by
    rw [setProc_procs] at sleeps
    split at sleeps
    · next same => exact same ▸ fewer sleeps
    · exact sleeps
  refine ⟨woken.held, woken.sees, fun sleeps => woken.asleep (before sleeps), fun waits => ?_⟩
  rcases waits with inSleep | sleeps
  · exact woken.waits (.inl inSleep)
  · exact woken.waits (.inr (before sleeps))

theorem Woken.idle (woken : Woken s) (mine : s.lock = some p)
    (idle : ∀ c q, ¬ (s.pc p).Wakes c q) (waits : Waits s q c) : Ready s c :=
  (woken.mine mine waits).resolve_right (idle c q)

theorem Counter.chan_inj (same : c.chan = c'.chan) : c = c' := by
  cases c <;> cases c' <;> first | rfl | cases same

section

variable (woken : Woken s)

include woken

theorem Woken.wakeupOther (at_ : s.pc p = .wakeup c q.val next)
    (unlocked : (s.pc q).locked = false) :
    Woken ((s.setProc q ((s.procs q).wakeup (some c.chan))).setPc p
      (.wakeup c (q.val + 1) next)) := by
  have fewer : Woken (s.setProc q ((s.procs q).wakeup (some c.chan))) := by
    refine woken.setProc fun {c'} sleeps => ?_
    unfold SleepsOn at sleeps
    rw [Proc.wakeup_state, Proc.wakeup_chan] at sleeps
    split at sleeps
    · cases sleeps.1
    · exact sleeps
  have mine := woken.held.here at_ rfl
  have at' : (s.setProc q ((s.procs q).wakeup (some c.chan))).pc p = .wakeup c q.val next := at_
  refine fewer.moves (.inl mine) (by rw [at']; exact nofun) rfl rfl
    (fewer.held.goes fun _ => mine) nofun ?_ fun {q' c'} _ waits => ?_
  · have sees := fewer.sees p
    rw [at'] at sees
    exact sees
  rcases fewer.mine mine waits with ready | wakes
  · exact .inl ready
  rw [at'] at wakes
  obtain ⟨rfl, le⟩ := wakes
  refine .inr ⟨rfl, Nat.lt_of_le_of_ne le fun same => ?_⟩
  -- the process at this slot has just been woken up, and is not in `sleep` either
  cases Fin.ext same
  rcases waits with ⟨k, inSleep, -⟩ | sleeps
  · have inSleep : s.pc q = .sleepFree k := inSleep
    rw [inSleep] at unlocked
    cases unlocked
  · rw [setProc_procs, if_pos rfl] at sleeps
    exact Proc.wakeup_not_sleeping _ _ sleeps

theorem Woken.goes (at_ : s.pc p = pc) (inside : pc.holds = true)
    (inside' : pc'.holds = true) (sees : pc'.Sees s)
    (wakes : ∀ {q c}, q ≠ p → Waits s q c → pc.Wakes c q → Ready s c ∨ pc'.Wakes c q) :
    Woken (s.setPc p pc') := by
  have mine := woken.held.here at_ inside
  refine woken.moves (.inl mine) (fun k asleep => ?_) rfl rfl (woken.held.goes fun _ => mine)
    (fun k free => ?_) sees fun ne waits => ?_
  · rw [at_] at asleep
    rw [asleep] at inside
    cases inside
  · rw [free] at inside'
    cases inside'
  · rcases woken.mine mine waits with ready | may
    · exact .inl ready
    · rw [at_] at may
      exact wakes ne waits may

theorem Woken.sleepHeld (at_ : s.pc p = .sleepHeld k) :
    Woken ((s.setLock none).setPc p (.sleepFree k)) := by
  have mine := woken.held.here at_ rfl
  have idle {q : Slot} {c : Counter} (waits : Waits s q c) : Ready s c := by
    refine woken.idle mine (fun c q wakes => ?_) waits
    rw [at_] at wakes
    exact wakes
  have ready := woken.sees p
  rw [at_] at ready
  refine ⟨woken.held.release mine rfl, Monitor.forall_goes (K := Pc.Sees s) woken.sees
    trivial, ?_, ?_⟩
  · intro q c sleeps
    obtain ⟨k', asleep, on⟩ := woken.asleep sleeps
    have ne : q ≠ p := by
      rintro rfl
      rw [at_] at asleep
      cases asleep
    refine ⟨k', ?_, on⟩
    rw [setPc_pc, if_neg ne]
    exact asleep
  · rintro q c (⟨k', inSleep, rfl⟩ | sleeps)
    · rw [setPc_pc] at inSleep
      split at inSleep
      · cases inSleep
        exact .inl ready
      · exact .inl (idle (.inl ⟨k', inSleep, rfl⟩))
    · exact .inl (idle (.inr sleeps))

theorem Woken.sleepFree (at_ : s.pc p = .sleepFree k) :
    Woken ((s.setProc p { s.procs p with
      chan := some k.counter.chan, state := .sleeping }).setPc p (.asleep k)) := by
  have waker {p' q : Slot} {c : Counter} (wakes : (s.pc p').Wakes c q) : p' ≠ p := by
    rintro rfl
    rw [at_] at wakes
    exact wakes
  refine ⟨woken.held.goes nofun,
    Monitor.forall_goes (K := Pc.Sees s) woken.sees trivial, ?_, ?_⟩
  · intro q c sleeps
    rw [setPc_pc]
    have sleeps : SleepsOn ((s.setProc p _).procs q) c := sleeps
    rw [setProc_procs] at sleeps
    split at sleeps
    · next same =>
      rw [if_pos same]
      exact ⟨k, rfl, Counter.chan_inj (Option.some.inj sleeps.2)⟩
    · next ne =>
      rw [if_neg ne]
      exact woken.asleep sleeps
  · intro q c waits
    have before : Waits s q c := by
      by_cases same : q = p
      · subst same
        refine .inl ⟨k, at_, ?_⟩
        rcases waits with ⟨k', inSleep, -⟩ | sleeps
        · rw [setPc_pc, if_pos rfl] at inSleep
          cases inSleep
        · have sleeps : SleepsOn ((s.setProc q _).procs q) c := sleeps
          rw [setProc_procs, if_pos rfl] at sleeps
          exact Counter.chan_inj (Option.some.inj sleeps.2)
      · rcases waits with ⟨k', inSleep, on⟩ | sleeps
        · rw [setPc_pc, if_neg same] at inSleep
          exact .inl ⟨k', inSleep, on⟩
        · have sleeps : SleepsOn ((s.setProc p _).procs q) c := sleeps
          rw [setProc_procs, if_neg same] at sleeps
          exact .inr sleeps
    rcases woken.waits before with ready | ⟨p', wakes⟩
    · exact .inl ready
    · refine .inr ⟨p', ?_⟩
      rw [setPc_pc, if_neg (waker wakes)]
      exact wakes

theorem Woken.leaves (idle : ∀ c q, ¬ (s.pc p).Wakes c q)
    (awake : ∀ c, ¬ SleepsOn (s.procs p) c) (out : pc'.holds = false)
    (free : ∀ k, pc' ≠ .sleepFree k) : Woken (s.setPc p pc') := by
  refine ⟨woken.held.goes fun inside => ?_,
    Monitor.forall_goes (K := Pc.Sees s) woken.sees (Pc.sees_of_out out), ?_, ?_⟩
  · rw [out] at inside
    cases inside
  · intro q c sleeps
    have ne : q ≠ p := by
      rintro rfl
      exact awake c sleeps
    rw [setPc_pc, if_neg ne]
    exact woken.asleep sleeps
  · intro q c waits
    have before : Waits s q c := by
      rcases waits with ⟨k, inSleep, on⟩ | sleeps
      · rw [setPc_pc] at inSleep
        split at inSleep
        · exact absurd inSleep (free k)
        · exact .inl ⟨k, inSleep, on⟩
      · exact .inr sleeps
    rcases woken.waits before with ready | ⟨p', wakes⟩
    · exact .inl ready
    have ne : p' ≠ p := by
      rintro rfl
      exact idle c q wakes
    refine .inr ⟨p', ?_⟩
    rw [setPc_pc, if_neg ne]
    exact wakes

theorem Woken.resumed (at_ : s.pc p = .asleep k) :
    Woken ((s.setProc p { s.procs p with chan := none }).setPc p (.reacquire k)) := by
  have awake : Woken (s.setProc p { s.procs p with chan := none }) := by
    refine woken.setProc fun sleeps => ?_
    cases sleeps.2
  refine awake.leaves (fun c q wakes => ?_) (fun c sleeps => ?_) rfl nofun
  · have wakes : (s.pc p).Wakes c q := wakes
    rw [at_] at wakes
    exact wakes
  · rw [setProc_procs, if_pos rfl] at sleeps
    cases sleeps.2

theorem Woken.lock (spins : (s.pc p).spins = some pc') (free : s.lock = none) :
    Woken ((s.setLock (some p)).setPc p pc') := by
  have begins : (∀ k, s.pc p ≠ .asleep k) ∧ (∀ k, pc' ≠ .sleepFree k) ∧
      pc'.Sees (s.setLock (some p)) := by
    cases at_ : s.pc p with
    | write n | read n =>
      rw [at_] at spins
      cases spins
      exact ⟨nofun, nofun, by first | trivial | exact nofun⟩
    | reacquire k =>
      rw [at_] at spins
      cases spins
      cases k with
      | writer n i => exact ⟨nofun, nofun, nofun⟩
      | reader n => exact ⟨nofun, nofun, trivial⟩
    | _ =>
      rw [at_] at spins
      cases spins
  exact woken.moves (.inr free) begins.1 rfl rfl (woken.held.acquire free) begins.2.1 begins.2.2
    fun _ waits => .inl (woken.free free waits)

theorem Woken.put {put : Bool} (at_ : s.pc p = .writing n i put)
    (opened : s.readopen = true) (room : s.nwrite ≠ s.nread + UInt32.ofNat PIPESIZE) (ch : UInt8) :
    Woken ((s.put ch).setPc p (.writing n (i + 1) true)) := by
  have mine := woken.held.here at_ rfl
  refine woken.moves (t := s.put ch) (.inl mine) (by rw [at_]; exact nofun) rfl rfl
    (woken.held.goes fun _ => mine) nofun (fun _ => opened)
    fun {q c} _ waits => ?_
  cases c with
  | nread => exact .inr ⟨rfl, rfl⟩
  | nwrite =>
    rcases woken.mine mine waits with ready | wakes
    · exact absurd ready.1 room
    · rw [at_] at wakes
      cases wakes.2

theorem Woken.get (at_ : s.pc p = .copying n i) (some : s.nread ≠ s.nwrite) :
    Woken (s.advance.setPc p (.copying n (i + 1))) := by
  have mine := woken.held.here at_ rfl
  refine woken.moves (t := s.advance) (.inl mine) (by rw [at_]; exact nofun) rfl rfl
    (woken.held.goes fun _ => mine) nofun trivial fun {q c} _ waits => ?_
  cases c with
  | nwrite => exact .inr rfl
  | nread =>
    rcases woken.mine mine waits with ready | wakes
    · exact absurd ready.1 some
    · rw [at_] at wakes
      cases wakes

theorem Woken.close (at_ : s.pc p = .close writable)
    (free : s.lock = none) : Woken (((s.shut writable).setLock (some p)).setPc p
      (.wakeup (closeCounter writable) 0 (.release .closed))) := by
  refine woken.moves (t := (s.shut writable).setLock (some p)) (.inr free)
    (by rw [at_]; exact nofun) rfl rfl (woken.held.acquire free) nofun
    trivial fun {q c} _ waits => ?_
  have ready := woken.free free waits
  cases writable with
  | true =>
    cases c with
    | nread => exact .inr ⟨rfl, Nat.zero_le _⟩
    | nwrite => exact .inl ready
  | false =>
    cases c with
    | nread => exact .inl ready
    | nwrite => exact .inr ⟨rfl, Nat.zero_le _⟩

theorem Woken.release (at_ : s.pc p = .release r) :
    Woken (((s.free r).setLock none).setPc p .user) := by
  have mine := woken.held.here at_ rfl
  refine woken.moves (t := (s.free r).setLock none) (.inl mine) (by rw [at_]; exact nofun) rfl rfl
    (woken.held.release mine rfl) nofun trivial fun _ waits => .inl ?_
  refine woken.idle mine (fun c q wakes => ?_) waits
  rw [at_] at wakes
  exact wakes

end

theorem RunStep.woken (run : RunStep s p s' e) (woken : Woken s) (stays : ¬ Deserts s p) :
    Woken s' := by
  have sees := woken.sees p
  cases run with
  | lock spins free => exact woken.lock spins free
  | @gaveUp n i put at_ more left =>
    refine woken.goes at_ rfl rfl trivial fun _ _ wakes => ?_
    -- having put a byte, the process has found the pipe open and has not been killed
    rw [at_] at sees
    rcases left with shut | killed
    · rw [sees wakes.1] at shut
      cases shut
    · refine absurd ⟨?_, killed⟩ stays
      rw [at_]
      exact Bool.and_eq_true_iff.mpr ⟨wakes.1, decide_eq_true more⟩
  | full at_ opened full =>
    refine woken.goes at_ rfl rfl ⟨full, opened⟩ fun _ _ wakes => ?_
    exact .inr ⟨wakes.2.symm, Nat.zero_le _⟩
  | put at_ opened room => exact woken.put at_ opened room _
  | wrote at_ =>
    exact woken.goes at_ rfl rfl trivial fun _ _ wakes => .inr ⟨wakes.2.symm, Nat.zero_le _⟩
  | readKilled at_ | readStart at_ => exact woken.goes at_ rfl rfl trivial fun _ _ => False.elim
  | readSleep at_ empty opened => exact woken.goes at_ rfl rfl ⟨empty, opened⟩ fun _ _ => False.elim
  | get at_ some => exact woken.get at_ some
  | readDone at_ =>
    exact woken.goes at_ rfl rfl trivial fun _ _ wakes => .inr ⟨wakes.symm, Nat.zero_le _⟩
  | close at_ free => exact woken.close at_ free
  | wakeupSelf at_ =>
    rw [at_] at sees
    refine woken.goes at_ rfl rfl sees fun ne _ wakes => .inr ⟨wakes.1, ?_⟩
    exact Nat.lt_of_le_of_ne wakes.2 fun same => ne (Fin.ext same.symm)
  | wakeupOther at_ _ unlocked => exact woken.wakeupOther at_ unlocked
  | @wakeupDone c next j at_ ended =>
    rw [at_] at sees
    have none {q : Slot} (le : j ≤ q.val) : False := by
      omega
    cases next with
    | sleep k => exact woken.goes at_ rfl rfl sees fun _ _ wakes => (none wakes.2).elim
    | release r => exact woken.goes at_ rfl rfl trivial fun _ _ wakes => (none wakes.2).elim
  | sleepEnter at_ =>
    rw [at_] at sees
    exact woken.goes at_ rfl rfl sees fun _ _ => False.elim
  | sleepHeld at_ => exact woken.sleepHeld at_
  | sleepFree at_ => exact woken.sleepFree at_
  | resumed at_ => exact woken.resumed at_
  | release at_ => exact woken.release at_

theorem Woken.call (woken : Woken s) (at_ : s.pc p = .user) (c : Call) :
    Woken (s.setPc p (enter c)) := by
  refine woken.leaves (fun c q wakes => ?_)
    (fun c => woken.not_waiting (by rw [at_]; exact nofun)) ?_ ?_
  · rw [at_] at wakes
    exact wakes
  · cases c <;> rfl
  · cases c <;> exact nofun

theorem Step.woken (step : Step s a s' e) (woken : Woken s)
    (stays : ∀ {p io}, a = .run p io → ¬ Deserts s p) : Woken s' := by
  cases step with
  | call at_ => exact woken.call at_ _
  | run _ run => exact run.woken woken (stays rfl)
  | dispatch | yield => exact woken.setProc fun sleeps => ProcState.noConfusion sleeps.1
  | kill =>
    refine woken.setProc fun sleeps => ?_
    unfold SleepsOn Proc.kill at sleeps
    split at sleeps
    · cases sleeps.1
    · exact sleeps
  | outside _ quiet => exact woken.setProc fun sleeps => absurd sleeps (quiet _)

end Step

/-- The step is not the exit of a killed `pipewrite` that has put bytes into the pipe. -/
def Stays (s : State) : Label → Prop
  | (.run p _, _) => ¬ Deserts s p
  | _ => True

instance (s : State) : ∀ label, Decidable (Stays s label)
  | (.run p _, _) => inferInstanceAs (Decidable (¬ Deserts s p))
  | (.call _ _, _) | (.dispatch _, _) | (.yield _, _) | (.kill _, _) | (.outside _ _, _) =>
    .isTrue trivial

theorem Woken.of_reachable (reach : system.ReachableWhen Stays s) : Woken s := by
  refine reach.invariant ?_ ?_
  · rintro s ⟨data, procs, quiet, rfl⟩
    refine ⟨nofun, fun _ => trivial, fun sleeps => absurd sleeps (quiet _ _), ?_⟩
    rintro q c (⟨k, inSleep, -⟩ | sleeps)
    · cases inSleep
    · exact absurd sleeps (quiet q c)
  · rintro s ⟨a, e⟩ s' woken stays step
    refine (Step.of_exec step).woken woken fun {p io} is => ?_
    cases is
    exact stays

/-- If no killed `pipewrite` leaves its bytes unannounced: while the lock is free, who sleeps on
`&pi->nread` has an empty pipe with a writer, and who sleeps on `&pi->nwrite` a full pipe with a
reader. -/
theorem sleeps_with_reason {s : State} (reach : system.ReachableWhen Stays s)
    (free : s.lock = none) (p : Slot) :
    (SleepsOn (s.procs p) .nread → s.nread = s.nwrite ∧ s.writeopen = true) ∧
    (SleepsOn (s.procs p) .nwrite →
      s.nwrite = s.nread + UInt32.ofNat PIPESIZE ∧ s.readopen = true) := by
  have woken := Woken.of_reachable reach
  exact ⟨fun sleeps => woken.free free (.inr sleeps), fun sleeps => woken.free free (.inr sleeps)⟩

/-- All processes run, and process 0 goes to sleep on the empty pipe. -/
def readerSleeps : List Action := .call 0 (.read 1) :: List.replicate 5 (.run 0 none)

/-- A writer that is killed before it has put a byte into the pipe leaves a reader asleep. -/
theorem sleeps_with_reason_killed : ∃ s, system.ReachableWhen Stays s ∧ s.lock = none ∧
    (s.procs 1).killed = true ∧ SleepsOn (s.procs 0) .nread ∧ s.nread = s.nwrite ∧
    s.writeopen = true := by
  obtain ⟨s, reach, free, killed, sleeps⟩ : ∃ s, system.ReachableWhen Stays s ∧ s.lock = none ∧
      (s.procs 1).killed = true ∧ SleepsOn (s.procs 0) .nread :=
    Lts.exists_of_run running_start (readerSleeps ++
      [.call 1 (.write 2), .run 1 none, .kill 1, .run 1 (some 7), .run 1 none]) (by decide +kernel)
  exact ⟨s, reach, free, killed, sleeps, (sleeps_with_reason reach free 0).1 sleeps⟩

/-- A writer that is killed after its first byte leaves a reader asleep on a pipe that is not
empty. -/
theorem killed_writer_deserts : ∃ s, system.Reachable s ∧ s.lock = none ∧
    SleepsOn (s.procs 0) .nread ∧ s.nread ≠ s.nwrite :=
  Lts.exists_of_run running_start (readerSleeps ++
    [.call 1 (.write 2), .run 1 none, .run 1 (some 7), .kill 1, .run 1 none, .run 1 none])
    (by decide +kernel)

end Xv6.Pipe
