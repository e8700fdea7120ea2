import Xv6.Lib.Transition
import Xv6.Lib.Circular
import Xv6.Lib.Monitor
import Xv6.Proc

/-!
# Pipes

`pipewrite`, `piperead` and `pipeclose` of `kernel/pipe.c` on one pipe, with `sleep`, `wakeup`
and `kkill` of `kernel/proc.c`, as a transition system in which any number of processes
interleave.

The step boundaries are the acquisitions and releases of `pi->lock` and of the `p->lock`s;
`killed(pr)` is one, so that a process can be killed between any two bytes that it writes.
`pi->lock` has a holder. A `p->lock` is held across steps only by its own process inside
`sleep` (`Pc.locked`), and any other critical section of a `p->lock` is one step.

What the model does not decide is a choice of the step: which byte `copyin` finds, and
whether `copyin` and `copyout` succeed. A process outside of the calls is anywhere else in
the system, or its slot gets another process; all the pipe knows of it is that it does not
sleep on a counter of the pipe. After `pipeclose` of the second end the pipe is freed, and
the model has no more steps. That nobody uses it then is the business of the file table.
-/

namespace Xv6.Pipe

open Circular (slot window size)
open Function (update)

def PIPESIZE : Nat := 512

instance : NeZero PIPESIZE := ⟨by decide⟩

/-- The counters, whose addresses are the channels to sleep on. -/
inductive Counter
  | nread | nwrite
  deriving DecidableEq

/-- The address of a counter in the page of the pipe. -/
def Counter.chan : Counter → Chan
  | .nread => .other 536
  | .nwrite => .other 540

/-- What a call returns; `piperead` is shown with its argument. -/
inductive Result
  | wrote (ret : Int)
  | read (n ret : Int)
  | closed
  deriving DecidableEq

/-- A call that sleeps: `pipewrite` after `i` bytes, or `piperead`. -/
inductive Sleeper
  | writer (n : Int) (i : Nat)
  | reader (n : Int)
  deriving DecidableEq

/-- The counter that the call sleeps on. -/
def Sleeper.counter : Sleeper → Counter
  | .writer _ _ => .nwrite
  | .reader _ => .nread

/-- What follows a `wakeup`. -/
inductive After
  | sleep (k : Sleeper)
  | release (r : Result)
  deriving DecidableEq

/-- Where a process is in the code of `pipe.c`. -/
inductive Pc
  | user
  | write (n : Int)
  /-- At the head of the loop of `pipewrite`; `put` says whether the process has put a byte into
  the pipe since it has acquired `pi->lock`. -/
  | writing (n : Int) (i : Nat) (put : Bool)
  | read (n : Int)
  | reading (n : Int)
  | copying (n : Int) (i : Nat)
  | close (writable : Bool)
  /-- In `wakeup` on a counter, about to look at slot `j`. -/
  | wakeup (c : Counter) (j : Nat) (next : After)
  | sleepEnter (k : Sleeper)
  | sleepHeld (k : Sleeper)
  | sleepFree (k : Sleeper)
  | asleep (k : Sleeper)
  | reacquire (k : Sleeper)
  | release (r : Result)
  deriving DecidableEq

/-- `struct pipe`, the processes, and where they are. -/
structure State where
  data : Fin PIPESIZE → UInt8
  nread : UInt32
  nwrite : UInt32
  readopen : Bool
  writeopen : Bool
  lock : Option Slot
  freed : Bool
  procs : Slot → Proc
  pc : Slot → Pc

inductive Call
  | write (n : Int)
  | read (n : Int)
  | close (writable : Bool)
  deriving DecidableEq

inductive Action
  | call (p : Slot) (c : Call)
  /-- `p` runs to its next lock operation. A `copyin` on the way finds the byte `io`; with none,
  a `copyin` or `copyout` fails. -/
  | run (p : Slot) (io : Option UInt8)
  | dispatch (p : Slot)
  | yield (p : Slot)
  /-- `kkill` by any process of the system finds `p`. -/
  | kill (p : Slot)
  /-- `p` is outside of the calls, and its entry of the process table becomes `q`. -/
  | outside (p : Slot) (q : Proc)
  deriving DecidableEq

inductive Effect
  /-- `pipewrite` has put a byte into the pipe. -/
  | accepted (p : Slot) (b : UInt8)
  /-- `piperead` has copied a byte out. -/
  | delivered (p : Slot) (b : UInt8)
  | returned (p : Slot) (r : Result)
  deriving DecidableEq

def State.setPc (s : State) (p : Slot) (pc : Pc) : State :=
  { s with pc := update s.pc p pc }

def State.setProc (s : State) (p : Slot) (q : Proc) : State :=
  { s with procs := update s.procs p q }

def State.setLock (s : State) (holder : Option Slot) : State := { s with lock := holder }

section Projections

variable (s : State) (p p' : Slot) (pc : Pc) (q : Proc)

@[simp] theorem State.setPc_pc : (s.setPc p pc).pc p' = if p' = p then pc else s.pc p' := by
  simp [State.setPc, Function.update_apply]

@[simp] theorem State.setProc_procs :
    (s.setProc p q).procs p' = if p' = p then q else s.procs p' := by
  simp [State.setProc, Function.update_apply]

end Projections

/-- `pi->data[pi->nwrite++ % PIPESIZE] = ch`. -/
def State.put (s : State) (ch : UInt8) : State :=
  { s with data := update s.data (slot PIPESIZE s.nwrite) ch, nwrite := s.nwrite + 1 }

def State.advance (s : State) : State := { s with nread := s.nread + 1 }

/-- `pi->writeopen = 0` or `pi->readopen = 0`. -/
def State.shut (s : State) (writable : Bool) : State :=
  { s with
    writeopen := if writable then false else s.writeopen
    readopen := if writable then s.readopen else false }

/-- `pipeclose` frees the pipe if both ends are closed. -/
def State.free (s : State) (r : Result) : State :=
  { s with freed := r = .closed && !s.readopen && !s.writeopen }

/-- Program points at which a process holds its own `p->lock`. -/
def Pc.locked : Pc → Bool
  | .sleepHeld _ | .sleepFree _ => true
  | _ => false

/-- Program points at which a process holds `pi->lock`. -/
def Pc.holds : Pc → Bool
  | .writing _ _ _ | .reading _ | .copying _ _ | .wakeup _ _ _ | .sleepEnter _ | .sleepHeld _
  | .release _ => true
  | _ => false

/-- Program points of a call at which the process holds no spinlock. -/
def Pc.interruptible : Pc → Bool
  | .write _ | .read _ | .close _ | .reacquire _ => true
  | _ => false

def After.pc : After → Pc
  | .sleep k => .sleepEnter k
  | .release r => .release r

/-- Where a call goes on after `sleep`. -/
def Sleeper.resume : Sleeper → Pc
  | .writer n i => .writing n i false
  | .reader n => .reading n

/-- `acquire(&pi->lock)` and go on at `pc`; the process spins while it is held. -/
def lockThen (s : State) (p : Slot) (pc : Pc) : Option (State × Option Effect) :=
  if s.lock = none then some ((s.setLock (some p)).setPc p pc, none) else none

/-- One iteration of the loop of `pipewrite`. -/
def pipewriteBody (s : State) (p : Slot) (io : Option UInt8) (n : Int) (i : Nat) :
    State × Option Effect :=
  if i < n then
    if s.readopen = false ∨ (s.procs p).killed then (s.setPc p (.release (.wrote (-1))), none)
    else if s.nwrite = s.nread + UInt32.ofNat PIPESIZE then
      (s.setPc p (.wakeup .nread 0 (.sleep (.writer n i))), none)
    else
      match io with
      | none => (s.setPc p (.wakeup .nread 0 (.release (.wrote i))), none)
      | some ch => ((s.put ch).setPc p (.writing n (i + 1) true), some (.accepted p ch))
  else (s.setPc p (.wakeup .nread 0 (.release (.wrote i))), none)

/-- One iteration of the loop in which `piperead` waits. -/
def pipereadWait (s : State) (p : Slot) (n : Int) : State :=
  if s.nread = s.nwrite ∧ s.writeopen then
    if (s.procs p).killed then s.setPc p (.release (.read n (-1)))
    else s.setPc p (.sleepEnter (.reader n))
  else s.setPc p (.copying n 0)

/-- One iteration of the loop in which `piperead` copies. -/
def pipereadCopy (s : State) (p : Slot) (io : Option UInt8) (n : Int) (i : Nat) :
    State × Option Effect :=
  if i < n ∧ s.nread ≠ s.nwrite then
    if io.isSome then
      (s.advance.setPc p (.copying n (i + 1)),
        some (.delivered p (s.data (slot PIPESIZE s.nread))))
    else (s.setPc p (.wakeup .nwrite 0 (.release (.read n (if i = 0 then -1 else i)))), none)
  else (s.setPc p (.wakeup .nwrite 0 (.release (.read n i))), none)

/-- The counter that `pipeclose` wakes up the sleepers of. -/
def closeCounter (writable : Bool) : Counter := if writable then .nread else .nwrite

def runProc (s : State) (p : Slot) (io : Option UInt8) : Option (State × Option Effect) :=
  match s.pc p with
  | .user => none
  | .write n => lockThen s p (.writing n 0 false)
  | .writing n i _ => some (pipewriteBody s p io n i)
  | .read n => lockThen s p (.reading n)
  | .reading n => some (pipereadWait s p n, none)
  | .copying n i => some (pipereadCopy s p io n i)
  | .close writable =>
    lockThen (s.shut writable) p (.wakeup (closeCounter writable) 0 (.release .closed))
  | .wakeup c j next =>
    if h : j < NPROC then
      if ⟨j, h⟩ = p then some (s.setPc p (.wakeup c (j + 1) next), none)
      else if (s.pc ⟨j, h⟩).locked then none
      else some ((s.setProc ⟨j, h⟩ ((s.procs ⟨j, h⟩).wakeup (some c.chan))).setPc p
        (.wakeup c (j + 1) next), none)
    else some (s.setPc p next.pc, none)
  | .sleepEnter k => some (s.setPc p (.sleepHeld k), none)
  | .sleepHeld k => some ((s.setLock none).setPc p (.sleepFree k), none)
  | .sleepFree k =>
    some ((s.setProc p { s.procs p with chan := some k.counter.chan, state := .sleeping }).setPc p
      (.asleep k), none)
  | .asleep k => some ((s.setProc p { s.procs p with chan := none }).setPc p (.reacquire k), none)
  | .reacquire k => lockThen s p k.resume
  | .release r =>
    some (((s.free r).setLock none).setPc p .user, some (.returned p r))

def enter : Call → Pc
  | .write n => .write n
  | .read n => .read n
  | .close writable => .close writable

/-- Does the process sleep on a counter? -/
def SleepsOn (q : Proc) (c : Counter) : Prop := q.state = .sleeping ∧ q.chan = some c.chan
  deriving Decidable

/-- A step of the system while the pipe is there. -/
def execOpen (s : State) : Action → Option (State × Option Effect)
  | .call p c =>
    if (s.procs p).state = .running ∧ s.pc p = .user then some (s.setPc p (enter c), none) else none
  | .run p io => if (s.procs p).state = .running then runProc s p io else none
  | .dispatch p =>
    if (s.procs p).state = .runnable ∧ (s.pc p).locked = false then
      some (s.setProc p { s.procs p with state := .running }, none)
    else none
  | .yield p =>
    if (s.procs p).state = .running ∧ (s.pc p).interruptible then
      some (s.setProc p { s.procs p with state := .runnable }, none)
    else none
  | .kill p =>
    if (s.pc p).locked then none else some (s.setProc p (s.procs p).kill, none)
  | .outside p q =>
    if s.pc p = .user ∧ ¬ SleepsOn q .nread ∧ ¬ SleepsOn q .nwrite then some (s.setProc p q, none)
    else none

def exec (s : State) (a : Action) : Option (State × Option Effect) :=
  if s.freed then none else execOpen s a

/-- After `pipealloc`. What is in the page and where the processes are is arbitrary, but nobody
sleeps on a counter of the new pipe. -/
def pipealloc (data : Fin PIPESIZE → UInt8) (procs : Slot → Proc) : State where
  data := data
  nread := 0
  nwrite := 0
  readopen := true
  writeopen := true
  lock := none
  freed := false
  procs := procs
  pc _ := .user

def Start (s : State) : Prop :=
  ∃ data procs, (∀ p c, ¬ SleepsOn (procs p) c) ∧ s = pipealloc data procs

/-- A new pipe, with all processes running. -/
def running : State := pipealloc (fun _ => 0) fun _ => { state := .running }

theorem running_start : Start running :=
  ⟨_, _, fun _ _ asleep => ProcState.noConfusion asleep.1, rfl⟩

abbrev Label := Action × Option Effect

def system : Lts State Label := Lts.ofExec Start exec

/-! ## What one step can do -/

/-- Where a process that waits for `pi->lock` goes on once it has it. -/
def Pc.spins : Pc → Option Pc
  | .write n => some (.writing n 0 false)
  | .read n => some (.reading n)
  | .reacquire k => some k.resume
  | _ => none

inductive RunStep (s : State) (p : Slot) : State → Option Effect → Prop
  | lock {pc' : Pc} :
      (s.pc p).spins = some pc' → s.lock = none →
      RunStep s p ((s.setLock (some p)).setPc p pc') none
  | gaveUp {n : Int} {i : Nat} {put : Bool} :
      s.pc p = .writing n i put → i < n → s.readopen = false ∨ (s.procs p).killed = true →
      RunStep s p (s.setPc p (.release (.wrote (-1)))) none
  | full {n : Int} {i : Nat} {put : Bool} :
      s.pc p = .writing n i put → s.readopen = true → s.nwrite = s.nread + UInt32.ofNat PIPESIZE →
      RunStep s p (s.setPc p (.wakeup .nread 0 (.sleep (.writer n i)))) none
  | put {n : Int} {i : Nat} {put : Bool} {ch : UInt8} :
      s.pc p = .writing n i put → s.readopen = true → s.nwrite ≠ s.nread + UInt32.ofNat PIPESIZE →
      RunStep s p ((s.put ch).setPc p (.writing n (i + 1) true)) (some (.accepted p ch))
  | wrote {n : Int} {i : Nat} {put : Bool} :
      s.pc p = .writing n i put →
      RunStep s p (s.setPc p (.wakeup .nread 0 (.release (.wrote i)))) none
  | readKilled {n : Int} :
      s.pc p = .reading n → RunStep s p (s.setPc p (.release (.read n (-1)))) none
  | readSleep {n : Int} :
      s.pc p = .reading n → s.nread = s.nwrite → s.writeopen = true →
      RunStep s p (s.setPc p (.sleepEnter (.reader n))) none
  | readStart {n : Int} :
      s.pc p = .reading n → (s.nread = s.nwrite → s.writeopen = false) →
      RunStep s p (s.setPc p (.copying n 0)) none
  | get {n : Int} {i : Nat} :
      s.pc p = .copying n i → s.nread ≠ s.nwrite →
      RunStep s p (s.advance.setPc p (.copying n (i + 1)))
        (some (.delivered p (s.data (slot PIPESIZE s.nread))))
  | readDone {n ret : Int} {i : Nat} :
      s.pc p = .copying n i → (0 < n → ret = 0 → i = 0 ∧ s.nread = s.nwrite) →
      RunStep s p (s.setPc p (.wakeup .nwrite 0 (.release (.read n ret)))) none
  | close {writable : Bool} :
      s.pc p = .close writable → s.lock = none →
      RunStep s p (((s.shut writable).setLock (some p)).setPc p
        (.wakeup (closeCounter writable) 0 (.release .closed))) none
  | wakeupSelf {c : Counter} {next : After} :
      s.pc p = .wakeup c p.val next → RunStep s p (s.setPc p (.wakeup c (p.val + 1) next)) none
  | wakeupOther {c : Counter} {next : After} {q : Slot} :
      s.pc p = .wakeup c q.val next → q ≠ p → (s.pc q).locked = false →
      RunStep s p ((s.setProc q ((s.procs q).wakeup (some c.chan))).setPc p
        (.wakeup c (q.val + 1) next)) none
  | wakeupDone {c : Counter} {next : After} {j : Nat} :
      s.pc p = .wakeup c j next → NPROC ≤ j → RunStep s p (s.setPc p next.pc) none
  | sleepEnter {k : Sleeper} :
      s.pc p = .sleepEnter k → RunStep s p (s.setPc p (.sleepHeld k)) none
  | sleepHeld {k : Sleeper} :
      s.pc p = .sleepHeld k → RunStep s p ((s.setLock none).setPc p (.sleepFree k)) none
  | sleepFree {k : Sleeper} :
      s.pc p = .sleepFree k →
      RunStep s p ((s.setProc p
        { s.procs p with chan := some k.counter.chan, state := .sleeping }).setPc p
          (.asleep k)) none
  | resumed {k : Sleeper} :
      s.pc p = .asleep k →
      RunStep s p ((s.setProc p { s.procs p with chan := none }).setPc p (.reacquire k)) none
  | release {r : Result} :
      s.pc p = .release r →
      RunStep s p (((s.free r).setLock none).setPc p .user) (some (.returned p r))

inductive Step (s : State) : Action → State → Option Effect → Prop
  | call {p : Slot} {c : Call} :
      s.pc p = .user → Step s (.call p c) (s.setPc p (enter c)) none
  | run {p : Slot} {io : Option UInt8} {s' : State} {e : Option Effect} :
      (s.procs p).state = .running → RunStep s p s' e → Step s (.run p io) s' e
  | dispatch {p : Slot} :
      (s.procs p).state = .runnable →
      Step s (.dispatch p) (s.setProc p { s.procs p with state := .running }) none
  | yield {p : Slot} :
      (s.procs p).state = .running →
      Step s (.yield p) (s.setProc p { s.procs p with state := .runnable }) none
  | kill {p : Slot} :
      Step s (.kill p) (s.setProc p (s.procs p).kill) none
  | outside {p : Slot} {q : Proc} :
      s.pc p = .user → (∀ c, ¬ SleepsOn q c) → Step s (.outside p q) (s.setProc p q) none

section Inversion

variable {s s' : State} {p : Slot} {io : Option UInt8} {e : Option Effect}

theorem RunStep.of_lockThen (spins : (s.pc p).spins = some pc')
    (run : lockThen s p pc' = some (s', e)) : RunStep s p s' e := by
  unfold lockThen at run
  split at run
  · next free =>
    cases run
    exact .lock spins free
  · cases run

theorem RunStep.of_write {put : Bool} (at_ : s.pc p = .writing n i put) :
    RunStep s p (pipewriteBody s p io n i).1 (pipewriteBody s p io n i).2 := by
  unfold pipewriteBody
  split
  · next more =>
    split
    · next left => exact .gaveUp at_ more left
    rename_i stays
    have opened : s.readopen = true := by
      cases h : s.readopen with
      | true => rfl
      | false => exact absurd (.inl h) stays
    split
    · next full => exact .full at_ opened full
    · next room =>
      cases io with
      | none => exact .wrote at_
      | some ch => exact .put at_ opened room
  · exact .wrote at_

theorem RunStep.of_wait (at_ : s.pc p = .reading n) : RunStep s p (pipereadWait s p n) none := by
  unfold pipereadWait
  split
  · next waits =>
    split
    · exact .readKilled at_
    · exact .readSleep at_ waits.1 waits.2
  rename_i goes
  refine .readStart at_ fun empty => ?_
  cases h : s.writeopen with
  | false => rfl
  | true => exact absurd ⟨empty, h⟩ goes

theorem RunStep.of_copy (at_ : s.pc p = .copying n i) :
    RunStep s p (pipereadCopy s p io n i).1 (pipereadCopy s p io n i).2 := by
  unfold pipereadCopy
  split
  · next more =>
    split
    · exact .get at_ more.2
    · refine .readDone at_ fun _ zero => ?_
      split at zero
      · cases zero
      · next some => exact absurd (Int.ofNat_eq_zero.mp zero) some
  · next done =>
    refine .readDone at_ fun positive zero => ?_
    have first : i = 0 := Int.ofNat_eq_zero.mp zero
    refine ⟨first, Classical.not_not.mp fun some => done ⟨?_, some⟩⟩
    rwa [first]

/-- The one place where `runProc` is taken apart. -/
theorem RunStep.of_runProc (run : runProc s p io = some (s', e)) : RunStep s p s' e := by
  unfold runProc at run
  split at run
  · cases run
  · next n at_ => exact .of_lockThen (by rw [at_]; rfl) run
  · next n i put at_ =>
    have step : RunStep s p (pipewriteBody s p io n i).1 (pipewriteBody s p io n i).2 :=
      .of_write at_
    rwa [Option.some.inj run] at step
  · next n at_ => exact .of_lockThen (by rw [at_]; rfl) run
  · next n at_ =>
    cases run
    exact .of_wait at_
  · next n i at_ =>
    have step : RunStep s p (pipereadCopy s p io n i).1 (pipereadCopy s p io n i).2 :=
      .of_copy at_
    rwa [Option.some.inj run] at step
  · next writable at_ =>
    unfold lockThen at run
    split at run
    · next free =>
      cases run
      exact .close at_ free
    · cases run
  · next c j next at_ =>
    split at run
    · split at run
      · next here =>
        cases run
        subst here
        exact .wakeupSelf at_
      rename_i other
      split at run
      · cases run
      · next unlocked =>
        cases run
        exact .wakeupOther at_ other (Bool.eq_false_iff.mpr unlocked)
    · next ended =>
      cases run
      exact .wakeupDone at_ (Nat.not_lt.mp ended)
  · next k at_ =>
    cases run
    exact .sleepEnter at_
  · next k at_ =>
    cases run
    exact .sleepHeld at_
  · next k at_ =>
    cases run
    exact .sleepFree at_
  · next k at_ =>
    cases run
    exact .resumed at_
  · next k at_ => exact .of_lockThen (by rw [at_]; rfl) run
  · next r at_ =>
    cases run
    exact .release at_

theorem Step.of_exec (step : exec s a = some (s', e)) : Step s a s' e := by
  unfold exec at step
  split at step
  · cases step
  unfold execOpen at step
  split at step <;>
    simp only [Option.ite_none_right_eq_some, Option.ite_none_left_eq_some] at step <;>
    obtain ⟨may, made⟩ := step
  · cases made
    exact .call may.2
  · exact .run may (.of_runProc made)
  · cases made
    exact .dispatch may.1
  · cases made
    exact .yield may.1
  · cases made
    exact .kill
  · cases made
    refine .outside may.1 fun c => ?_
    cases c with
    | nread => exact may.2.1
    | nwrite => exact may.2.2

end Inversion

/-! ## The lock -/

/-- Who is in a critical section holds `pi->lock`. -/
abbrev Held (s : State) : Prop := Monitor.Held Pc.holds s.lock s.pc

section Held

variable {s s' : State} {p : Slot} {e : Option Effect} {a : Action}

theorem RunStep.held (run : RunStep s p s' e) (held : Held s) : Held s' := by
  cases run with
  | lock _ free => exact held.acquire free
  | gaveUp at_ | full at_ | wrote at_ => exact held.goes fun _ => held.here at_ rfl
  | put at_ => exact held.goes fun _ => held.here at_ rfl
  | readKilled at_ | readSleep at_ | readStart at_ => exact held.goes fun _ => held.here at_ rfl
  | get at_ | readDone at_ | wakeupSelf at_ | wakeupOther at_ | wakeupDone at_ | sleepEnter at_ =>
    exact held.goes fun _ => held.here at_ rfl
  | close at_ free => exact held.acquire free
  | sleepHeld at_ | release at_ => exact held.release (held.here at_ rfl) rfl
  | sleepFree at_ | resumed at_ => exact held.goes nofun

theorem Step.held (step : Step s a s' e) (held : Held s) : Held s' := by
  cases step with
  | @call p c user =>
    refine held.goes fun inside => ?_
    cases c <;> cases inside
  | run _ run => exact run.held held
  | dispatch | yield | kill | outside => exact held

end Held

end Xv6.Pipe
