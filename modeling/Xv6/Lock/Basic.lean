import Xv6.Lib.Transition
import Xv6.Proc

/-!
# User locks

`kernel/syslock.c` over `sleep` and `wakeup` of `kernel/proc.c`, as a transition
system in which any number of processes interleave.

A step of a process runs its kernel code up to the next lock operation, so that
every acquisition and release of a slot's spinlock `locks[id].lk` is a step
boundary. `p->lock` is held across steps only inside `sleep`, from its
acquisition (`Pc.sleepHeld`) through the release of `lk` (`Pc.sleepFree`) to the
switch to the scheduler; every other critical section of a `p->lock` is one
step. The life of a process outside these calls (creation, exit, reaping, kill,
scheduling) is the environment.

`exec` is the executable step function. `Step` says the same transition by
transition, and `Step.of_exec` is the one place where `exec` is taken apart.
-/

namespace Xv6.Lock

open Function (update)

abbrev Id := Fin NLOCK

/-- `struct userlock`; `lk` is the slot of the process that holds the spinlock. -/
structure UserLock where
  used : Bool := false
  locked : Bool := false
  pid : Nat := 0
  lk : Option Slot := none
  deriving DecidableEq

/-- Where a process is in the code of `syslock.c`. -/
inductive Pc
  | user
  | create (i : Id)
  | createLocked (i : Id)
  | acquire (id : Id)
  | acquireLocked (id : Id)
  | acquireTest (id : Id)
  /-- In `sleep`, with `p->lock` and `lk` held. -/
  | sleepHeld (id : Id)
  /-- In `sleep`, with `p->lock` held and `lk` released. -/
  | sleepFree (id : Id)
  /-- In `sleep`, switched out by `sched`. -/
  | asleep (id : Id)
  /-- In `sleep`, about to acquire `lk` again. -/
  | reacquire (id : Id)
  | release (id : Id)
  | releaseLocked (id : Id)
  /-- In `wakeup(&locks[id])`, about to look at process `j`, `lk` held. -/
  | wakeup (id : Id) (j : Nat)
  | destroy (id : Id)
  | destroyLocked (id : Id)
  deriving DecidableEq

structure State where
  procs : Slot → Proc
  nextpid : Nat
  locks : Id → UserLock
  pc : Slot → Pc

inductive Call
  | create
  | acquire (id : Int)
  | release (id : Int)
  | destroy (id : Int)
  deriving DecidableEq

inductive Action
  | call (p : Slot) (c : Call)
  | run (p : Slot)
  | dispatch (p : Slot)
  | yield (p : Slot)
  | kill (p : Slot)
  | spurious (p : Slot)
  | allocproc (p : Slot)
  | start (p : Slot)
  | exit (p : Slot)
  | reap (p : Slot)
  deriving DecidableEq

/-- The point at which a system call of the process in slot `p` takes effect,
inside its critical section: from there it returns the id, 0, or -1 (`failed`). -/
inductive Effect
  | created (p : Slot) (id : Id)
  | acquired (p : Slot) (id : Id)
  /-- The lock is given up; `wakeup` is still to run before the call returns 0. -/
  | released (p : Slot) (id : Id)
  | destroyed (p : Slot) (id : Id)
  | failed (p : Slot)
  deriving DecidableEq

def State.setPc (s : State) (p : Slot) (pc : Pc) : State :=
  { s with pc := update s.pc p pc }

def State.setLock (s : State) (id : Id) (l : UserLock) : State :=
  { s with locks := update s.locks id l }

def State.setProc (s : State) (p : Slot) (q : Proc) : State :=
  { s with procs := update s.procs p q }

def State.setLk (s : State) (id : Id) (holder : Option Slot) : State :=
  s.setLock id { s.locks id with lk := holder }

abbrev State.lockBy (s : State) (id : Id) (p : Slot) : State := s.setLk id (some p)

abbrev State.unlock (s : State) (id : Id) : State := s.setLk id none

section Projections

variable (s : State) (p p' : Slot) (id id' : Id) (pc : Pc) (l : UserLock) (q : Proc)
  (h : Option Slot)

@[simp, grind =] theorem State.setPc_procs : (s.setPc p pc).procs p' = s.procs p' := rfl
@[simp, grind =] theorem State.setPc_locks : (s.setPc p pc).locks id' = s.locks id' := rfl
@[simp, grind =] theorem State.setPc_nextpid : (s.setPc p pc).nextpid = s.nextpid := rfl
@[simp, grind =] theorem State.setPc_pc :
    (s.setPc p pc).pc p' = if p' = p then pc else s.pc p' := by
  simp [State.setPc, Function.update_apply]

@[simp, grind =] theorem State.setLock_procs : (s.setLock id l).procs p' = s.procs p' := rfl
@[simp, grind =] theorem State.setLock_pc : (s.setLock id l).pc p' = s.pc p' := rfl
@[simp, grind =] theorem State.setLock_nextpid : (s.setLock id l).nextpid = s.nextpid := rfl
@[simp, grind =] theorem State.setLock_locks :
    (s.setLock id l).locks id' = if id' = id then l else s.locks id' := by
  simp [State.setLock, Function.update_apply]

@[simp, grind =] theorem State.setProc_locks : (s.setProc p q).locks id' = s.locks id' := rfl
@[simp, grind =] theorem State.setProc_pc : (s.setProc p q).pc p' = s.pc p' := rfl
@[simp, grind =] theorem State.setProc_nextpid : (s.setProc p q).nextpid = s.nextpid := rfl
@[simp, grind =] theorem State.setProc_procs :
    (s.setProc p q).procs p' = if p' = p then q else s.procs p' := by
  simp [State.setProc, Function.update_apply]

@[simp, grind =] theorem State.setLk_procs : (s.setLk id h).procs p' = s.procs p' := rfl
@[simp, grind =] theorem State.setLk_pc : (s.setLk id h).pc p' = s.pc p' := rfl
@[simp, grind =] theorem State.setLk_nextpid : (s.setLk id h).nextpid = s.nextpid := rfl
@[simp, grind =] theorem State.setLk_used :
    ((s.setLk id h).locks id').used = (s.locks id').used := by
  simp only [State.setLk, State.setLock_locks]; split <;> simp_all

@[simp, grind =] theorem State.setLk_locked :
    ((s.setLk id h).locks id').locked = (s.locks id').locked := by
  simp only [State.setLk, State.setLock_locks]; split <;> simp_all

@[simp, grind =] theorem State.setLk_lockPid :
    ((s.setLk id h).locks id').pid = (s.locks id').pid := by
  simp only [State.setLk, State.setLock_locks]; split <;> simp_all

@[simp, grind =] theorem State.setLk_lk :
    ((s.setLk id h).locks id').lk = if id' = id then h else (s.locks id').lk := by
  simp only [State.setLk, State.setLock_locks]; split <;> simp_all

end Projections

/-- The range check on the argument of the three calls that take an id. -/
def lockId (id : Int) : Option Id :=
  if h : 0 ≤ id ∧ id < NLOCK then some ⟨id.toNat, by omega⟩ else none

/-- Does `p` hold its own `p->lock`, so that no other process can take it? -/
def State.inSleep (s : State) (p : Slot) : Bool :=
  match s.pc p with
  | .sleepHeld _ | .sleepFree _ => true
  | _ => false

/-- `sys_lock_create` with `locks[i].lk` held. -/
def createBody (s : State) (p : Slot) (i : Id) : State × Option Effect :=
  if !(s.locks i).used then
    ((s.setLock i { used := true, locked := false, pid := 0, lk := none }).setPc p .user,
      some (.created p i))
  else if h : i.val + 1 < NLOCK then
    ((s.unlock i).setPc p (.create ⟨i.val + 1, h⟩), none)
  else
    ((s.unlock i).setPc p .user, some (.failed p))

/-- `sys_lock_release` with `locks[id].lk` held, up to the call of `wakeup`. -/
def releaseBody (s : State) (p : Slot) (id : Id) : State × Option Effect :=
  if !(s.locks id).used || !(s.locks id).locked then
    ((s.unlock id).setPc p .user, some (.failed p))
  else if (s.locks id).pid ≠ (s.procs p).pid then
    ((s.unlock id).setPc p .user, some (.failed p))
  else
    ((s.setLock id { s.locks id with locked := false, pid := 0 }).setPc p (.wakeup id 0),
      some (.released p id))

/-- `sys_lock_destroy` with `locks[id].lk` held. -/
def destroyBody (s : State) (p : Slot) (id : Id) : State × Option Effect :=
  if !(s.locks id).used then
    ((s.unlock id).setPc p .user, some (.failed p))
  else
    ((s.setLock id { used := false, locked := false, pid := 0, lk := none }).setPc p .user,
      some (.destroyed p id))

/-- Take `locks[id].lk` and go on at `pc`; the process spins while it is held. -/
def lockThen (s : State) (p : Slot) (id : Id) (pc : Pc) : Option (State × Option Effect) :=
  if (s.locks id).lk = none then some ((s.lockBy id p).setPc p pc, none) else none

/-- The running process `p` goes on from its program point. -/
def runProc (s : State) (p : Slot) : Option (State × Option Effect) :=
  match s.pc p with
  | .user => none
  | .create i => lockThen s p i (.createLocked i)
  | .createLocked i => some (createBody s p i)
  | .acquire id => lockThen s p id (.acquireLocked id)
  | .acquireLocked id =>
    if !(s.locks id).used then some ((s.unlock id).setPc p .user, some (.failed p))
    else some (s.setPc p (.acquireTest id), none)
  | .acquireTest id =>
    if (s.locks id).locked then some (s.setPc p (.sleepHeld id), none)
    else some
      ((s.setLock id
        { s.locks id with locked := true, pid := (s.procs p).pid, lk := none }).setPc p .user,
        some (.acquired p id))
  | .sleepHeld id => some ((s.unlock id).setPc p (.sleepFree id), none)
  | .sleepFree id =>
    some ((s.setProc p { s.procs p with chan := some (.lock id), state := .sleeping }).setPc p
      (.asleep id), none)
  | .asleep id =>
    some ((s.setProc p { s.procs p with chan := none }).setPc p (.reacquire id), none)
  | .reacquire id => lockThen s p id (.acquireTest id)
  | .release id => lockThen s p id (.releaseLocked id)
  | .releaseLocked id => some (releaseBody s p id)
  | .wakeup id j =>
    if h : j < NPROC then
      -- `wakeup` skips the caller and waits for the lock of every other process
      if ⟨j, h⟩ = p then some (s.setPc p (.wakeup id (j + 1)), none)
      else if s.inSleep ⟨j, h⟩ then none
      else some ((s.setProc ⟨j, h⟩ ((s.procs ⟨j, h⟩).wakeup (some (.lock id)))).setPc p
        (.wakeup id (j + 1)), none)
    else some ((s.unlock id).setPc p .user, none)
  | .destroy id => lockThen s p id (.destroyLocked id)
  | .destroyLocked id => some (destroyBody s p id)

/-- Entry of a system call: the argument check, before any lock is taken. -/
def enter (s : State) (p : Slot) : Call → State × Option Effect
  | .create => (s.setPc p (.create 0), none)
  | .acquire id =>
    match lockId id with
    | some i => (s.setPc p (.acquire i), none)
    | none => (s, some (.failed p))
  | .release id =>
    match lockId id with
    | some i => (s.setPc p (.release i), none)
    | none => (s, some (.failed p))
  | .destroy id =>
    match lockId id with
    | some i => (s.setPc p (.destroy i), none)
    | none => (s, some (.failed p))

/-- Program points at which the process holds no spinlock, so that a timer
interrupt can make it `yield`. -/
def Pc.interruptible : Pc → Bool
  | .user | .create _ | .acquire _ | .reacquire _ | .release _ | .destroy _ => true
  | _ => false

def exec (s : State) : Action → Option (State × Option Effect)
  | .call p c =>
    if (s.procs p).state = .running ∧ s.pc p = .user then some (enter s p c) else none
  | .run p => if (s.procs p).state = .running then runProc s p else none
  | .dispatch p =>
    if (s.procs p).state = .runnable then
      some (s.setProc p { s.procs p with state := .running }, none)
    else none
  | .yield p =>
    if (s.procs p).state = .running ∧ (s.pc p).interruptible then
      some (s.setProc p { s.procs p with state := .runnable }, none)
    else none
  | .kill p =>
    if (s.procs p).state ≠ .unused ∧ !s.inSleep p then
      some (s.setProc p (s.procs p).kill, none)
    else none
  | .spurious p =>
    if (s.procs p).state = .sleeping then
      some (s.setProc p { s.procs p with state := .runnable }, none)
    else none
  | .allocproc p =>
    if (s.procs p).state = .unused then
      some ({ s.setProc p { s.procs p with pid := s.nextpid, state := .used } with
        nextpid := s.nextpid + 1 }, none)
    else none
  | .start p =>
    if (s.procs p).state = .used then
      some (s.setProc p { s.procs p with state := .runnable }, none)
    else none
  | .exit p =>
    if (s.procs p).state = .running ∧ s.pc p = .user then
      some (s.setProc p { s.procs p with state := .zombie }, none)
    else none
  | .reap p =>
    if (s.procs p).state = .zombie then
      some (s.setProc p (s.procs p).cleared, none)
    else none

/-- After `lockinit` and `userinit`: one process, with pid 1, and no lock. -/
def boot : State where
  procs p := if p = 0 then { state := .runnable, pid := 1 } else {}
  nextpid := 2
  locks _ := {}
  pc _ := .user

/-- A step's label is the action and the effect of a system call it shows, if any. -/
abbrev Label := Action × Option Effect

def system : Lts State Label :=
  Lts.ofExec (· = boot) exec

/-! ## What one step can do -/

/-- The slot whose spinlock a process waits for at a program point, and where it
goes on once it has it. -/
def Pc.spins : Pc → Option (Id × Pc)
  | .create id => some (id, .createLocked id)
  | .acquire id => some (id, .acquireLocked id)
  | .reacquire id => some (id, .acquireTest id)
  | .release id => some (id, .releaseLocked id)
  | .destroy id => some (id, .destroyLocked id)
  | _ => none

/-- The slot whose spinlock a process holds at a program point. -/
def Pc.holds : Pc → Option Id
  | .createLocked id | .acquireLocked id | .acquireTest id | .sleepHeld id
  | .releaseLocked id | .wakeup id _ | .destroyLocked id => some id
  | _ => none

inductive RunStep (s : State) (p : Slot) : State → Option Effect → Prop
  | lock {id : Id} {pc' : Pc} :
      (s.pc p).spins = some (id, pc') → (s.locks id).lk = none →
      RunStep s p ((s.lockBy id p).setPc p pc') none
  /-- A check fails under the lock: release it and return -1. -/
  | failed {id : Id} :
      s.pc p = .createLocked id ∨ s.pc p = .acquireLocked id ∨ s.pc p = .releaseLocked id ∨
        s.pc p = .destroyLocked id →
      RunStep s p ((s.unlock id).setPc p .user) (some (.failed p))
  | createNext {i i' : Id} :
      s.pc p = .createLocked i → RunStep s p ((s.unlock i).setPc p (.create i')) none
  | created {i : Id} :
      s.pc p = .createLocked i → (s.locks i).used = false →
      RunStep s p
        ((s.setLock i { used := true, locked := false, pid := 0, lk := none }).setPc p .user)
        (some (.created p i))
  | checked {id : Id} :
      s.pc p = .acquireLocked id → (s.locks id).used = true →
      RunStep s p (s.setPc p (.acquireTest id)) none
  | acquired {id : Id} :
      s.pc p = .acquireTest id → (s.locks id).locked = false →
      RunStep s p
        ((s.setLock id
          { s.locks id with locked := true, pid := (s.procs p).pid, lk := none }).setPc p .user)
        (some (.acquired p id))
  | mustSleep {id : Id} :
      s.pc p = .acquireTest id → (s.locks id).locked = true →
      RunStep s p (s.setPc p (.sleepHeld id)) none
  | sleepUnlock {id : Id} :
      s.pc p = .sleepHeld id → RunStep s p ((s.unlock id).setPc p (.sleepFree id)) none
  | sleepSwitch {id : Id} :
      s.pc p = .sleepFree id →
      RunStep s p ((s.setProc p
        { s.procs p with chan := some (.lock id), state := .sleeping }).setPc p (.asleep id)) none
  | sleepReturn {id : Id} :
      s.pc p = .asleep id →
      RunStep s p ((s.setProc p { s.procs p with chan := none }).setPc p (.reacquire id)) none
  | released {id : Id} :
      s.pc p = .releaseLocked id → (s.locks id).used = true → (s.locks id).locked = true →
      (s.locks id).pid = (s.procs p).pid →
      RunStep s p
        ((s.setLock id { s.locks id with locked := false, pid := 0 }).setPc p (.wakeup id 0))
        (some (.released p id))
  | wakeupSelf {id : Id} :
      s.pc p = .wakeup id p.val → RunStep s p (s.setPc p (.wakeup id (p.val + 1))) none
  | wakeupOther {id : Id} {q : Slot} :
      s.pc p = .wakeup id q.val → q ≠ p → s.inSleep q = false →
      RunStep s p ((s.setProc q ((s.procs q).wakeup (some (.lock id)))).setPc p
        (.wakeup id (q.val + 1))) none
  | wakeupDone {id : Id} {j : Nat} :
      s.pc p = .wakeup id j → NPROC ≤ j → RunStep s p ((s.unlock id).setPc p .user) none
  | destroyed {id : Id} :
      s.pc p = .destroyLocked id → (s.locks id).used = true →
      RunStep s p
        ((s.setLock id { used := false, locked := false, pid := 0, lk := none }).setPc p .user)
        (some (.destroyed p id))

/-- Where the process is when it has entered the call. -/
def Call.Enters (c : Call) (pc : Pc) : Prop :=
  pc = .create 0 ∧ c = .create ∨ ∃ id i, lockId id = some i ∧ (pc = .acquire i ∧ c = .acquire id ∨
    pc = .release i ∧ c = .release id ∨ pc = .destroy i ∧ c = .destroy id)

inductive Step (s : State) : Label → State → Prop
  | run {p : Slot} {s' : State} {e : Option Effect} :
      (s.procs p).state = .running → RunStep s p s' e → Step s (.run p, e) s'
  | enter {p : Slot} {c : Call} {pc : Pc} :
      (s.procs p).state = .running → s.pc p = .user →
      c.Enters pc → Step s (.call p c, none) (s.setPc p pc)
  | refused {p : Slot} {c : Call} : Step s (.call p c, some (.failed p)) s
  | dispatch {p : Slot} : (s.procs p).state = .runnable →
      Step s (.dispatch p, none) (s.setProc p { s.procs p with state := .running })
  | yield {p : Slot} : (s.procs p).state = .running → (s.pc p).interruptible = true →
      Step s (.yield p, none) (s.setProc p { s.procs p with state := .runnable })
  | kill {p : Slot} : (s.procs p).state ≠ .unused → s.inSleep p = false →
      Step s (.kill p, none) (s.setProc p (s.procs p).kill)
  | spurious {p : Slot} : (s.procs p).state = .sleeping →
      Step s (.spurious p, none) (s.setProc p { s.procs p with state := .runnable })
  | allocproc {p : Slot} : (s.procs p).state = .unused →
      Step s (.allocproc p, none)
        { s.setProc p { s.procs p with pid := s.nextpid, state := .used } with
          nextpid := s.nextpid + 1 }
  | start {p : Slot} : (s.procs p).state = .used →
      Step s (.start p, none) (s.setProc p { s.procs p with state := .runnable })
  | exit {p : Slot} : (s.procs p).state = .running → s.pc p = .user →
      Step s (.exit p, none) (s.setProc p { s.procs p with state := .zombie })
  | reap {p : Slot} : (s.procs p).state = .zombie →
      Step s (.reap p, none) (s.setProc p (s.procs p).cleared)

/-! ## The step function takes exactly these steps -/

theorem RunStep.of_lockThen {id : Id} (spins : (s.pc p).spins = some (id, pc'))
    (run : lockThen s p id pc' = some (s', e)) : RunStep s p s' e := by
  unfold lockThen at run
  split at run
  · next free =>
    cases run
    exact .lock spins free
  · cases run

theorem RunStep.of_runProc {e : Option Effect} (run : runProc s p = some (s', e)) :
    RunStep s p s' e := by
  unfold runProc at run
  split at run
  case h_1 => cases run
  case h_2 i point => exact .of_lockThen (by rw [point]; rfl) run
  case h_3 i point =>
    rw [createBody] at run
    split at run
    · next free => cases run; exact .created point (by simpa using free)
    · split at run
      · cases run; exact .createNext point
      · cases run; exact .failed (.inl point)
  case h_4 id point => exact .of_lockThen (by rw [point]; rfl) run
  case h_5 id point =>
    split at run
    · cases run; exact .failed (.inr (.inl point))
    · next used => cases run; exact .checked point (by simpa using used)
  case h_6 id point =>
    split at run
    · next held => cases run; exact .mustSleep point held
    · next free => cases run; exact .acquired point (by simpa using free)
  case h_7 id point => cases run; exact .sleepUnlock point
  case h_8 id point => cases run; exact .sleepSwitch point
  case h_9 id point => cases run; exact .sleepReturn point
  case h_10 id point => exact .of_lockThen (by rw [point]; rfl) run
  case h_11 id point => exact .of_lockThen (by rw [point]; rfl) run
  case h_12 id point =>
    rw [releaseBody] at run
    split at run
    · cases run; exact .failed (.inr (.inr (.inl point)))
    rename_i held
    simp only [Bool.or_eq_true, Bool.not_eq_true', not_or, Bool.not_eq_false] at held
    split at run
    · cases run; exact .failed (.inr (.inr (.inl point)))
    · next owner => cases run; exact .released point held.1 held.2 (not_not.mp owner)
  case h_13 id j point =>
    split at run
    · next inRange =>
      split at run
      · next self =>
        subst self
        cases run
        exact .wakeupSelf point
      rename_i other
      split at run
      · cases run
      · next awake =>
        cases run
        exact .wakeupOther (q := ⟨j, inRange⟩) point other (by simpa using awake)
    · next past => cases run; exact .wakeupDone point (Nat.le_of_not_lt past)
  case h_14 id point => exact .of_lockThen (by rw [point]; rfl) run
  case h_15 id point =>
    rw [destroyBody] at run
    split at run
    · cases run; exact .failed (.inr (.inr (.inr point)))
    · next used => cases run; exact .destroyed point (by simpa using used)

theorem Step.of_enter (running : (s.procs p).state = .running) (atUser : s.pc p = .user)
    (run : Lock.enter s p c = (s', e)) : Step s (.call p c, e) s' := by
  unfold Lock.enter at run
  split at run
  · cases run
    exact .enter running atUser (.inl ⟨rfl, rfl⟩)
  all_goals
    split at run
    · next found =>
      cases run
      exact .enter running atUser (.inr ⟨_, _, found, by simp⟩)
    · cases run
      exact .refused

theorem Step.of_exec (step : exec s l.1 = some (s', l.2)) : Step s l s' := by
  obtain ⟨a, e⟩ := l
  -- every action is guarded by one test
  cases a with obtain ⟨ready, made⟩ := Option.ite_none_right_eq_some.mp step
  | call p c => exact .of_enter ready.1 ready.2 (Option.some.inj made)
  | run p => exact .run ready (.of_runProc made)
  | dispatch p => cases made; exact .dispatch ready
  | yield p => cases made; exact .yield ready.1 ready.2
  | kill p => cases made; exact .kill ready.1 (by simpa using ready.2)
  | spurious p => cases made; exact .spurious ready
  | allocproc p => cases made; exact .allocproc ready
  | start p => cases made; exact .start ready
  | exit p => cases made; exact .exit ready.1 ready.2
  | reap p => cases made; exact .reap ready

/-- Process 0 creates lock 0 and takes it, while process 1 runs. -/
def takesLock : List Action :=
  [.dispatch 0, .call 0 .create, .run 0, .run 0, .allocproc 1, .start 1, .dispatch 1,
    .call 0 (.acquire 0), .run 0, .run 0, .run 0]

end Xv6.Lock
