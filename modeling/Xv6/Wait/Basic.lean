import Xv6.Lib.Transition
import Xv6.Proc

/-!
# Exit and wait

`kfork`, `kclone`, `kexit`, `reparent`, `kwait`, `kjoin`, `waitx` and `kkill` of
`kernel/proc.c`, as a transition system in which any number of processes
interleave.

The step boundaries are the acquisitions and releases of `wait_lock` and of the
`p->lock`s. `wait_lock` has a holder; a `p->lock` is held across steps only by
its own process, inside `sleep` and at the end of `kexit` (`Pc.locked`), and any
other critical section of a `p->lock` is one step. What the model does not
decide is a choice of the step: whether the memory for a child can be allocated
and whether `copyout` of the exit status succeeds.

`exec` is the executable step function. `Step` says the same transition by
transition, and `Step.of_exec` is the one place where `exec` is taken apart.
-/

namespace Xv6.Wait

/-- The three calls that wait for a child. -/
inductive Waiter
  | kwait | kjoin | waitx
  deriving DecidableEq

/-- Where a process is in the code of `proc.c`. -/
inductive Pc
  | user
  /-- Asleep in another part of the kernel, which `kexit status` may have called. -/
  | blocked (exiting : Option Int)
  /-- `kfork` or `kclone`, in `allocproc`, about to look at slot `j`. -/
  | allocproc (thread : Bool) (j : Nat)
  | setParent (np : Slot) (pid : Nat)
  /-- About to acquire the child's lock and make it runnable. -/
  | setRunnable (np : Slot) (pid : Nat)
  /-- `kexit`, closing files, before it acquires `wait_lock`. -/
  | exiting (status : Int)
  /-- In `reparent`, about to look at slot `j`. -/
  | reparent (status : Int) (j : Nat)
  /-- In `wakeup(chan)`, about to look at slot `i`; called by `reparent` for slot
  `child`, or by `kexit` itself. -/
  | wakeup (status : Int) (chan : Option Slot) (i : Nat) (child : Option Nat)
  | zombify (status : Int)
  /-- A zombie with `wait_lock` and `p->lock` held. -/
  | zombieHeld
  /-- A zombie with `p->lock` held, until `sched` has switched away from it. -/
  | zombieFree
  /-- Switched out for good; `allocproc` gives the slot a new context. -/
  | dead
  | wait (k : Waiter)
  /-- In the loop over the table, about to look at slot `j`. -/
  | scan (k : Waiter) (j : Nat) (havekids : Bool)
  /-- About to call `sleep(p, &wait_lock)`. -/
  | sleepEnter (k : Waiter)
  | sleepHeld (k : Waiter)
  | sleepFree (k : Waiter)
  | asleep (k : Waiter)
  | reacquire (k : Waiter)
  /-- About to release `wait_lock` and return `ret` (`none` is -1). -/
  | waitReturn (ret : Option Nat)
  | kill (pid : Int) (j : Nat)
  deriving DecidableEq

structure State where
  procs : Slot → Proc
  nextpid : Nat
  ticks : UInt32
  waitLock : Option Slot
  pc : Slot → Pc

/-- The slot of `initproc`, the first one `allocproc` finds. -/
def initproc : Slot := 0

inductive Call
  | fork | clone
  | exit (status : Int)
  | wait (k : Waiter)
  | kill (pid : Int)
  deriving DecidableEq

inductive Action
  /-- `p` enters a system call, or `kexit` from `usertrap`. -/
  | call (p : Slot) (c : Call)
  /-- `p` runs to its next lock operation. `ok` says that the memory it asks for
  on the way is there, and that a `copyout` on the way succeeds. -/
  | run (p : Slot) (ok : Bool)
  | dispatch (p : Slot)
  /-- A timer interrupt in user space, which charges `rtime`, or in the kernel. -/
  | timer (p : Slot)
  | yield (p : Slot)
  | tick
  | setkilled (p : Slot)
  /-- `p` sleeps in another part of the kernel, or is woken there. -/
  | block (p : Slot) (addr : Nat)
  | unblock (p : Slot)
  deriving DecidableEq

inductive Effect
  /-- `kfork` or `kclone` of `p` returns the child's pid, or -1. -/
  | forked (p : Slot) (ret : Option Nat)
  /-- The process in slot `q` has become a zombie. -/
  | exited (q : Slot) (pid : Nat)
  /-- `p` has freed the zombie in slot `q`; for `waitx`, with its `rtime` and `wtime`. -/
  | reaped (q : Slot) (pid : Nat) (p : Slot) (times : Option (UInt32 × UInt32))
  /-- `kwait`, `kjoin` or `waitx` of `p` returns a pid, or -1. -/
  | returned (p : Slot) (ret : Option Nat)
  /-- `kkill` of `p` returns 0, or -1. -/
  | killed (p : Slot) (found : Bool)
  deriving DecidableEq

def State.setPc (s : State) (p : Slot) (pc : Pc) : State :=
  { s with pc := Function.update s.pc p pc }

def State.setProc (s : State) (p : Slot) (q : Proc) : State :=
  { s with procs := Function.update s.procs p q }

/-- `acquire(&wait_lock)` by `p` when the lock is free, and `release(&wait_lock)`. -/
def State.setWaitLock (s : State) (holder : Option Slot) : State :=
  { s with waitLock := holder }

/-- `allocpid`. -/
def State.countPid (s : State) : State :=
  { s with nextpid := s.nextpid + 1 }

section Projections

variable (s : State) (p p' : Slot) (pc : Pc) (q : Proc) (holder : Option Slot)

@[simp, grind =] theorem State.setPc_procs : (s.setPc p pc).procs p' = s.procs p' := rfl
@[simp, grind =] theorem State.setPc_waitLock : (s.setPc p pc).waitLock = s.waitLock := rfl
@[simp, grind =] theorem State.setPc_pc :
    (s.setPc p pc).pc p' = if p' = p then pc else s.pc p' := by
  simp [State.setPc, Function.update_apply]

@[simp, grind =] theorem State.setProc_pc : (s.setProc p q).pc p' = s.pc p' := rfl
@[simp, grind =] theorem State.setProc_waitLock : (s.setProc p q).waitLock = s.waitLock := rfl
@[simp, grind =] theorem State.setProc_procs :
    (s.setProc p q).procs p' = if p' = p then q else s.procs p' := by
  simp [State.setProc, Function.update_apply]

@[simp, grind =] theorem State.setWaitLock_procs :
    (s.setWaitLock holder).procs p' = s.procs p' := rfl
@[simp, grind =] theorem State.setWaitLock_pc : (s.setWaitLock holder).pc p' = s.pc p' := rfl
@[simp, grind =] theorem State.setWaitLock_waitLock :
    (s.setWaitLock holder).waitLock = holder := rfl

@[simp, grind =] theorem State.countPid_procs : s.countPid.procs p' = s.procs p' := rfl
@[simp, grind =] theorem State.countPid_pc : s.countPid.pc p' = s.pc p' := rfl
@[simp, grind =] theorem State.countPid_waitLock : s.countPid.waitLock = s.waitLock := rfl

end Projections

/-- Program points at which a process holds its own `p->lock`. -/
def Pc.locked : Pc → Bool
  | .sleepHeld _ | .sleepFree _ | .zombieHeld | .zombieFree => true
  | _ => false

/-- `acquire(&wait_lock)` and go on at `pc`; the process spins while it is held. -/
def lockThen (s : State) (p : Slot) (pc : Pc) : Option (State × Option Effect) :=
  if s.waitLock = none then some ((s.setWaitLock (some p)).setPc p pc, none) else none

/-- The process that `allocproc` and `kfork` or `kclone` set up in slot `np`. -/
def State.newProc (s : State) (np : Slot) (thread : Bool) : Proc :=
  { s.procs np with
    pid := s.nextpid, state := .used, ctime := s.ticks, rtime := 0, etime := 0,
    isThread := thread || (s.procs np).isThread }

/-- `allocproc` at an unused slot, with the rest of `kfork` or `kclone` up to the
release of `np->lock`. -/
def allocBody (s : State) (p : Slot) (thread ok : Bool) (np : Slot) : State × Option Effect :=
  if ok then
    (((s.setProc np (s.newProc np thread)).countPid.setPc np .user).setPc p
      (.setParent np s.nextpid), none)
  else
    ((s.setProc np (s.newProc np thread).cleared).countPid.setPc p .user, some (.forked p none))

/-- One iteration of `reparent`, up to its call of `wakeup`. -/
def reparentBody (s : State) (p : Slot) (status : Int) (j : Slot) : State :=
  if (s.procs j).parent = some p then
    (s.setProc j { s.procs j with parent := some initproc }).setPc p
      (.wakeup status (some initproc) 0 (some j.val))
  else s.setPc p (.reparent status (j.val + 1))

/-- Where `kexit` goes on after `wakeup` returns. -/
def Pc.afterWakeup (status : Int) : Option Nat → Pc
  | some j => .reparent status (j + 1)
  | none => .zombify status

/-- Is the process in slot `q` a child that `k`, called by `p`, waits for? -/
def State.childFor (s : State) (k : Waiter) (p q : Slot) : Bool :=
  (s.procs q).parent = some p && (k != .kjoin || (s.procs q).isThread)

/-- What `waitx` stores through `rtime` and `wtime`. -/
def times (q : Proc) : UInt32 × UInt32 :=
  (q.rtime, q.etime - q.ctime - q.rtime)

/-- One iteration of the waiting loops, with `q->lock` held for a child. -/
def scanBody (s : State) (p : Slot) (ok : Bool) (k : Waiter) (q : Slot) (havekids : Bool) :
    State × Option Effect :=
  if s.childFor k p q then
    if (s.procs q).state = .zombie then
      -- `kjoin` has no address to copy the exit status to
      if k ≠ .kjoin ∧ !ok then (s.setPc p (.waitReturn none), none)
      else ((s.setProc q (s.procs q).cleared).setPc p (.waitReturn (some (s.procs q).pid)),
        some (.reaped q (s.procs q).pid p
          (if k = .waitx then some (times (s.procs q)) else none)))
    else (s.setPc p (.scan k (q.val + 1) true), none)
  else (s.setPc p (.scan k (q.val + 1) havekids), none)

def runProc (s : State) (p : Slot) (ok : Bool) : Option (State × Option Effect) :=
  match s.pc p with
  | .user | .dead => none
  | .blocked none =>
    some ((s.setProc p { s.procs p with chan := none }).setPc p .user, none)
  | .blocked (some status) =>
    some ((s.setProc p { s.procs p with chan := none }).setPc p (.exiting status), none)
  | .allocproc thread j =>
    if h : j < NPROC then
      if (s.pc ⟨j, h⟩).locked then none
      else if (s.procs ⟨j, h⟩).state = .unused then some (allocBody s p thread ok ⟨j, h⟩)
      else some (s.setPc p (.allocproc thread (j + 1)), none)
    else some (s.setPc p .user, some (.forked p none))
  | .setParent np pid =>
    if s.waitLock = none then
      some ((s.setProc np { s.procs np with parent := some p }).setPc p (.setRunnable np pid),
        none)
    else none
  | .setRunnable np pid =>
    if (s.pc np).locked then none
    else some ((s.setProc np { s.procs np with state := .runnable }).setPc p .user,
      some (.forked p (some pid)))
  | .exiting status => lockThen s p (.reparent status 0)
  | .reparent status j =>
    if h : j < NPROC then some (reparentBody s p status ⟨j, h⟩, none)
    else some (s.setPc p (.wakeup status (s.procs p).parent 0 none), none)
  | .wakeup status chan i child =>
    if h : i < NPROC then
      if ⟨i, h⟩ = p then some (s.setPc p (.wakeup status chan (i + 1) child), none)
      else if (s.pc ⟨i, h⟩).locked then none
      else some ((s.setProc ⟨i, h⟩ ((s.procs ⟨i, h⟩).wakeup (chan.map .proc))).setPc p
        (.wakeup status chan (i + 1) child), none)
    else some (s.setPc p (.afterWakeup status child), none)
  | .zombify status =>
    some ((s.setProc p
      { s.procs p with xstate := status, etime := s.ticks, state := .zombie }).setPc p
        .zombieHeld, some (.exited p (s.procs p).pid))
  | .zombieHeld => some ((s.setWaitLock none).setPc p .zombieFree, none)
  | .zombieFree => some (s.setPc p .dead, none)
  | .wait k => lockThen s p (.scan k 0 false)
  | .scan k j havekids =>
    if h : j < NPROC then
      if s.childFor k p ⟨j, h⟩ && (s.pc ⟨j, h⟩).locked then none
      else some (scanBody s p ok k ⟨j, h⟩ havekids)
    else if !havekids || (s.procs p).killed then some (s.setPc p (.waitReturn none), none)
    else some (s.setPc p (.sleepEnter k), none)
  | .sleepEnter k => some (s.setPc p (.sleepHeld k), none)
  | .sleepHeld k => some ((s.setWaitLock none).setPc p (.sleepFree k), none)
  | .sleepFree k =>
    some ((s.setProc p { s.procs p with chan := some (.proc p), state := .sleeping }).setPc p
      (.asleep k), none)
  | .asleep k =>
    some ((s.setProc p { s.procs p with chan := none }).setPc p (.reacquire k), none)
  | .reacquire k => lockThen s p (.scan k 0 false)
  | .waitReturn ret => some ((s.setWaitLock none).setPc p .user, some (.returned p ret))
  | .kill pid j =>
    if h : j < NPROC then
      if (s.pc ⟨j, h⟩).locked then none
      else if ((s.procs ⟨j, h⟩).pid : Int) = pid then
        some ((s.setProc ⟨j, h⟩ (s.procs ⟨j, h⟩).kill).setPc p .user, some (.killed p true))
      else some (s.setPc p (.kill pid (j + 1)), none)
    else some (s.setPc p .user, some (.killed p false))

/-- Entry of a call. `kexit` of `initproc` panics: the system takes no step. -/
def enter (p : Slot) : Call → Option Pc
  | .fork => some (.allocproc false 0)
  | .clone => some (.allocproc true 0)
  | .exit status => if p = initproc then none else some (.exiting status)
  | .wait k => some (.wait k)
  | .kill pid => some (.kill pid 0)

/-- Program points at which the process holds no spinlock, so that a timer
interrupt can make it `yield`. -/
def Pc.interruptible : Pc → Bool
  | .user | .allocproc _ _ | .setParent _ _ | .setRunnable _ _ | .exiting _ | .wait _
  | .reacquire _ | .kill _ _ => true
  | _ => false

/-- Is the kernel code of `p` on a CPU? A zombie still is until it has switched. -/
def State.onCpu (s : State) (p : Slot) : Bool :=
  (s.procs p).state = .running || s.pc p = .zombieHeld || s.pc p = .zombieFree

/-- Where another part of the kernel, entered from `pc`, can put the process to sleep. -/
def Pc.block : Pc → Option Pc
  | .user => some (.blocked none)
  | .exiting status => some (.blocked (some status))
  | _ => none

def exec (s : State) : Action → Option (State × Option Effect)
  | .call p c =>
    if (s.procs p).state = .running ∧ s.pc p = .user then
      (enter p c).map fun pc => (s.setPc p pc, none)
    else none
  | .run p ok => if s.onCpu p then runProc s p ok else none
  | .dispatch p =>
    if (s.procs p).state = .runnable then
      some (s.setProc p { s.procs p with state := .running }, none)
    else none
  | .timer p =>
    if (s.procs p).state = .running ∧ s.pc p = .user then
      some (s.setProc p
        { s.procs p with rtime := (s.procs p).rtime + 1, state := .runnable }, none)
    else none
  | .yield p =>
    if (s.procs p).state = .running ∧ (s.pc p).interruptible then
      some (s.setProc p { s.procs p with state := .runnable }, none)
    else none
  | .tick => some ({ s with ticks := s.ticks + 1 }, none)
  | .setkilled p =>
    if (s.procs p).state = .running ∧ s.pc p = .user then
      some (s.setProc p { s.procs p with killed := true }, none)
    else none
  | .block p addr =>
    if (s.procs p).state = .running then
      (s.pc p).block.map fun pc =>
        ((s.setProc p
          { s.procs p with chan := some (.other addr), state := .sleeping }).setPc p pc, none)
    else none
  | .unblock p =>
    match (s.procs p).chan with
    | some (.other addr) =>
      some (s.setProc p ((s.procs p).wakeup (some (.other addr))), none)
    | _ => none

/-- After `userinit`: the process `initproc`, with pid 1. -/
def boot : State where
  procs p := if p = initproc then { state := .runnable, pid := 1 } else {}
  nextpid := 2
  ticks := 0
  waitLock := none
  pc _ := .user

/-- A step's label is the action and what the step shows, if anything. -/
abbrev Label := Action × Option Effect

def system : Lts State Label :=
  Lts.ofExec (· = boot) exec

/-! ## What one step can do -/

/-- Where a process that waits for `wait_lock` goes on once it has it. -/
def Pc.spins : Pc → Option Pc
  | .exiting status => some (.reparent status 0)
  | .wait k | .reacquire k => some (.scan k 0 false)
  | _ => none

inductive RunStep (s : State) (p : Slot) : State → Option Effect → Prop
  | lock {pc' : Pc} :
      (s.pc p).spins = some pc' → s.waitLock = none →
      RunStep s p ((s.setWaitLock (some p)).setPc p pc') none
  | resumed {exiting : Option Int} {pc' : Pc} :
      s.pc p = .blocked exiting → pc' = .user ∨ (∃ status, pc' = .exiting status) →
      RunStep s p ((s.setProc p { s.procs p with chan := none }).setPc p pc') none
  | allocNext {thread : Bool} {q : Slot} :
      s.pc p = .allocproc thread q.val → (s.procs q).state ≠ .unused →
      RunStep s p (s.setPc p (.allocproc thread (q.val + 1))) none
  | allocNone {thread : Bool} {j : Nat} :
      s.pc p = .allocproc thread j → NPROC ≤ j →
      RunStep s p (s.setPc p .user) (some (.forked p none))
  | allocated {thread : Bool} {np : Slot} :
      s.pc p = .allocproc thread np.val → (s.procs np).state = .unused →
      RunStep s p (((s.setProc np (s.newProc np thread)).countPid.setPc np .user).setPc p
        (.setParent np s.nextpid)) none
  | allocFailed {thread : Bool} {np : Slot} :
      s.pc p = .allocproc thread np.val → (s.procs np).state = .unused →
      RunStep s p ((s.setProc np (s.newProc np thread).cleared).countPid.setPc p .user)
        (some (.forked p none))
  | parentSet {np : Slot} {pid : Nat} :
      s.pc p = .setParent np pid → s.waitLock = none →
      RunStep s p ((s.setProc np { s.procs np with parent := some p }).setPc p
        (.setRunnable np pid)) none
  | started {np : Slot} {pid : Nat} :
      s.pc p = .setRunnable np pid →
      RunStep s p ((s.setProc np { s.procs np with state := .runnable }).setPc p .user)
        (some (.forked p (some pid)))
  | adopted {status : Int} {j : Slot} :
      s.pc p = .reparent status j.val → (s.procs j).parent = some p →
      RunStep s p ((s.setProc j { s.procs j with parent := some initproc }).setPc p
        (.wakeup status (some initproc) 0 (some j.val))) none
  | reparentNext {status : Int} {j : Nat} :
      s.pc p = .reparent status j → RunStep s p (s.setPc p (.reparent status (j + 1))) none
  | reparentDone {status : Int} {j : Nat} :
      s.pc p = .reparent status j →
      RunStep s p (s.setPc p (.wakeup status (s.procs p).parent 0 none)) none
  | wakeupSelf {status : Int} {chan : Option Slot} {child : Option Nat} :
      s.pc p = .wakeup status chan p.val child →
      RunStep s p (s.setPc p (.wakeup status chan (p.val + 1) child)) none
  | wakeupOther {status : Int} {chan : Option Slot} {child : Option Nat} {q : Slot} :
      s.pc p = .wakeup status chan q.val child → q ≠ p → (s.pc q).locked = false →
      RunStep s p ((s.setProc q ((s.procs q).wakeup (chan.map .proc))).setPc p
        (.wakeup status chan (q.val + 1) child)) none
  | wakeupDone {status : Int} {chan : Option Slot} {child : Option Nat} {i : Nat} :
      s.pc p = .wakeup status chan i child → NPROC ≤ i →
      RunStep s p (s.setPc p (.afterWakeup status child)) none
  | exited {status : Int} :
      s.pc p = .zombify status →
      RunStep s p ((s.setProc p
        { s.procs p with xstate := status, etime := s.ticks, state := .zombie }).setPc p
          .zombieHeld) (some (.exited p (s.procs p).pid))
  | exitUnlock :
      s.pc p = .zombieHeld → RunStep s p ((s.setWaitLock none).setPc p .zombieFree) none
  | exitSwitch : s.pc p = .zombieFree → RunStep s p (s.setPc p .dead) none
  | scanNext {k : Waiter} {q : Slot} {havekids havekids' : Bool} :
      s.pc p = .scan k q.val havekids →
      (s.childFor k p q = true → (s.procs q).state ≠ .zombie) →
      RunStep s p (s.setPc p (.scan k (q.val + 1) havekids')) none
  /-- `copyout` fails, there is no child to wait for, or the caller is killed. -/
  | waitFails {k : Waiter} {j : Nat} {havekids : Bool} :
      s.pc p = .scan k j havekids → RunStep s p (s.setPc p (.waitReturn none)) none
  | reaped {k : Waiter} {q : Slot} {havekids : Bool} :
      s.pc p = .scan k q.val havekids → s.childFor k p q = true →
      (s.procs q).state = .zombie → (s.pc q).locked = false →
      RunStep s p
        ((s.setProc q (s.procs q).cleared).setPc p (.waitReturn (some (s.procs q).pid)))
        (some (.reaped q (s.procs q).pid p
          (if k = .waitx then some (times (s.procs q)) else none)))
  | mustSleep {k : Waiter} {j : Nat} {havekids : Bool} :
      s.pc p = .scan k j havekids → NPROC ≤ j →
      RunStep s p (s.setPc p (.sleepEnter k)) none
  | sleepLock {k : Waiter} :
      s.pc p = .sleepEnter k → RunStep s p (s.setPc p (.sleepHeld k)) none
  | sleepUnlock {k : Waiter} :
      s.pc p = .sleepHeld k → RunStep s p ((s.setWaitLock none).setPc p (.sleepFree k)) none
  | sleepSwitch {k : Waiter} :
      s.pc p = .sleepFree k →
      RunStep s p ((s.setProc p
        { s.procs p with chan := some (.proc p), state := .sleeping }).setPc p (.asleep k)) none
  | sleepReturn {k : Waiter} :
      s.pc p = .asleep k →
      RunStep s p ((s.setProc p { s.procs p with chan := none }).setPc p (.reacquire k)) none
  | returned {ret : Option Nat} :
      s.pc p = .waitReturn ret →
      RunStep s p ((s.setWaitLock none).setPc p .user) (some (.returned p ret))
  | killNext {pid : Int} {j : Nat} :
      s.pc p = .kill pid j → RunStep s p (s.setPc p (.kill pid (j + 1))) none
  | killNone {pid : Int} {j : Nat} :
      s.pc p = .kill pid j → RunStep s p (s.setPc p .user) (some (.killed p false))
  | killed {pid : Int} {q : Slot} :
      s.pc p = .kill pid q.val → (s.pc q).locked = false → ((s.procs q).pid : Int) = pid →
      RunStep s p ((s.setProc q (s.procs q).kill).setPc p .user) (some (.killed p true))

inductive Step (s : State) : Label → State → Prop
  | run {p : Slot} {ok : Bool} {s' : State} {e : Option Effect} :
      s.onCpu p = true → RunStep s p s' e → Step s (.run p ok, e) s'
  | enter {p : Slot} {c : Call} {pc : Pc} :
      (s.procs p).state = .running → s.pc p = .user → Wait.enter p c = some pc →
      Step s (.call p c, none) (s.setPc p pc)
  | dispatch {p : Slot} : (s.procs p).state = .runnable →
      Step s (.dispatch p, none) (s.setProc p { s.procs p with state := .running })
  | preempt {p : Slot} {a : Action} {rtime : UInt32} :
      (s.procs p).state = .running → (s.pc p).interruptible = true →
      Step s (a, none) (s.setProc p { s.procs p with rtime := rtime, state := .runnable })
  | tick : Step s (.tick, none) { s with ticks := s.ticks + 1 }
  | setkilled {p : Slot} :
      (s.procs p).state = .running →
      Step s (.setkilled p, none) (s.setProc p { s.procs p with killed := true })
  | block {p : Slot} {addr : Nat} {pc : Pc} :
      (s.procs p).state = .running → (s.pc p).block = some pc →
      Step s (.block p addr, none) ((s.setProc p
        { s.procs p with chan := some (.other addr), state := .sleeping }).setPc p pc)
  | unblock {p : Slot} {addr : Nat} :
      Step s (.unblock p, none) (s.setProc p ((s.procs p).wakeup (some (.other addr))))

/-! ## The step function takes exactly these steps -/

theorem RunStep.of_lockThen (spins : (s.pc p).spins = some pc')
    (run : lockThen s p pc' = some (s', e)) : RunStep s p s' e := by
  unfold lockThen at run
  split at run
  · next free =>
    cases run
    exact .lock spins free
  · cases run

theorem RunStep.of_allocBody (point : s.pc p = .allocproc thread np.val)
    (unused : (s.procs np).state = .unused) (run : allocBody s p thread ok np = (s', e)) :
    RunStep s p s' e := by
  unfold allocBody at run
  split at run <;> cases run
  · exact .allocated point unused
  · exact .allocFailed point unused

theorem RunStep.of_reparentBody (point : s.pc p = .reparent status j.val) :
    RunStep s p (reparentBody s p status j) none := by
  unfold reparentBody
  split
  · next child => exact .adopted point child
  · exact .reparentNext point

theorem RunStep.of_scanBody (point : s.pc p = .scan k q.val havekids)
    (unlocked : s.childFor k p q = true → (s.pc q).locked = false)
    (run : scanBody s p ok k q havekids = (s', e)) : RunStep s p s' e := by
  unfold scanBody at run
  split at run
  · next child =>
    split at run
    · next zombie =>
      split at run <;> cases run
      · exact .waitFails point
      · exact .reaped point child zombie (unlocked child)
    · next alive =>
      cases run
      exact .scanNext point fun _ => alive
  · next stranger =>
    cases run
    exact .scanNext point fun child => absurd child stranger

theorem RunStep.of_runProc (run : runProc s p ok = some (s', e)) : RunStep s p s' e := by
  unfold runProc at run
  split at run
  case h_1 => cases run
  case h_2 => cases run
  case h_3 point => cases run; exact .resumed point (.inl rfl)
  case h_4 status point => cases run; exact .resumed point (.inr ⟨status, rfl⟩)
  case h_5 thread j point =>
    split at run
    · next inRange =>
      split at run
      · cases run
      split at run
      · next unused =>
        refine .of_allocBody ?_ unused (Option.some.inj run)
        exact point
      · next inUse => cases run; exact .allocNext (q := ⟨j, inRange⟩) point inUse
    · next past => cases run; exact .allocNone point (Nat.le_of_not_lt past)
  case h_6 np pid point =>
    split at run
    · next free => cases run; exact .parentSet point free
    · cases run
  case h_7 np pid point =>
    split at run
    · cases run
    · cases run; exact .started point
  case h_8 status point => exact .of_lockThen (by rw [point]; rfl) run
  case h_9 status j point =>
    split at run
    · next inRange => cases run; exact .of_reparentBody (j := ⟨j, inRange⟩) point
    · cases run; exact .reparentDone point
  case h_10 status chan i child point =>
    split at run
    · next inRange =>
      split at run
      · next self =>
        subst self
        cases run
        exact .wakeupSelf point
      rename_i other
      split at run
      · cases run
      · next unlocked =>
        cases run
        exact .wakeupOther (q := ⟨i, inRange⟩) point other (by simpa using unlocked)
    · next past => cases run; exact .wakeupDone point (Nat.le_of_not_lt past)
  case h_11 status point => cases run; exact .exited point
  case h_12 point => cases run; exact .exitUnlock point
  case h_13 point => cases run; exact .exitSwitch point
  case h_14 k point => exact .of_lockThen (by rw [point]; rfl) run
  case h_15 k j havekids point =>
    split at run
    · next inRange =>
      split at run
      · cases run
      · next unlocked =>
        refine .of_scanBody (q := ⟨j, inRange⟩) point ?_ (Option.some.inj run)
        intro child
        simpa [child] using unlocked
    · next past =>
      split at run
      · cases run; exact .waitFails point
      · cases run; exact .mustSleep point (Nat.le_of_not_lt past)
  case h_16 k point => cases run; exact .sleepLock point
  case h_17 k point => cases run; exact .sleepUnlock point
  case h_18 k point => cases run; exact .sleepSwitch point
  case h_19 k point => cases run; exact .sleepReturn point
  case h_20 k point => exact .of_lockThen (by rw [point]; rfl) run
  case h_21 ret point => cases run; exact .returned point
  case h_22 pid j point =>
    split at run
    · next inRange =>
      split at run
      · cases run
      rename_i unlocked
      split at run
      · next named =>
        cases run
        exact .killed (q := ⟨j, inRange⟩) point (by simpa using unlocked) named
      · cases run; exact .killNext point
    · cases run; exact .killNone point

theorem Step.of_exec (step : exec s l.1 = some (s', l.2)) : Step s l s' := by
  obtain ⟨a, e⟩ := l
  cases a with simp only [exec, Option.ite_none_right_eq_some, Option.map_eq_some_iff] at step
  | call p c =>
    obtain ⟨ready, pc, entry, ⟨⟩⟩ := step
    exact .enter ready.1 ready.2 entry
  | run p ok => exact .run step.1 (.of_runProc step.2)
  | dispatch p =>
    obtain ⟨ready, ⟨⟩⟩ := step
    exact .dispatch ready
  | timer p =>
    obtain ⟨ready, ⟨⟩⟩ := step
    exact .preempt ready.1 (by rw [ready.2]; rfl)
  | yield p =>
    obtain ⟨ready, ⟨⟩⟩ := step
    exact @Step.preempt s p (.yield p) (s.procs p).rtime ready.1 ready.2
  | tick =>
    cases step
    exact .tick
  | setkilled p =>
    obtain ⟨ready, ⟨⟩⟩ := step
    exact .setkilled ready.1
  | block p addr =>
    obtain ⟨running, pc, point, ⟨⟩⟩ := step
    exact .block running point
  | unblock p =>
    split at step <;> cases step
    exact .unblock

end Xv6.Wait
