import Xv6.Lib.Transition
import Xv6.Proc

/-!
# The scheduler

`scheduler`, `sched` and the calls of `kernel/proc.c` that change the state of a process, on any
number of CPUs. A CPU executes either its own scheduler loop or the kernel thread of a process;
where it is, is its `Code`. Every statement that another CPU could see in between is a step of its
own: taking and dropping `p->lock`, setting `p->state` and `c->proc`, and the two halves of
`swtch`, which saves one context and then loads the other.

A kernel thread that holds no lock may do anything: give up the CPU (a timer interrupt can make it
do so at any time), sleep on any channel, exit, or visit any other process with `wakeup`, `kkill`,
`kwait` or `allocproc`. The loops over the process table are sequences of such visits, in any
order. An interrupt handler calls `wakeup` in the scheduler's loop as well. Whose child a process
is plays no part here, so that any process may reap a zombie.
-/

namespace Xv6.Sched

open Function (update)

/-- Where a saved context continues. -/
inductive Resume
  /-- a new process, in `forkret` -/
  | forkret
  /-- after `sched` in `yield` -/
  | yield
  /-- after `sched` in `sleep` -/
  | sleep
  /-- after `sched` in `kexit` -/
  | kexit
  deriving DecidableEq

/-- What a kernel thread does with the lock of the process it visits. -/
inductive Job
  | wakeup (chan : Option Chan)
  | kkill (pid : Nat)
  /-- `kwait` or `kjoin` -/
  | reap
  /-- `kfork` or `kclone` up to its first `release(&np->lock)`; `ok` is false if memory runs out -/
  | alloc (ok : Bool)
  /-- the end of `kfork` or `kclone`: `np->state = RUNNABLE` -/
  | start
  deriving DecidableEq

/-- Where a kernel thread is. -/
inductive Pc
  | forkret
  /-- in code that holds no process lock -/
  | body
  /-- in `yield`, with `p->lock` -/
  | yieldHeld
  /-- in `sleep`, with `p->lock` -/
  | sleepHeld (chan : Chan)
  /-- in `kexit`, with `p->lock` -/
  | exitHeld
  /-- in `sched`, before `swtch` -/
  | sched (resume : Resume)
  /-- in `swtch`, with the registers saved in `p->context` -/
  | saved
  /-- after `swtch` has returned -/
  | resumed (resume : Resume)
  /-- with the lock of the visited process `q` -/
  | held (q : Slot) (job : Job)
  /-- before `release(&q->lock)` -/
  | done (q : Slot)
  deriving DecidableEq

/-- What a CPU executes. -/
inductive Code
  /-- the scheduler, between two processes -/
  | scan
  /-- after `acquire(&p->lock)` -/
  | check (p : Slot)
  /-- after `p->state = RUNNING` -/
  | picked (p : Slot)
  /-- after `c->proc = p` -/
  | current (p : Slot)
  /-- in `swtch`, with the registers saved in `c->context` -/
  | load (p : Slot)
  /-- after `swtch` has returned -/
  | back (p : Slot)
  /-- after `c->proc = 0` -/
  | finish (p : Slot)
  /-- an interrupt between two processes, in `wakeup` with `q->lock` -/
  | wake (q : Slot) (chan : Option Chan)
  /-- before `release(&q->lock)` in `wakeup` -/
  | woken (q : Slot)
  /-- the kernel thread of `t` -/
  | thread (t : Slot) (pc : Pc)
  deriving DecidableEq

/-- `struct cpu`, and where the CPU is. The scheduler's saved context is its variable `p`. -/
structure Cpu where
  proc : Option Slot := none
  context : Option Slot := none
  code : Code := .scan

structure State (n : Nat) where
  cpus : Fin n → Cpu
  procs : Slot → Proc
  /-- `p->context` -/
  context : Slot → Resume
  /-- the CPU that holds `p->lock` -/
  lock : Slot → Option (Fin n)
  /-- the variable `np` of a thread in `kfork` or `kclone` -/
  np : Slot → Option Slot
  nextpid : Nat

variable {n : Nat}

/-- After `userinit`, with every CPU at the start of its `scheduler`. -/
def boot (n : Nat) : State n where
  cpus _ := {}
  procs p := if p = 0 then { state := .runnable, pid := 1 } else {}
  context _ := .forkret
  lock _ := none
  np _ := none
  nextpid := 2

namespace State

variable (s : State n) (c : Fin n) (p : Slot)

def goto (code : Code) : State n :=
  { s with cpus := update s.cpus c { s.cpus c with code := code } }

def setCurrent (cur : Option Slot) : State n :=
  { s with cpus := update s.cpus c { s.cpus c with proc := cur } }

/-- The first half of `swtch(&c->context, ..)`. -/
def saveCpu : State n :=
  { s with cpus := update s.cpus c { s.cpus c with context := some p } }

/-- The first half of `swtch(&p->context, ..)`. -/
def saveProc (resume : Resume) : State n :=
  { s with context := update s.context p resume }

def setLock (holder : Option (Fin n)) : State n :=
  { s with lock := update s.lock p holder }

def setProc (f : Proc → Proc) : State n :=
  { s with procs := update s.procs p (f (s.procs p)) }

def setState (state : ProcState) : State n :=
  s.setProc p fun proc => { proc with state := state }

@[simp] theorem goto_procs (code : Code) : (s.goto c code).procs = s.procs := rfl

@[simp] theorem setProc_self (f : Proc → Proc) : (s.setProc p f).procs p = f (s.procs p) :=
  Function.update_self ..

theorem setProc_other (other : q ≠ p) (f : Proc → Proc) : (s.setProc p f).procs q = s.procs q :=
  Function.update_of_ne other ..

def acquire (code : Code) : Option (State n) :=
  if s.lock p = none then some ((s.setLock p (some c)).goto c code) else none

def release (code : Code) : State n :=
  (s.setLock p none).goto c code

end State

/-- What the loading of a context leads to. -/
def Resume.entry : Resume → Pc
  | .forkret => .forkret
  | .yield => .resumed .yield
  | .sleep => .resumed .sleep
  | .kexit => .resumed .kexit

/-- `allocproc` on an unused process `q` for the process `p`, and `freeproc` if memory runs out. -/
def allocproc (s : State n) (p q : Slot) (ok : Bool) : State n :=
  if ok then
    { s.setProc q fun proc => { proc with pid := s.nextpid, state := .used } with
      context := update s.context q .forkret
      np := update s.np p (some q)
      nextpid := s.nextpid + 1 }
  else { s.setProc q Proc.cleared with nextpid := s.nextpid + 1 }

/-- What process `p` does to `q` under `q->lock`. -/
def Job.run (s : State n) (p q : Slot) : Job → State n
  | .wakeup chan => s.setProc q (Proc.wakeup chan)
  | .kkill pid => if (s.procs q).pid = pid then s.setProc q Proc.kill else s
  | .reap => if (s.procs q).state = .zombie then s.setProc q Proc.cleared else s
  | .alloc ok => if (s.procs q).state = .unused then allocproc s p q ok else s
  | .start => { s.setState q .runnable with np := update s.np p none }

/-- When process `p` may visit `q`: `wakeup` leaves the caller out, and `kfork` and `kclone`
start what they have allocated. -/
def Job.allowed (s : State n) (p q : Slot) : Job → Bool
  | .wakeup _ => q ≠ p
  | .kkill _ | .reap => true
  | .alloc _ => s.np p = none
  | .start => s.np p = some q

inductive Choice
  | next
  /-- the scheduler comes to process `p` -/
  | acquire (p : Slot)
  | yield
  | sleep (chan : Chan)
  | kexit
  | visit (q : Slot) (job : Job)

inductive Effect
  /-- The CPU switches to process `p`. -/
  | switched (p : Slot)
  /-- The context of `p` has been saved. -/
  | saved (p : Slot)
  /-- The scheduler has released `p->lock` after `p` has run. -/
  | released (p : Slot)

/-- A statement of `scheduler`. -/
def scheduler (s : State n) (c : Fin n) : Code → Choice → Option (State n × Option Effect)
  | .scan, .acquire p => (s.acquire c p (.check p)).map (·, none)
  | .check p, .next =>
    if (s.procs p).state = .runnable then
      some ((s.setState p .running).goto c (.picked p), none)
    else some (s.release c p .scan, none)
  | .picked p, .next => some ((s.setCurrent c (some p)).goto c (.current p), none)
  | .current p, .next => some ((s.saveCpu c p).goto c (.load p), none)
  | .load p, .next => some (s.goto c (.thread p (s.context p).entry), some (.switched p))
  | .back p, .next => some ((s.setCurrent c none).goto c (.finish p), none)
  | .finish p, .next => some (s.release c p .scan, some (.released p))
  | .scan, .visit q (.wakeup chan) => (s.acquire c q (.wake q chan)).map (·, none)
  | .wake q chan, .next => some ((s.setProc q (Proc.wakeup chan)).goto c (.woken q), none)
  | .woken q, .next => some (s.release c q .scan, none)
  | _, _ => none

/-- A statement of the kernel thread of `t`, for which `myproc()` is `p`. -/
def thread (s : State n) (c : Fin n) (t p : Slot) : Pc → Choice → Option (State n × Option Effect)
  | .forkret, .next => some (s.release c p (.thread t .body), none)
  | .body, .yield => (s.acquire c p (.thread t .yieldHeld)).map (·, none)
  | .body, .sleep chan => (s.acquire c p (.thread t (.sleepHeld chan))).map (·, none)
  | .body, .kexit =>
    -- panic("init exiting")
    if p = 0 ∨ s.np p ≠ none then none
    else (s.acquire c p (.thread t .exitHeld)).map (·, none)
  | .body, .visit q job =>
    if job.allowed s p q then (s.acquire c q (.thread t (.held q job))).map (·, none) else none
  | .yieldHeld, .next => some ((s.setState p .runnable).goto c (.thread t (.sched .yield)), none)
  | .sleepHeld chan, .next =>
    some ((s.setProc p fun proc => { proc with chan := some chan, state := .sleeping }).goto c
      (.thread t (.sched .sleep)), none)
  | .exitHeld, .next => some ((s.setState p .zombie).goto c (.thread t (.sched .kexit)), none)
  | .sched resume, .next =>
    -- the checks of `sched` panic
    if s.lock p = some c ∧ (s.procs p).state ≠ .running then
      some ((s.saveProc p resume).goto c (.thread t .saved), some (.saved p))
    else none
  | .saved, .next => (s.cpus c).context.map fun q => (s.goto c (.back q), none)
  | .resumed .sleep, .next =>
    some ((s.setProc p fun proc => { proc with chan := none }).release c p (.thread t .body), none)
  | .resumed .yield, .next => some (s.release c p (.thread t .body), none)
  | .held q job, .next => some ((job.run s p q).goto c (.thread t (.done q)), none)
  | .done q, .next => some (s.release c q (.thread t .body), none)
  | _, _ => none

def exec (s : State n) : Fin n × Choice → Option (State n × Option Effect)
  | (c, choice) =>
    match (s.cpus c).code with
    | .thread t pc =>
      match (s.cpus c).proc with
      | some p => thread s c t p pc choice
      | none => none
    | code => scheduler s c code choice

def system (n : Nat) : Lts (State n) ((Fin n × Choice) × Option Effect) :=
  Lts.ofExec (· = boot n) exec

/-- The CPU that runs a process, until it has released its lock again, and whether it has saved
the context. -/
abbrev Ran (n : Nat) := Slot → Option (Fin n × Bool)

def note (ran : Ran n) (_ : State n) : (Fin n × Choice) × Option Effect → Ran n
  | ((c, _), some (.switched p)) => update ran p (some (c, false))
  | ((c, _), some (.saved p)) =>
    if ran p = some (c, false) then update ran p (some (c, true)) else ran
  | ((c, _), some (.released p)) =>
    if ran p = some (c, true) then update ran p none else ran
  | (_, none) => ran

def observed (n : Nat) : Lts (State n × Ran n) ((Fin n × Choice) × Option Effect) :=
  (system n).observed (fun _ => none) note

/-- **A process runs on one CPU.** -/
structure Exclusive (s : State n) (ran : Ran n) : Prop where
  current : ∀ c c' p, (s.cpus c).proc = some p → (s.cpus c').proc = some p → c = c'
  running : ∀ p, (s.procs p).state = .running → (∃! c, (s.cpus c).proc = some p) ∨
    ∃ c, s.lock p = some c ∧ (s.cpus c).code = .picked p
  switch : ∀ c choice s' p, exec s (c, choice) = some (s', some (.switched p)) →
    ran p = none ∧ s.lock p = some c

end Xv6.Sched
