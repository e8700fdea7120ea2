import Mathlib.Algebra.GroupWithZero.Nat
import Mathlib.Logic.Function.Basic

/-!
# The process table

The part of `kernel/param.h`, `kernel/proc.h` and `kernel/proc.c` that every
model of the process table shares: the table's size, the process states, the
sleep channels, and the fields of `struct proc` that `p->lock` and `wait_lock`
protect.

A process slot is a `Slot`, the index of an entry of `proc[NPROC]`. A process is
identified over a whole run by its pid: `allocpid` hands out `nextpid` and counts
it up, and the counter is a natural number here, so that it does not overflow.
-/

namespace Xv6

def NPROC : Nat := 64
def NLOCK : Nat := 16
def NSHM : Nat := 16
def SHM_MAXPAGES : Nat := 4

instance : NeZero NPROC := ⟨by decide⟩
instance : NeZero NLOCK := ⟨by decide⟩
instance : NeZero NSHM := ⟨by decide⟩

/-- Index of an entry of `proc[NPROC]`. -/
abbrev Slot := Fin NPROC

/-- `enum procstate`. -/
inductive ProcState
  | unused | used | sleeping | runnable | running | zombie
  deriving DecidableEq

/-- Neither `UNUSED` nor `ZOMBIE`. -/
def ProcState.live : ProcState → Bool
  | .unused | .zombie => false
  | _ => true

/-- The addresses `sleep` is called with: a user lock `&locks[id]`, a process `p`
(the channel of `kwait`, `kjoin` and `waitx`), or some other kernel object. -/
inductive Chan
  | lock (id : Fin NLOCK)
  | proc (p : Slot)
  | other (addr : Nat)
  deriving DecidableEq

/-- `struct proc`, without its memory, its files and its name. A null `chan` or
`parent` is `none`. -/
structure Proc where
  state : ProcState := .unused
  chan : Option Chan := none
  killed : Bool := false
  xstate : Int := 0
  pid : Nat := 0
  parent : Option Slot := none
  ctime : UInt32 := 0
  rtime : UInt32 := 0
  etime : UInt32 := 0
  isThread : Bool := false
  deriving DecidableEq

/-- The body of `wakeup`'s loop on one process, a critical section of `p->lock`. -/
def Proc.wakeup (chan : Option Chan) (p : Proc) : Proc :=
  if p.state = .sleeping ∧ p.chan = chan then { p with state := .runnable } else p

/-- What `kkill` does to the process it finds, a critical section of `p->lock`. -/
def Proc.kill (p : Proc) : Proc :=
  { p with killed := true, state := if p.state = .sleeping then .runnable else p.state }

/-- The fields `freeproc` clears, after it has freed the memory of the process. -/
def Proc.cleared (p : Proc) : Proc :=
  { p with pid := 0, parent := none, chan := none, killed := false, xstate := 0,
           isThread := false, state := .unused }

section

variable (chan : Option Chan) (p : Proc)

@[simp] theorem Proc.wakeup_pid : (p.wakeup chan).pid = p.pid := by
  unfold Proc.wakeup; split <;> rfl

@[simp] theorem Proc.wakeup_chan : (p.wakeup chan).chan = p.chan := by
  unfold Proc.wakeup; split <;> rfl

@[simp] theorem Proc.wakeup_parent : (p.wakeup chan).parent = p.parent := by
  unfold Proc.wakeup; split <;> rfl

@[simp] theorem Proc.wakeup_isThread : (p.wakeup chan).isThread = p.isThread := by
  unfold Proc.wakeup; split <;> rfl

theorem Proc.wakeup_state : (p.wakeup chan).state =
      if p.state = .sleeping ∧ p.chan = chan then .runnable else p.state := by
  unfold Proc.wakeup; split <;> rfl

end

theorem Proc.kill_unused (p : Proc) : p.kill.state = .unused ↔ p.state = .unused := by
  unfold Proc.kill
  dsimp only
  split
  · next asleep => simp [asleep]
  · rfl

theorem Proc.wakeup_not_sleeping (chan : Option Chan) (p : Proc) :
    ¬ ((p.wakeup chan).state = .sleeping ∧ (p.wakeup chan).chan = chan) := by
  rintro ⟨asleep, onChan⟩
  rw [Proc.wakeup_chan] at onChan
  rw [Proc.wakeup_state] at asleep
  split at asleep
  · cases asleep
  · next awake => exact awake ⟨asleep, onChan⟩

end Xv6
