import Xv6.Lib.Transition
import Xv6.Vm.Shm

/-!
# The memory system

The step function of the system: the system calls and page faults of all processes, in
any order, until a panic.
-/

namespace Xv6.Vm

/-- What a process can do: a system call with its arguments, or an access to the address
`va` that faults. `exec` has the content of the file that its path names. -/
inductive Call
  | fork
  | clone (fn arg stack : Nat)
  | exit (status : Int)
  | wait (addr : Nat)
  | waitx (addr : Nat)
  | join
  | exec (file : Option File) (argv : List (List UInt8))
  | sbrk (n : Int) (eager : Bool)
  | kill (pid : Nat)
  | shmget (key size : Int)
  | shmattach (shmid : Int)
  | shmdetach (addr : Nat)
  | fault (va : Nat)

/-- The result of a function that works on the caller's memory; its value is `none` for -1. -/
def State.withImage (s : State) (p : Slot) (value : Nat)
    (run : Image → Except Panic (Image × Bool)) : Except Panic (State × Option Nat) :=
  match s.image p with
  | none => .error .fault
  | some image => do
      let (image, ok) ← run image
      .ok (s.setImage p image, if ok then some value else none)

/-- `usertrap` on a page fault: if `vmfault` cannot help, the process is killed and exits. -/
def pageFault (s : State) (p : Slot) (va : Nat) : Except Panic (State × Option Nat) :=
  match s.image p with
  | none => .error .fault
  | some image => do
      let (pt, k, pa) ← vmfault image.pagetable image.pagetable image.sz image.kmem va
      let s := s.setImage p { image with pagetable := pt, kmem := k }
      if pa.isSome then .ok (s, some 0)
      else
        let s ← kexit (s.set p { s.proc p with killed := true } s.kmem) p (-1)
        .ok (s, none)

/-- One call of process `p`, `none` if it goes to sleep. -/
def call (s : State) (p : Slot) : Call → Except Panic (Option (State × Option Nat))
  | .fork => some <$> kfork s p
  | .clone fn arg stack => some <$> kclone fn arg stack s p
  | .exit status => (fun s => some (s, none)) <$> kexit s p status
  | .wait addr => waitFor false addr s p
  | .waitx addr => waitFor false addr s p
  | .join => waitFor true 0 s p
  | .exec file argv =>
    some <$> s.withImage p argv.length (kexec s.trampoline ((s.proc p).trapframe.getD 0) file argv)
  | .sbrk n eager => some <$> s.withImage p (s.proc p).sz (sbrk · n eager)
  | .kill pid => .ok (some (kkill s pid))
  | .shmget key size => some <$> shmget s key size
  | .shmattach shmid => some <$> shmattach s p shmid
  | .shmdetach addr => some <$> shmdetach s p addr
  | .fault va => some <$> pageFault s p va

/-- A process that has been killed exits when it next enters the kernel. -/
def State.entered (s : State) (p : Slot) (c : Call) : Call :=
  if (s.proc p).killed then .exit (-1) else c

structure Machine where
  state : State
  panicked : Option Panic := none

/-- A call of a process, with what it returns. -/
abbrev Event : Type := (Slot × Call) × Option Nat

/-- A step of the system: process `p` makes the call `c`. A panic stops the system in the
state from before the call. -/
def exec (m : Machine) (label : Slot × Call) : Option (Machine × Option Nat) :=
  if m.panicked = none ∧ (m.state.proc label.1).state.live then
    match call m.state label.1 (m.state.entered label.1 label.2) with
    | .ok none => none
    | .ok (some (s, value)) => some ({ state := s }, value)
    | .error e => some ({ m with panicked := some e }, none)
  else none

end Xv6.Vm
