import Xv6.Proc
import Xv6.Vm.Exec

/-!
# Processes with memory

The process table with the memory of each process, the allocator, and the shared
segments; and the functions of `kernel/proc.c` and `kernel/sysproc.c` that
allocate, grow, copy and free the memory of processes.

A system call is one step. Its page-table work is on the page table of its own
process, or on that of a process no one else can reach yet or any more, and the
allocator's lock is held for one `kalloc` or `kfree` at a time. A call that would sleep
takes no step, so that no process is ever asleep here, and `wakeup` has nothing
to do; `Xv6.Wait` is the model of sleeping and waking.
-/

namespace Xv6.Vm

/-- `struct proc` with its memory. A null `pagetable` or `trapframe` is `none`. -/
structure Proc extends Xv6.Proc where
  sz : Nat := 0
  pagetable : Option PageTable := none
  trapframe : Option Nat := none

/-- An entry of `segtable` with `used` set; `pages` is `pages[0..npages)`. -/
structure Shmseg where
  key : Int
  npages : Int
  refcnt : Int
  pages : List Nat

/-- An entry of `attachtable` with a `shmid` other than -1. -/
structure Shmattach where
  shmid : Fin NSHM
  va : Nat
  npages : Int
  deriving DecidableEq

structure State where
  proc : Slot → Proc
  kmem : Kmem
  nextpid : Nat
  initproc : Option Slot
  segtable : Fin NSHM → Option Shmseg
  attachtable : Fin NPROC → Fin NSHM → Option Shmattach
  ticks : UInt32
  /-- the physical page of the trampoline code -/
  trampoline : Nat

def State.set (s : State) (p : Slot) (proc : Proc) (k : Kmem) : State :=
  { s with proc := Function.update s.proc p proc, kmem := k }

@[simp] theorem State.set_proc_self (s : State) (p : Slot) (proc : Proc) (k : Kmem) :
    (s.set p proc k).proc p = proc := by
  simp [State.set]

theorem State.set_proc_other (s : State) (proc : Proc) (k : Kmem) (other : q ≠ p) :
    (s.set p proc k).proc q = s.proc q := by
  simp [State.set, other]

/-- The memory of a process, for the functions that work on it. -/
def State.image (s : State) (p : Slot) : Option Image :=
  (s.proc p).pagetable.map fun pt => { pagetable := pt, sz := (s.proc p).sz, kmem := s.kmem }

def State.setImage (s : State) (p : Slot) (image : Image) : State :=
  s.set p { s.proc p with pagetable := some image.pagetable, sz := image.sz } image.kmem

/-! ## Process structures -/

/-- A process as `freeproc` leaves it. -/
def Proc.cleared (p : Proc) : Proc :=
  { toProc := p.toProc.cleared, sz := 0, pagetable := none, trapframe := none }

/-- The first part of `freeproc`: `if(p->trapframe) kfree(p->trapframe)`. -/
def freeTrapframe (p : Proc) (k : Kmem) : Except Panic Kmem :=
  match p.trapframe with
  | none => .ok k
  | some page => k.kfree page

/-- The second part of `freeproc`: the page table, with the user pages or, for a thread,
without them. -/
def freePagetable (p : Proc) (k : Kmem) : Except Panic Kmem :=
  match p.pagetable with
  | none => .ok k
  | some pt => if p.isThread then procFreepagetableThread pt k p.sz else procFreepagetable pt k p.sz

def freeproc (s : State) (p : Slot) : Except Panic State := do
  let k ← freeTrapframe (s.proc p) s.kmem
  let k ← freePagetable (s.proc p) k
  .ok (s.set p (s.proc p).cleared k)

/-- The first process that is not in use. -/
def State.unusedSlot (s : State) : Option Slot :=
  (List.finRange NPROC).find? fun q => (s.proc q).state = .unused

/-- `allocproc` in the slot it has found. -/
def allocprocAt (s : State) (np : Slot) : Except Panic (State × Option Slot) := do
  let proc : Proc := { s.proc np with
    pid := s.nextpid, state := .used, ctime := s.ticks, rtime := 0, etime := 0 }
  let s := { s with nextpid := s.nextpid + 1 }
  match s.kmem.kalloc with
  | none =>
    let s ← freeproc (s.set np proc s.kmem) np
    .ok (s, none)
  | some (page, k) =>
    let proc := { proc with trapframe := some page }
    let (made, k) ← procPagetable s.trampoline page k
    let s := s.set np { proc with pagetable := made } k
    match made with
    | none =>
      let s ← freeproc s np
      .ok (s, none)
    | some _ => .ok (s, some np)

/-- `allocproc`: a process in state `USED`, or `none`. -/
def allocproc (s : State) : Except Panic (State × Option Slot) :=
  match s.unusedSlot with
  | none => .ok (s, none)
  | some np => allocprocAt s np

def userinit (s : State) : Except Panic State := do
  let (s, made) ← allocproc s
  match made with
  | none => .error .fault
  | some p =>
    .ok { s.set p { s.proc p with state := .runnable } s.kmem with initproc := some p }

/-! ## `sbrk` -/

/-- The sum `sz + n` of a `uint64` and an `int`. -/
def addSize (sz : Nat) (n : Int) : Nat := ((sz + n) % 2 ^ 64).toNat

/-- `growproc(n)`; the result is false for -1. -/
def growproc (image : Image) (n : Int) : Except Panic (Image × Bool) :=
  if n > 0 then
    if image.sz + n.toNat > trapframeVpn * PGSIZE then .ok (image, false)
    else do
      let (pt, k, sz) ← uvmalloc image.pagetable image.kmem image.sz
        (image.sz + n.toNat) { w := true }
      if sz = 0 then .ok ({ image with pagetable := pt, kmem := k }, false)
      else .ok ({ pagetable := pt, sz := sz, kmem := k }, true)
  else if n < 0 then do
    let (pt, k, sz) ← uvmdealloc image.pagetable image.kmem image.sz (addSize image.sz n)
    .ok ({ pagetable := pt, sz := sz, kmem := k }, true)
  else .ok (image, true)

/-- `sys_sbrk`, with `t == SBRK_EAGER` as `eager`. The check `addr + n < addr` is left out: a
size is at most `TRAPFRAME`, so that the sum does not wrap. -/
def sbrk (image : Image) (n : Int) (eager : Bool) : Except Panic (Image × Bool) :=
  if eager ∨ n < 0 then growproc image n
  else if image.sz + n.toNat > trapframeVpn * PGSIZE then .ok (image, false)
  else .ok ({ image with sz := image.sz + n.toNat }, true)

/-! ## New processes and threads -/

/-- `kfork` and `kclone`: `share` fills the page table of the new process from that of `p`,
and `regs` sets its registers. The result is the new pid, or `none` for -1. -/
def spawn (share : PageTable → PageTable → Kmem → Nat → Except Panic (PageTable × Kmem × Bool))
    (regs : Nat → Kmem → Kmem) (thread : Bool) (s : State) (p : Slot) :
    Except Panic (State × Option Nat) := do
  let (s, made) ← allocproc s
  match made with
  | none => .ok (s, none)
  | some np =>
    match (s.proc p).pagetable, (s.proc p).trapframe, (s.proc np).pagetable,
        (s.proc np).trapframe with
    | some old, some oldFrame, some new, some newFrame =>
      let (new, k, ok) ← share old new s.kmem (s.proc p).sz
      let child := { s.proc np with pagetable := some new }
      if ok then
        let child := { child with
          sz := (s.proc p).sz, isThread := thread, parent := some p, state := .runnable }
        .ok (s.set np child (regs newFrame (k.copyPage newFrame oldFrame)), some child.pid)
      else
        let s ← freeproc (s.set np child k) np
        .ok (s, none)
    | _, _, _, _ => .error .fault

def kfork : State → Slot → Except Panic (State × Option Nat) :=
  spawn uvmcopy (fun frame k => k.setReg frame tfA0 0) false

def kclone (fn arg stack : Nat) : State → Slot → Except Panic (State × Option Nat) :=
  spawn uvmshare
    (fun frame k => ((k.setReg frame tfEpc fn).setReg frame tfA0 arg).setReg frame tfSp stack) true

/-! ## Exit and wait -/

/-- The process has become a zombie, and its children are those of `initproc`. -/
def State.exited (s : State) (p : Slot) (status : Int) : State :=
  { s with proc := fun q =>
      let proc := s.proc q
      let proc := if proc.parent = some p then { proc with parent := s.initproc } else proc
      if q = p then { proc with xstate := status, etime := s.ticks, state := .zombie } else proc }

def kexit (s : State) (p : Slot) (status : Int) : Except Panic State :=
  if s.initproc = some p then .error .initExiting
  else .ok (s.exited p status)

/-- A child that `kwait` looks at; `kjoin` looks at threads only. -/
def State.isChild (s : State) (p : Slot) (threads : Bool) (q : Slot) : Bool :=
  (s.proc q).parent = some p && (!threads || (s.proc q).isThread)

/-- The first child that has exited. -/
def State.zombieChild (s : State) (p : Slot) (threads : Bool) : Option Slot :=
  (List.finRange NPROC).find? fun q => s.isChild p threads q && (s.proc q).state = .zombie

/-- The bytes of an `int`. -/
def bytes32 (n : Int) : List UInt8 :=
  (List.range 4).map fun i => UInt8.ofNat ((n % 2 ^ 32).toNat / 256 ^ i)

/-- `addr != 0 && copyout(p->pagetable, addr, &xstate, sizeof(xstate)) < 0` is false. -/
def reportStatus (image : Image) (addr : Nat) (xstate : Int) : Except Panic (Image × Bool) :=
  if addr = 0 then .ok (image, true)
  else do
    let (pt, k, ok) ← copyout none image.pagetable image.sz image.kmem addr (bytes32 xstate)
    .ok ({ image with pagetable := pt, kmem := k }, ok)

/-- One pass of `kwait(addr)`, `waitx(addr, …)` or, with `threads` and no address, `kjoin()`
over the process table. The result is `none` if the caller goes to sleep; otherwise it has
the pid of the child, or `none` for -1. `waitx` also reads the child's times into
variables of its caller, which `sys_waitx` does not use. -/
def waitFor (threads : Bool) (addr : Nat) (s : State) (p : Slot) :
    Except Panic (Option (State × Option Nat)) :=
  match s.zombieChild p threads with
  | some child =>
    match s.image p with
    | none => .error .fault
    | some image => do
        let (image, ok) ← reportStatus image addr (s.proc child).xstate
        let s := s.setImage p image
        if ok then
          let s' ← freeproc s child
          .ok (some (s', some (s.proc child).pid))
        else .ok (some (s, none))
  | none =>
    if (∀ q, s.isChild p threads q = false) ∨ (s.proc p).killed then .ok (some (s, none))
    else .ok none

/-- `kkill`: the result is `none` for -1. -/
def kkill (s : State) (pid : Nat) : State × Option Nat :=
  match (List.finRange NPROC).find? fun q => (s.proc q).pid = pid with
  | none => (s, none)
  | some q => (s.set q { s.proc q with toProc := (s.proc q).toProc.kill } s.kmem, some 0)

end Xv6.Vm
