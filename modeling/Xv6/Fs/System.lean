import Mathlib.Algebra.Group.Int.Defs
import Xv6.Proc
import Xv6.Fs.Names

/-!
# The file system

Open files (`kernel/file.c`), pipes as far as they hold files open (`kernel/pipe.c`), and the
system calls of `kernel/sysfile.c` with the parts of `kfork`, `kclone` and `kexit` that
concern files. A process is known here by its state, its descriptors and its current
directory.

`exec` is the step function of the system in which calls run one after the other, until a
panic.
-/

namespace Xv6.Fs

open Log (BSIZE Block)
open Function (update)

def NFILE : Nat := 100
def NOFILE : Nat := 16
def NDEV : Nat := 10

def O_RDONLY : Nat := 0x000
def O_WRONLY : Nat := 0x001
def O_RDWR : Nat := 0x002
def O_CREATE : Nat := 0x200
def O_TRUNC : Nat := 0x400

inductive FileType
  | none | pipe | inode | device
deriving DecidableEq

/-- `struct file`; `pipe` is the number of the pipe. -/
structure File where
  type : FileType := .none
  ref : Nat := 0
  readable : Bool := false
  writable : Bool := false
  pipe : Nat := 0
  ip : Ip := ⟨0, by decide⟩
  off : Nat := 0
  major : UInt16 := 0

/-- `struct pipe`, without its data; `freed` counts how often its memory has been freed. -/
structure Pipe where
  readopen : Bool := false
  writeopen : Bool := false
  freed : Nat := 0

abbrev Fd := Fin NOFILE
abbrev Fp := Fin NFILE

/-- The file system, the open files and the pipes, and the processes. The pipes are
numbered in the order in which they are made, `npipe` in all. -/
structure Sys where
  fs : State
  ftable : Fp → File
  pipes : Nat → Pipe
  npipe : Nat
  proc : Slot → ProcState
  ofile : Slot → Fd → Option Fp
  cwd : Slot → Option Ip

abbrev SysM := Prog Label Sys Panic

def Sys.setFs (fs : State) (sys : Sys) : Sys := { sys with fs := fs }

def onFs {α : Type} (x : FsM α) : SysM α := x.zoom Sys.fs Sys.setFs

def file (f : Fp) : SysM File := .read .other fun sys => sys.ftable f

def Sys.modifyFile (sys : Sys) (f : Fp) (g : File → File) : Sys :=
  { sys with ftable := update sys.ftable f (g (sys.ftable f)) }

@[simp] theorem Sys.modifyFile_self (sys : Sys) (f : Fp) (g : File → File) :
    (sys.modifyFile f g).ftable f = g (sys.ftable f) := Function.update_self ..

theorem Sys.modifyFile_other (sys : Sys) (g : File → File) (other : f' ≠ f) :
    (sys.modifyFile f g).ftable f' = sys.ftable f' := Function.update_of_ne other ..

def modifyFile (f : Fp) (g : File → File) : SysM Unit :=
  .modify .other fun sys => sys.modifyFile f g

def Sys.setFd (sys : Sys) (p : Slot) (fd : Fd) (f : Option Fp) : Sys :=
  { sys with ofile := update sys.ofile p (update (sys.ofile p) fd f) }

def setFd (p : Slot) (fd : Fd) (f : Option Fp) : SysM Unit :=
  .modify .other fun sys => sys.setFd p fd f

def setCwd (p : Slot) (ip : Option Ip) : SysM Unit :=
  .modify .other fun sys => { sys with cwd := update sys.cwd p ip }

def setProc (p : Slot) (state : ProcState) : SysM Unit :=
  .modify .other fun sys => { sys with proc := update sys.proc p state }

def inTransaction {α : Type} (body : SysM α) : SysM α := do
  onFs beginOp
  let result ← body
  onFs endOp
  return result

/-! ## Open files -/

def Sys.freeFile (sys : Sys) : Option Fp :=
  (List.finRange NFILE).find? fun f => (sys.ftable f).ref = 0

def filealloc : SysM (Option Fp) :=
  .atomic .other fun sys =>
    match sys.freeFile with
    | none => some (.ok (none, sys))
    | some f => some (.ok (some f, sys.modifyFile f fun v => { v with ref := 1 }))

def Sys.freeFd (sys : Sys) (p : Slot) : Option Fd :=
  (List.finRange NOFILE).find? fun fd => (sys.ofile p fd).isNone

def fdalloc (p : Slot) (f : Fp) : SysM (Option Fd) :=
  .atomic .other fun sys =>
    match sys.freeFd p with
    | none => some (.ok (none, sys))
    | some fd => some (.ok (some fd, sys.setFd p fd (some f)))

def filedup (f : Fp) : SysM Unit :=
  .atomic .other fun sys =>
    if (sys.ftable f).ref < 1 then some (.error .filedup)
    else some (.ok ((), sys.modifyFile f fun v => { v with ref := v.ref + 1 }))

/-- `pipeclose` of the end for writing or for reading; the pipe whose ends are both closed is
freed. -/
def Pipe.close (pi : Pipe) (writable : Bool) : Pipe :=
  let writeopen := if writable then false else pi.writeopen
  let readopen := if writable then pi.readopen else false
  { readopen := readopen
    writeopen := writeopen
    freed := if readopen = false ∧ writeopen = false then pi.freed + 1 else pi.freed }

def pipeclose (pi : Nat) (writable : Bool) : SysM Unit :=
  .modify .other fun sys =>
    { sys with pipes := update sys.pipes pi ((sys.pipes pi).close writable) }

def Sys.closeFile (sys : Sys) (f : Fp) : Sys :=
  sys.modifyFile f fun v => { v with ref := 0, type := .none }

/-- The critical section of `fileclose`: the file, if its last reference is gone. -/
def dropFile (f : Fp) : SysM (Option File) :=
  .atomic .other fun sys =>
    if (sys.ftable f).ref < 1 then some (.error .fileclose)
    else if 1 < (sys.ftable f).ref then
      some (.ok (none, sys.modifyFile f fun v => { v with ref := v.ref - 1 }))
    else some (.ok (some (sys.ftable f), sys.closeFile f))

/-- What `fileclose` does with a file that nothing refers to any more. -/
def closeLast (ff : File) : SysM Unit :=
  match ff.type with
  | .none => return
  | .pipe => pipeclose ff.pipe ff.writable
  | .inode | .device => onFs (transaction (iput ff.ip))

def fileclose (f : Fp) : SysM Unit := do
  let last ← dropFile f
  match last with
  | none => return
  | some ff => closeLast ff

/-- `filestat`; what it copies out is not followed, only whether `copyout` can. -/
def filestat (f : Fp) (out : Bool) : SysM (Option Nat) := do
  let v ← file f
  if v.type = .inode ∨ v.type = .device then do
    onFs do
      ilock v.ip
      iunlock v.ip
    return if out then some 0 else none
  else return none

/-- A `uint` argument that was an `int`. -/
def toUint (n : Int) : Nat := (n % 2 ^ 32).toNat

/-- `fileread` of an inode; a device or a pipe reads from elsewhere. -/
def fileread (f : Fp) (dst : Nat → Bool) (n : Int) : SysM (Option Nat) := do
  let v ← file f
  if v.readable = false then return none
  else match v.type with
  | .pipe | .device => return none
  | .none => .fail .other .fileread
  | .inode => do
      onFs (ilock v.ip)
      let v ← file f
      let bytes ← onFs (readi v.ip dst v.off (toUint n))
      modifyFile f fun v => { v with off := v.off + (bytes.getD []).length }
      onFs (iunlock v.ip)
      return bytes.map (·.length)

/-- The most that `filewrite` writes in one transaction. -/
def writeMax : Nat := (Log.MAXOPBLOCKS - 1 - 1 - 2) / 2 * BSIZE

/-- A transaction of `filewrite`: `n1` bytes from byte `i` of the source on. -/
def writeChunk (f : Fp) (src : Nat → Option UInt8) (i n1 : Nat) : SysM (Option Nat) :=
  inTransaction do
    let v ← file f
    onFs (ilock v.ip)
    let v ← file f
    let r ← onFs (writei v.ip (fun j => src (i + j)) v.off n1)
    modifyFile f fun v => { v with off := v.off + r.getD 0 }
    onFs (iunlock v.ip)
    return r

/-- The loop of `filewrite`, from byte `i` on; the result is the final `i`. -/
def writeChunks (f : Fp) (src : Nat → Option UInt8) (n : Nat) : Nat → Nat → SysM Nat
  | 0, i => return i
  | fuel + 1, i =>
    if i < n then do
      let r ← writeChunk f src i (min (n - i) writeMax)
      if r = some (min (n - i) writeMax) then
        writeChunks f src n fuel (i + min (n - i) writeMax)
      else return i
    else return i

/-- `filewrite` to an inode; a device or a pipe writes elsewhere. -/
def filewrite (f : Fp) (src : Nat → Option UInt8) (n : Int) : SysM (Option Nat) := do
  let v ← file f
  if v.writable = false then return none
  else match v.type with
  | .pipe | .device => return none
  | .none => .fail .other .filewrite
  | .inode => do
      let i ← writeChunks f src n.toNat n.toNat 0
      return if (i : Int) = n then some i else none

/-! ## System calls on files -/

/-- The inode that `sys_open` opens, locked. -/
def openInode (cwd : Ip) (path : List UInt8) (omode : Nat) : FsM (Option Ip) :=
  if omode &&& O_CREATE ≠ 0 then create cwd path T_FILE 0 0
  else do
    let found ← namei cwd path
    match found with
    | none => return none
    | some ip => do
        ilock ip
        let v ← inode ip
        if v.type = T_DIR ∧ omode ≠ O_RDONLY then do
          iunlockput ip
          return none
        else return some ip

/-- The effect of `O_TRUNC`. -/
def truncate (ip : Ip) (omode : Nat) : FsM Unit := do
  let v ← inode ip
  if omode &&& O_TRUNC ≠ 0 ∧ v.type = T_FILE then itrunc ip else return

/-- What `sys_open` makes of the file for the inode `v`. -/
def File.opened (old : File) (ip : Ip) (v : Inode) (omode : Nat) : File :=
  { old with
    type := if v.type = T_DEVICE then .device else .inode
    major := if v.type = T_DEVICE then v.major else old.major
    off := if v.type = T_DEVICE then old.off else 0
    ip := ip
    readable := omode &&& O_WRONLY = 0
    writable := omode &&& O_WRONLY ≠ 0 ∨ omode &&& O_RDWR ≠ 0 }

/-- The end of `sys_open`: fill in the file and truncate the inode if that is asked for. -/
def openFile (f : Fp) (ip : Ip) (omode : Nat) : SysM Unit := do
  let v ← onFs (inode ip)
  modifyFile f fun old => old.opened ip v omode
  onFs (truncate ip omode)
  onFs (iunlock ip)

/-- A file and a descriptor for the locked inode `ip`. -/
def openLocked (p : Slot) (ip : Ip) (omode : Nat) : SysM (Option Nat) := do
  let new ← filealloc
  match new with
  | none => do
      onFs (iunlockput ip)
      return none
  | some f => do
      let fd ← fdalloc p f
      match fd with
      | none => do
          fileclose f
          onFs (iunlockput ip)
          return none
      | some fd => do
          openFile f ip omode
          return some fd

def sysOpen (p : Slot) (cwd : Ip) (path : List UInt8) (omode : Nat) : SysM (Option Nat) :=
  match argstr path with
  | none => return none
  | some path => inTransaction do
      let found ← onFs (openInode cwd path omode)
      match found with
      | none => return none
      | some ip => do
          let v ← onFs (inode ip)
          -- `major` is a `short`, so that this is also true of the negative ones
          if v.type = T_DEVICE ∧ NDEV ≤ v.major.toNat then do
            onFs (iunlockput ip)
            return none
          else openLocked p ip omode

def sysClose (p : Slot) (fd : Fd) (f : Fp) : SysM (Option Nat) := do
  setFd p fd none
  fileclose f
  return some 0

def sysDup (p : Slot) (f : Fp) : SysM (Option Nat) := do
  let fd ← fdalloc p f
  match fd with
  | none => return none
  | some fd => do
      filedup f
      return some fd

/-- `sys_chdir`, between its `begin_op` and its `end_op`: the new directory. -/
def chdir (cwd : Ip) (path : List UInt8) : FsM (Option Ip) := do
  let found ← namei cwd path
  match found with
  | none => return none
  | some ip => do
      ilock ip
      let v ← inode ip
      if v.type ≠ T_DIR then do
        iunlockput ip
        return none
      else do
        iunlock ip
        iput cwd
        return some ip

def sysChdir (p : Slot) (cwd : Ip) (path : List UInt8) : SysM (Option Nat) := do
  let found ← onFs <| transaction <| match argstr path with
    | none => return none
    | some path => chdir cwd path
  match found with
  | none => return none
  | some ip => do
      setCwd p (some ip)
      return some 0

/-! ## Pipes -/

/-- A new pipe, whose ends are open. -/
def Sys.addPipe (sys : Sys) : Sys :=
  { sys with
    pipes := update sys.pipes sys.npipe { readopen := true, writeopen := true }
    npipe := sys.npipe + 1 }

/-- `kalloc` and initialisation of a pipe. -/
def newPipe : SysM Nat := .atomic .other fun sys => some (.ok (sys.npipe, sys.addPipe))

/-- A file that is an end of a pipe. -/
def File.toEnd (v : File) (pi : Nat) (writable : Bool) : File :=
  { v with type := .pipe, readable := !writable, writable := writable, pipe := pi }

def setEnd (f : Fp) (pi : Nat) (writable : Bool) : SysM Unit :=
  modifyFile f fun v => v.toEnd pi writable

/-- `pipealloc`; `mem` says whether there is memory for the pipe. -/
def pipealloc (mem : Bool) : SysM (Option (Fp × Fp)) := do
  let f0 ← filealloc
  match f0 with
  | none => return none
  | some f0 => do
      let f1 ← filealloc
      match f1 with
      | none => do
          fileclose f0
          return none
      | some f1 =>
        if mem then do
          let pi ← newPipe
          setEnd f0 pi false
          setEnd f1 pi true
          return some (f0, f1)
        else do
          fileclose f0
          fileclose f1
          return none

/-- The failing ends of `sys_pipe`. -/
def pipeFail (rf wf : Fp) : SysM (Option Nat) := do
  fileclose rf
  fileclose wf
  return none

/-- Descriptors for the two ends; `out` says whether `copyout` can hand them to the process. -/
def pipeFds (p : Slot) (rf wf : Fp) (out : Bool) : SysM (Option Nat) := do
  let fd0 ← fdalloc p rf
  match fd0 with
  | none => pipeFail rf wf
  | some fd0 => do
      let fd1 ← fdalloc p wf
      match fd1 with
      | none => do
          setFd p fd0 none
          pipeFail rf wf
      | some fd1 =>
        if out then return some 0
        else do
          setFd p fd0 none
          setFd p fd1 none
          pipeFail rf wf

def sysPipe (p : Slot) (mem out : Bool) : SysM (Option Nat) := do
  let ends ← pipealloc mem
  match ends with
  | none => return none
  | some (rf, wf) => pipeFds p rf wf out

/-! ## Processes -/

def Sys.freeProc (sys : Sys) : Option Slot :=
  (List.finRange NPROC).find? fun p => sys.proc p = .unused

/-- `allocproc`, as far as the slot is concerned. -/
def allocproc : SysM (Option Slot) :=
  .atomic .other fun sys =>
    match sys.freeProc with
    | none => some (.ok (none, sys))
    | some np => some (.ok (some np, { sys with proc := update sys.proc np .used }))

/-- The loop of `kfork` and `kclone` over the descriptors `fds`. -/
def dupFiles (p np : Slot) : List Fd → SysM Unit
  | [] => return
  | fd :: fds => do
      let f ← .read .other fun sys => sys.ofile p fd
      match f with
      | none => dupFiles p np fds
      | some f => do
          filedup f
          setFd np fd (some f)
          dupFiles p np fds

/-- What `kfork` and `kclone` do with files; they differ in what they do with memory, of
which `mem` says whether there is enough. -/
def newProc (p : Slot) (cwd : Ip) (mem : Bool) : SysM (Option Nat) := do
  let new ← allocproc
  match new with
  | none => return none
  | some np =>
    if mem then do
      dupFiles p np (List.finRange NOFILE)
      onFs (idup cwd)
      setCwd np (some cwd)
      setProc np .runnable
      return some 0
    else do
      setProc np .unused
      return none

def kfork (p : Slot) (cwd : Ip) (mem : Bool) : SysM (Option Nat) := newProc p cwd mem

def kclone (p : Slot) (cwd : Ip) (mem : Bool) : SysM (Option Nat) := newProc p cwd mem

/-- The loop of `kexit` over the descriptors `fds`. -/
def closeFiles (p : Slot) : List Fd → SysM Unit
  | [] => return
  | fd :: fds => do
      let f ← .read .other fun sys => sys.ofile p fd
      match f with
      | none => closeFiles p fds
      | some f => do
          fileclose f
          setFd p fd none
          closeFiles p fds

/-- What `kexit` does with the files of a process. The first process must not exit. -/
def kexit (p : Slot) (cwd : Ip) : SysM (Option Nat) :=
  if p.val = 0 then .fail .other .initExiting
  else do
    closeFiles p (List.finRange NOFILE)
    onFs (transaction (iput cwd))
    setCwd p none
    setProc p .zombie
    return none

/-- The end of a process, when it is waited for: `freeproc`, as far as the slot is concerned. -/
def reap (q : Slot) : SysM (Option Nat) :=
  .atomic .other fun sys =>
    if sys.proc q = .zombie then
      some (.ok (some 0, { sys with proc := update sys.proc q .unused }))
    else some (.ok (none, sys))

/-- What a process can do. `write` has the bytes of its source, as far as they can be read, and
`read` says which bytes of its destination can be written; `mem` says whether there is memory,
and `out` whether `copyout` can write to the process. `ireclaim` is not a system call, but
the first process runs it when it starts. -/
inductive Op
  | open (path : List UInt8) (omode : Nat)
  | close (fd : Int)
  | dup (fd : Int)
  | read (fd : Int) (dst : Nat → Bool) (n : Int)
  | write (fd : Int) (src : Nat → Option UInt8) (n : Int)
  | fstat (fd : Int) (out : Bool)
  | link (old new : List UInt8)
  | unlink (path : List UInt8)
  | mkdir (path : List UInt8)
  | mknod (path : List UInt8) (major minor : UInt16)
  | chdir (path : List UInt8)
  | getcwd (usize : Int) (out : Bool)
  | exec (path : List UInt8) (parts : List (Nat × Nat))
  | pipe (mem out : Bool)
  | fork (mem : Bool)
  | clone (mem : Bool)
  | exit
  | wait (q : Slot)
  | reclaim

def toFd (fd : Int) : Option Fd :=
  if h : 0 ≤ fd ∧ fd < NOFILE then some ⟨fd.toNat, by omega⟩ else none

/-- `argfd`, and -1 if it fails. -/
def withFile (p : Slot) (fd : Int) (body : Fd → Fp → SysM (Option Nat)) : SysM (Option Nat) :=
  match toFd fd with
  | none => return none
  | some fd => do
      let f ← .read .other fun sys => sys.ofile p fd
      match f with
      | none => return none
      | some f => body fd f

def sysExec (cwd : Ip) (path : List UInt8) (parts : List (Nat × Nat)) : FsM (Option Nat) :=
  match argstr path with
  | none => return none
  | some path => do
      let started ← kexec cwd path parts
      return if started then some 0 else none

/-- The call of process `p`, whose current directory is `cwd`. -/
def call (p : Slot) (cwd : Ip) : Op → SysM (Option Nat)
  | .open path omode => sysOpen p cwd path omode
  | .close fd => withFile p fd fun fd f => sysClose p fd f
  | .dup fd => withFile p fd fun _ f => sysDup p f
  | .read fd dst n => withFile p fd fun _ f => fileread f dst n
  | .write fd src n => withFile p fd fun _ f => filewrite f src n
  | .fstat fd out => withFile p fd fun _ f => filestat f out
  | .link old new => onFs (sysLink cwd old new)
  | .unlink path => onFs (sysUnlink cwd path)
  | .mkdir path => onFs (sysMkdir cwd path)
  | .mknod path major minor => onFs (sysMknod cwd path major minor)
  | .chdir path => sysChdir p cwd path
  | .getcwd usize out => onFs do
      let path ← sysGetcwd cwd usize out
      return path.map fun _ => 0
  | .exec path parts => onFs (sysExec cwd path parts)
  | .pipe mem out => sysPipe p mem out
  | .fork mem => kfork p cwd mem
  | .clone mem => kclone p cwd mem
  | .exit => kexit p cwd
  | .wait q => reap q
  | .reclaim => onFs do
      ireclaim
      return none

/-- The system, which stops at a panic. -/
structure Machine where
  sys : Sys
  panicked : Option Panic := none

/-- A step of the system: process `p` makes a call, which runs to its end. A panic stops the
system, and there is no step if the call waits for ever. -/
def exec (m : Machine) (label : Slot × Op) : Option (Machine × Option Nat) :=
  match m.panicked, m.sys.cwd label.1 with
  | none, some cwd =>
    match (call label.1 cwd label.2).run m.sys with
    | none => none
    | some (.ok (value, sys)) => some ({ sys := sys }, value)
    | some (.error e) => some ({ m with panicked := some e }, none)
  | _, _ => none

/-- The system after `userinit`, on a disk: the first process has the root, which has not
been read yet, as its current directory. -/
def boot (sb : Superblock) (disk : Disk) : Sys where
  fs :=
    { sb := sb
      disk := disk
      itable := fun e => if e.val = 0 then { inum := ROOTINO, ref := 1 } else {} }
  ftable _ := {}
  pipes _ := {}
  npipe := 0
  proc p := if p.val = 0 then .runnable else .unused
  ofile _ _ := none
  cwd p := if p.val = 0 then some ⟨0, by decide⟩ else none

/-- A disk for examples: 20 blocks, of which the first four have no data. -/
def smallSb : Superblock := { size := 20, ninodes := 8, inodestart := 2, bmapstart := 3 }

/-- The block of a directory with these entries. -/
def dirBlock (entries : List (Nat × List UInt8)) : Block := fun j =>
  let entry := entries.getD (j.val / sizeofDirent) (0, [])
  (mkDirent entry.1 entry.2).getD (j.val % sizeofDirent) 0

/-- The directory with these entries is inode `i`, and block `b` its content. -/
def Disk.addDir (disk : Disk) (i b : Nat) (nlink : UInt16) (entries : List (Nat × List UInt8)) :
    Disk :=
  ((disk.set b (dirBlock entries)).setUsed smallSb b true).setDinode smallSb i
    { type := T_DIR
      nlink := nlink
      size := UInt32.ofNat (sizeofDirent * entries.length)
      addrs := fun k => if k.val = 0 then UInt32.ofNat b else 0 }

/-- The directories `/`, `/a` and `/a/b`. -/
def smallDisk : Disk :=
  let empty : Disk := (List.range 4).foldl (fun d b => d.setUsed smallSb b true) fun _ _ => 0
  ((empty.addDir 1 4 2 [(1, dot), (1, dotdot), (2, [0x61])]).addDir
    2 5 2 [(2, dot), (1, dotdot), (3, [0x62])]).addDir
    3 6 1 [(3, dot), (2, dotdot)]

def system : Lts Machine ((Slot × Op) × Option Nat) :=
  .ofExec (fun m => ∃ sb disk, m = { sys := boot sb disk }) exec

theorem exec_cases (step : exec m label = some (m', value)) :
    m.panicked = none ∧ ∃ cwd, m.sys.cwd label.1 = some cwd ∧
      ((∃ sys, (call label.1 cwd label.2).run m.sys = some (.ok (value, sys)) ∧
          m' = { sys := sys }) ∨
        ∃ e, (call label.1 cwd label.2).run m.sys = some (.error e) ∧
          m' = { m with panicked := some e }) := by
  unfold exec at step
  split at step
  · next cwd running here =>
    refine ⟨running, cwd, here, ?_⟩
    split at step
    · cases step
    · next value sys ended =>
      cases step
      exact .inl ⟨sys, ended, rfl⟩
    · next e ended =>
      cases step
      exact .inr ⟨e, ended, rfl⟩
  · cases step

end Xv6.Fs
