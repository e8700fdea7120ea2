import Xv6.Fs.Dir

/-!
# Operations on names

`create`, `sys_link`, `sys_unlink` and `sys_getcwd` of `kernel/sysfile.c`, the two callers of
`create` that leave no file open, and what `kexec` of `kernel/exec.c` does to the inode of
its program. A result of `none` is -1.
-/

namespace Xv6.Fs

open Log (BSIZE Block)

def MAXPATH : Nat := 128

def dot : List UInt8 := [0x2E]
def dotdot : List UInt8 := [0x2E, 0x2E]

/-- `argstr` of a path: the C string, if it fits. A pointer that cannot be read has the same
effect as a string that does not fit. -/
def argstr (path : List UInt8) : Option (List UInt8) :=
  let path := path.takeWhile (· ≠ 0)
  if path.length < MAXPATH then some path else none

def setNlink (ip : Ip) (f : UInt16 → UInt16) : FsM Unit := do
  modifyInode ip fun v => { v with nlink := f v.nlink }
  iupdate ip

/-! ## create -/

/-- The entry that `create` finds under the name, locked, if it is one that `open` may have. -/
def createFound (dp ip : Ip) (type : UInt16) : FsM (Option Ip) := do
  iunlockput dp
  ilock ip
  let v ← inode ip
  if type = T_FILE ∧ (v.type = T_FILE ∨ v.type = T_DEVICE) then return some ip
  else do
    iunlockput ip
    return none

/-- The entries `.` and `..` of a new directory. -/
def linkDots (ip dp : Ip) (type : UInt16) : FsM Bool :=
  if type = T_DIR then do
    let v ← inode ip
    let first ← dirlink ip dot v.inum
    if first then do
      let v ← inode dp
      dirlink ip dotdot v.inum
    else return false
  else return true

/-- All the entries for a new inode. -/
def linkNew (ip dp : Ip) (name : List UInt8) (type : UInt16) : FsM Bool := do
  let dots ← linkDots ip dp type
  if dots then do
    let v ← inode ip
    dirlink dp name v.inum
  else return false

/-- The label `fail` of `create`. -/
def createFail (ip dp : Ip) : FsM (Option Ip) := do
  setNlink ip fun _ => 0
  iunlockput ip
  iunlockput dp
  return none

/-- A directory that comes or goes counts as a link to its parent. -/
def countParent (dp : Ip) (type : UInt16) (f : UInt16 → UInt16) : FsM Unit :=
  if type = T_DIR then setNlink dp f else return

/-- `create`, with a new inode. -/
def createNew (ip dp : Ip) (name : List UInt8) (type major minor : UInt16) : FsM (Option Ip) := do
  ilock ip
  modifyInode ip fun v => { v with major := major, minor := minor }
  setNlink ip fun _ => 1
  let linked ← linkNew ip dp name type
  if linked then do
    countParent dp type (· + 1)
    iunlockput dp
    return some ip
  else createFail ip dp

/-- `create`; the inode is returned locked. -/
def create (cwd : Ip) (path : List UInt8) (type major minor : UInt16) : FsM (Option Ip) := do
  let parent ← nameiparent cwd path
  match parent with
  | none => return none
  | some (dp, name) => do
      ilock dp
      let found ← dirlookup dp name
      match found with
      | some (ip, _) => createFound dp ip type
      | none => do
          let new ← ialloc type
          match new with
          | none => do
              iunlockput dp
              return none
          | some ip => createNew ip dp name type major minor

/-- `sys_mkdir` and `sys_mknod`, which differ in the type. -/
def makeNode (cwd : Ip) (path : List UInt8) (type major minor : UInt16) : FsM (Option Nat) :=
  transaction <| match argstr path with
    | none => return none
    | some path => do
        let made ← create cwd path type major minor
        match made with
        | none => return none
        | some ip => do
            iunlockput ip
            return some 0

def sysMkdir (cwd : Ip) (path : List UInt8) : FsM (Option Nat) := makeNode cwd path T_DIR 0 0

def sysMknod (cwd : Ip) (path : List UInt8) (major minor : UInt16) : FsM (Option Nat) :=
  makeNode cwd path T_DEVICE major minor

/-! ## link -/

/-- The label `bad` of `sys_link`. -/
def linkBad (ip : Ip) : FsM (Option Nat) := do
  ilock ip
  setNlink ip (· - 1)
  iunlockput ip
  return none

/-- Enter `ip`, which has been counted already, under the name `new`. -/
def linkEntry (cwd ip : Ip) (new : List UInt8) : FsM (Option Nat) := do
  let parent ← nameiparent cwd new
  match parent with
  | none => linkBad ip
  | some (dp, name) => do
      ilock dp
      let v ← inode ip
      let linked ← dirlink dp name v.inum
      iunlockput dp
      if linked then do
        iput ip
        return some 0
      else linkBad ip

/-- `sys_link`, between its `begin_op` and its `end_op`. -/
def link (cwd : Ip) (old new : List UInt8) : FsM (Option Nat) := do
  let found ← namei cwd old
  match found with
  | none => return none
  | some ip => do
      ilock ip
      let v ← inode ip
      if v.type = T_DIR then do
        iunlockput ip
        return none
      else do
        setNlink ip (· + 1)
        iunlock ip
        linkEntry cwd ip new

def sysLink (cwd : Ip) (old new : List UInt8) : FsM (Option Nat) :=
  match argstr old, argstr new with
  | some old, some new => transaction (link cwd old new)
  | _, _ => return none

/-! ## unlink -/

/-- The loop of `isdirempty`. -/
def scanUsed (dp : Ip) : Nat → Nat → FsM Bool
  | 0, _ => return true
  | count + 1, off => do
      let de ← readDirent .isdirempty dp off
      if direntInum de ≠ 0 then return false else scanUsed dp count (off + sizeofDirent)

/-- `isdirempty`: the entries after `.` and `..` are not used. -/
def isdirempty (dp : Ip) : FsM Bool := do
  let v ← inode dp
  scanUsed dp (direntCount v.size.toNat - 2) (2 * sizeofDirent)

/-- Whether `unlink` may remove this inode: it is no directory, or an empty one. -/
def removable (ip : Ip) : FsM Bool := do
  let v ← inode ip
  if v.type = T_DIR then isdirempty ip else return true

/-- The rest of `sys_unlink`, for the entry at `off` of `dp`, which names `ip`. -/
def unlinkEntry (dp ip : Ip) (off : Nat) : FsM (Option Nat) := do
  let cleared ← writeDirent dp off (List.replicate sizeofDirent 0)
  if cleared then do
    let v ← inode ip
    countParent dp v.type (· - 1)
    iunlockput dp
    setNlink ip (· - 1)
    iunlockput ip
    return some 0
  else panic .unlinkWritei

/-- The part of `sys_unlink` for the inode `ip`, which the entry at `off` of `dp` names. -/
def unlinkFound (dp ip : Ip) (off : Nat) : FsM (Option Nat) := do
  ilock ip
  let v ← inode ip
  -- `nlink` is a `short`
  if v.nlink = 0 ∨ 2 ^ 15 ≤ v.nlink.toNat then panic .unlinkNlink
  else do
    let ok ← removable ip
    if ok then unlinkEntry dp ip off
    else do
      iunlockput ip
      iunlockput dp
      return none

/-- `sys_unlink`, between its `begin_op` and its `end_op`. -/
def unlink (cwd : Ip) (path : List UInt8) : FsM (Option Nat) := do
  let parent ← nameiparent cwd path
  match parent with
  | none => return none
  | some (dp, name) => do
      ilock dp
      if sameName name dot ∨ sameName name dotdot then do
        iunlockput dp
        return none
      else do
        let found ← dirlookup dp name
        match found with
        | none => do
            iunlockput dp
            return none
        | some (ip, off) => unlinkFound dp ip off

def sysUnlink (cwd : Ip) (path : List UInt8) : FsM (Option Nat) :=
  match argstr path with
  | none => return none
  | some path => transaction (unlink cwd path)

/-! ## getcwd -/

/-- What the search for a child in its parent comes to. -/
inductive Search
  | short
  | absent
  | found (name : List UInt8)

/-- The inner loop of `sys_getcwd`: the name of inode `inum` in `parent`. -/
def scanInum (parent : Ip) (inum : Nat) : Nat → Nat → FsM Search
  | 0, _ => return .absent
  | count + 1, off => do
      let de ← readi parent (fun _ => true) off sizeofDirent
      if (de.getD []).length = sizeofDirent then
        if direntInum (de.getD []) = inum then return .found (direntName (de.getD []))
        else scanInum parent inum count (off + sizeofDirent)
      else return .short

/-- The end of a round of `sys_getcwd` that gives up. -/
def getcwdFail (ip parent : Ip) : FsM (Option (List UInt8)) := do
  iput parent
  iput ip
  return none

/-- The outer loop of `sys_getcwd`; `path` is what the buffer holds before its NUL. A round
takes a byte of the buffer at least, so that its size bounds the number of rounds. -/
def getcwdLoop : Nat → Ip → List UInt8 → FsM (Option (List UInt8))
  | 0, ip, _ => do
      iput ip
      return none
  | fuel + 1, ip, path => do
      ilock ip
      let v ← inode ip
      iunlock ip
      if v.inum = ROOTINO then do
        iput ip
        return some path
      else do
        ilock ip
        let found ← dirlookup ip dotdot
        iunlock ip
        match found with
        | none => do
            iput ip
            return none
        | some (parent, _) => do
            ilock parent
            let d ← inode parent
            let entry ← scanInum parent v.inum (direntCount d.size.toNat) 0
            iunlock parent
            match entry with
            | .short => getcwdFail ip parent
            | .absent => getcwdFail ip parent
            | .found name =>
              if MAXPATH - 1 - path.length < (cname name).length + 1 then getcwdFail ip parent
              else do
                iput ip
                getcwdLoop fuel parent (slash :: cname name ++ path)

def getcwdPath (cwd : Ip) : FsM (Option (List UInt8)) := do
  idup cwd
  let path ← getcwdLoop MAXPATH cwd []
  return path.map fun path => if path = [] then [slash] else path

/-- `sys_getcwd`, with the path that it copies out; `out` says whether `copyout` can. It
takes and drops references without a transaction. -/
def sysGetcwd (cwd : Ip) (usize : Int) (out : Bool) : FsM (Option (List UInt8)) :=
  if usize ≤ 0 then return none
  else do
    let path ← getcwdPath cwd
    return path.filter fun path => path.length + 1 ≤ min usize MAXPATH ∧ out

/-! ## exec -/

/-- The reads of `kexec`, given by their offsets and lengths. -/
def readParts (ip : Ip) : List (Nat × Nat) → FsM Unit
  | [] => return
  | (off, n) :: parts => do
      let _ ← readi ip (fun _ => true) off n
      readParts ip parts

/-- What `kexec` does to the file system. Which parts of the file it reads before it has the
program or gives up depends on the memory too, and is given by `parts`. -/
def kexec (cwd : Ip) (path : List UInt8) (parts : List (Nat × Nat)) : FsM Bool :=
  transaction do
    let found ← namei cwd path
    match found with
    | none => return false
    | some ip => do
        ilock ip
        readParts ip parts
        iunlockput ip
        return true

end Xv6.Fs
