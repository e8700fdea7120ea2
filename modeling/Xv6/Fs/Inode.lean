import Xv6.Lib.Prog
import Xv6.Fs.Disk

/-!
# Blocks and inodes

The lower layers of `kernel/fs.c`: the block allocator, the inode table, and the content of
inodes. The functions are programs of atomic steps. What happens while a spin lock or the
lock of a buffer is held is one step; a sleep lock is taken in one step and given back in
another.

The state is the content of the buffers, the table of inodes in memory, and the part of
`kernel/log.c` that a system call sees: who is in a transaction, and which blocks are in
it. A pointer to an inode is its place in the table.
-/

namespace Xv6.Fs

open Log (BSIZE LOGBLOCKS MAXOPBLOCKS Block)

def NINODE : Nat := 50

inductive Panic
  | logTooBig
  | logOutside
  | logCommitting
  | freeingFreeBlock
  | igetNoInodes
  | ilock
  | ilockNoType
  | iunlock
  | bmapOutOfRange
  | dirlookupNotDir
  | dirlookupRead
  | dirlinkRead
  | isdirempty
  | unlinkNlink
  | unlinkWritei
  | filedup
  | fileclose
  | fileread
  | filewrite
  | initExiting
deriving DecidableEq

abbrev Ip := Fin NINODE

/-- `struct inode`: the copy of a disk inode, and its place in memory. -/
structure Inode extends Dinode where
  inum : Nat := 0
  ref : Nat := 0
  locked : Bool := false
  valid : Bool := false

/-- `struct log`; `block` lists the blocks of the transaction. -/
structure LogState where
  outstanding : Nat := 0
  committing : Bool := false
  block : List Nat := []

structure State where
  sb : Superblock
  disk : Disk
  log : LogState := {}
  itable : Ip → Inode

/-- What the rest of the system may have to know of a step: the begin and the end of a
transaction, the decision of `iput`, and the `log_write`s of `iupdate` and `itrunc`. -/
inductive Label
  | other
  | beginOp
  | endOp
  | iput (ip : Ip)
  | update
deriving DecidableEq

abbrev FsM := Prog Label State Panic

def look {α : Type} (g : State → α) : FsM α := .read .other g

def panic {α : Type} (e : Panic) : FsM α := .fail .other e

/-! ## Transactions -/

/-- `log_write` of block `b`, with absorption, when the disk has become `disk`. -/
def State.record (s : State) (b : Nat) (disk : Disk) : Except Panic State :=
  if LOGBLOCKS ≤ s.log.block.length then .error .logTooBig
  else if s.log.outstanding < 1 then .error .logOutside
  else .ok { s with
    disk := disk
    log := { s.log with
      block := if b ∈ s.log.block then s.log.block else s.log.block ++ [b] } }

/-- Change the buffer of a block and `log_write` it. -/
def store (label : Label) (b : State → Nat) (disk : State → Disk) : FsM Unit :=
  .atomic label fun s => some ((s.record (b s) (disk s)).map fun s => ((), s))

def beginOp : FsM Unit :=
  .atomic .beginOp fun s =>
    if s.log.committing ∨
        LOGBLOCKS < s.log.block.length + (s.log.outstanding + 1) * MAXOPBLOCKS then none
    else some (.ok ((), { s with
      log := { s.log with outstanding := s.log.outstanding + 1 } }))

/-- The end of `commit`, and of the transaction. -/
def commit : FsM Unit :=
  .modify .other fun s => { s with log := { s.log with committing := false, block := [] } }

def endOp : FsM Unit := do
  let doCommit ← .atomic .endOp fun s =>
    if s.log.committing then some (.error .logCommitting)
    else
      let outstanding := s.log.outstanding - 1
      some (.ok (decide (outstanding = 0), { s with
        log := { s.log with
          outstanding := outstanding
          committing := outstanding = 0 } }))
  if doCommit then commit else return

/-- A call that is a transaction, whose ways out all end with `end_op`. -/
def transaction {α : Type} (body : FsM α) : FsM α := do
  beginOp
  let result ← body
  endOp
  return result

/-! ## The block allocator -/

def bread (b : Nat) : FsM Block := look fun s => s.disk b

/-- Overwrite block `b`. -/
def bwriteLog (b : Nat) (data : Block) : FsM Unit :=
  store .other (fun _ => b) fun s => s.disk.set b data

def bzero (b : Nat) : FsM Unit := bwriteLog b fun _ => 0

/-- The first block that the bitmap has as free; the two loops of `balloc` visit the blocks
in order. -/
def State.freeBlock (s : State) : Option Nat :=
  (List.range s.sb.size).find? fun b => !s.disk.used s.sb b

/-- The loops of `balloc`, up to the `brelse` of the bitmap block. -/
def markFree : FsM (Option Nat) :=
  .atomic .other fun s =>
    match s.freeBlock with
    | none => some (.ok (none, s))
    | some b => some ((s.record (s.sb.bblock b) (s.disk.setUsed s.sb b true)).map fun s =>
      (some b, s))

/-- `balloc`; 0 if there is no free block. -/
def balloc : FsM Nat := do
  let found ← markFree
  match found with
  | none => return 0
  | some b => do
      bzero b
      return b

def bfree (b : Nat) : FsM Unit :=
  .atomic .update fun s =>
    if s.disk.used s.sb b then
      some ((s.record (s.sb.bblock b) (s.disk.setUsed s.sb b false)).map fun s => ((), s))
    else some (.error .freeingFreeBlock)

/-! ## The inode table -/

def inode (ip : Ip) : FsM Inode := look fun s => s.itable ip

def State.modifyInode (s : State) (ip : Ip) (f : Inode → Inode) : State :=
  { s with itable := Function.update s.itable ip (f (s.itable ip)) }

@[simp] theorem State.modifyInode_self (s : State) (ip : Ip) (f : Inode → Inode) :
    (s.modifyInode ip f).itable ip = f (s.itable ip) := Function.update_self ..

theorem State.modifyInode_other (s : State) (f : Inode → Inode) (other : e ≠ ip) :
    (s.modifyInode ip f).itable e = s.itable e := Function.update_of_ne other ..

theorem State.modifyInode_field {β : Type} (field : Inode → β)
    (keeps : ∀ v, field (f v) = field v) (s : State) (ip e : Ip) :
    field ((s.modifyInode ip f).itable e) = field (s.itable e) := by
  by_cases same : e = ip
  · subst same
    rw [State.modifyInode_self, keeps]
  · rw [State.modifyInode_other s f same]

def modifyInode (ip : Ip) (f : Inode → Inode) : FsM Unit :=
  .modify .other fun s => s.modifyInode ip f

def iupdate (ip : Ip) : FsM Unit :=
  store .update (fun s => s.sb.iblock (s.itable ip).inum) fun s =>
    s.disk.setDinode s.sb (s.itable ip).inum (s.itable ip).toDinode

def State.findInode (s : State) (i : Nat) : Option Ip :=
  (List.finRange NINODE).find? fun e => 0 < (s.itable e).ref ∧ (s.itable e).inum = i

def State.emptyInode (s : State) : Option Ip :=
  (List.finRange NINODE).find? fun e => (s.itable e).ref = 0

theorem findInode_some {s : State} (found : s.findInode i = some ip) :
    0 < (s.itable ip).ref ∧ (s.itable ip).inum = i := by
  simpa using List.find?_some found

theorem findInode_none {s : State} (found : s.findInode i = none) (inUse : 0 < (s.itable e).ref) :
    (s.itable e).inum ≠ i := by
  have all := List.find?_eq_none.mp found e (List.mem_finRange e)
  simpa [inUse] using all

theorem emptyInode_some {s : State} (found : s.emptyInode = some ip) : (s.itable ip).ref = 0 := by
  simpa using List.find?_some found

def iget (i : Nat) : FsM Ip :=
  .atomic .other fun s =>
    match s.findInode i, s.emptyInode with
    | some ip, _ => some (.ok (ip, s.modifyInode ip fun v => { v with ref := v.ref + 1 }))
    | none, none => some (.error .igetNoInodes)
    | none, some ip => some (.ok (ip, s.modifyInode ip fun v =>
      { v with inum := i, ref := 1, valid := false }))

/-- The first inode that is free on the disk. -/
def State.freeInum (s : State) : Option Nat :=
  (List.range s.sb.ninodes).find? fun i => 0 < i ∧ (s.disk.dinode s.sb i).type = 0

/-- The loop of `ialloc`, up to the `brelse` of the inode block. -/
def markInode (type : UInt16) : FsM (Option Nat) :=
  .atomic .other fun s =>
    match s.freeInum with
    | none => some (.ok (none, s))
    | some i => some ((s.record (s.sb.iblock i) (s.disk.setDinode s.sb i { type := type })).map
        fun s => (some i, s))

/-- `ialloc`; `none` if there is no free inode. -/
def ialloc (type : UInt16) : FsM (Option Ip) := do
  let found ← markInode type
  match found with
  | none => return none
  | some i => do
      let ip ← iget i
      return some ip

def idup (ip : Ip) : FsM Unit := modifyInode ip fun v => { v with ref := v.ref + 1 }

/-- `ilock`, up to its `acquiresleep`. -/
def acquireInode (ip : Ip) : FsM Unit :=
  .atomic .other fun s =>
    if (s.itable ip).ref < 1 then some (.error .ilock)
    else if (s.itable ip).locked then none
    else some (.ok ((), s.modifyInode ip fun v => { v with locked := true }))

/-- The rest of `ilock`: read the inode from the disk if that has not been done. -/
def loadInode (ip : Ip) : FsM Unit :=
  .atomic .other fun s =>
    let d := s.disk.dinode s.sb (s.itable ip).inum
    if (s.itable ip).valid then some (.ok ((), s))
    else if d.type = 0 then some (.error .ilockNoType)
    else some (.ok ((), s.modifyInode ip fun v => { v with toDinode := d, valid := true }))

def ilock (ip : Ip) : FsM Unit := do
  acquireInode ip
  loadInode ip

def iunlock (ip : Ip) : FsM Unit :=
  .atomic .other fun s =>
    if (s.itable ip).locked ∧ 0 < (s.itable ip).ref then
      some (.ok ((), s.modifyInode ip fun v => { v with locked := false }))
    else some (.error .iunlock)

/-! ## The content of inodes -/

/-- The slots of `addrs`; the last one is for the indirect block. -/
abbrev AddrSlot := Fin (NDIRECT + 1)

def indirectSlot : AddrSlot := Fin.last NDIRECT

def setAddr (ip : Ip) (k : AddrSlot) (b : UInt32) : FsM Unit :=
  modifyInode ip fun v => { v with addrs := Function.update v.addrs k b }

/-- The number in a slot of `addrs`, with a new block if there is none; 0 if there is none
to be had. -/
def bmapSlot (ip : Ip) (k : AddrSlot) : FsM Nat := do
  let v ← inode ip
  if v.addrs k = 0 then do
    let addr ← balloc
    if addr = 0 then return 0
    else do
      setAddr ip k (UInt32.ofNat addr)
      return addr
  else return (v.addrs k).toNat

/-- Entry `j` of the indirect block `b`, with a new block if there is none. -/
def bmapEntry (b j : Nat) : FsM Nat := do
  let a ← bread b
  if a.word j = 0 then do
    let addr ← balloc
    if addr = 0 then return 0
    else do
      store .other (fun _ => b) fun s => s.disk.set b ((s.disk b).setWord j addr)
      return addr
  else return a.word j

/-- `bmap`; 0 if the disk is full. -/
def bmap (ip : Ip) (bn : Nat) : FsM Nat :=
  if h : bn < NDIRECT then bmapSlot ip ⟨bn, Nat.lt_succ_of_lt h⟩
  else if bn - NDIRECT < NINDIRECT then do
    let b ← bmapSlot ip indirectSlot
    if b = 0 then return 0 else bmapEntry b (bn - NDIRECT)
  else panic .bmapOutOfRange

/-- The first loop of `itrunc`, for the slots `ks`. -/
def freeSlots (ip : Ip) : List AddrSlot → FsM Unit
  | [] => return
  | k :: ks => do
      let v ← inode ip
      if v.addrs k = 0 then freeSlots ip ks
      else do
        bfree (v.addrs k).toNat
        setAddr ip k 0
        freeSlots ip ks

/-- The second loop of `itrunc`, for the entries `js` of the indirect block. -/
def freeEntries (a : Block) : List Nat → FsM Unit
  | [] => return
  | j :: js =>
    if a.word j = 0 then freeEntries a js
    else do
      bfree (a.word j)
      freeEntries a js

/-- Free the indirect block and what it lists. -/
def freeIndirect (ip : Ip) : FsM Unit := do
  let v ← inode ip
  if v.addrs indirectSlot = 0 then return
  else do
    let a ← bread (v.addrs indirectSlot).toNat
    freeEntries a (List.range NINDIRECT)
    bfree (v.addrs indirectSlot).toNat
    setAddr ip indirectSlot 0

def setSize (ip : Ip) (size : UInt32) : FsM Unit := modifyInode ip fun v => { v with size := size }

def itrunc (ip : Ip) : FsM Unit := do
  freeSlots ip ((List.finRange NDIRECT).map Fin.castSucc)
  freeIndirect ip
  setSize ip 0
  iupdate ip

/-- The condition under which `iput` frees the inode. -/
def Inode.Last (v : Inode) : Prop := v.ref = 1 ∧ v.valid ∧ v.nlink = 0
  deriving Decidable

/-- The first critical section of `iput`: drop the reference, or lock the inode that is to
be freed. -/
def startPut (ip : Ip) : FsM Bool :=
  .atomic (.iput ip) fun s =>
    if (s.itable ip).Last then
      if (s.itable ip).locked then none
      else some (.ok (true, s.modifyInode ip fun v => { v with locked := true }))
    else some (.ok (false, s.modifyInode ip fun v => { v with ref := v.ref - 1 }))

/-- Free the locked inode, whose content has been freed, and drop the reference. -/
def freeInode (ip : Ip) : FsM Unit := do
  modifyInode ip fun v => { v with type := 0 }
  iupdate ip
  modifyInode ip fun v => { v with valid := false, locked := false }
  modifyInode ip fun v => { v with ref := v.ref - 1 }

def iput (ip : Ip) : FsM Unit := do
  let last ← startPut ip
  if last then do
    itrunc ip
    freeInode ip
  else return

def iunlockput (ip : Ip) : FsM Unit := do
  iunlock ip
  iput ip

/-- `ireclaim`, for the inodes `is`. -/
def reclaimInodes : List Nat → FsM Unit
  | [] => return
  | i :: is => do
      let d ← look fun s => s.disk.dinode s.sb i
      if d.type ≠ 0 ∧ d.nlink = 0 then do
        let ip ← iget i
        transaction do
          ilock ip
          iunlock ip
          iput ip
        reclaimInodes is
      else reclaimInodes is

def ireclaim : FsM Unit := do
  let ninodes ← look fun s => s.sb.ninodes
  reclaimInodes ((List.range ninodes).filter (0 < ·))

/-- The loop of `readi`, with the bytes read so far; `none` if the destination cannot be
written. `fuel` bounds the number of rounds, each of which reads a byte at least. -/
def readLoop (ip : Ip) (dst : Nat → Bool) (n : Nat) : Nat → Nat → List UInt8 →
    FsM (Option (List UInt8))
  | 0, _, acc => return some acc
  | fuel + 1, off, acc =>
    if acc.length < n then do
      let addr ← bmap ip (off / BSIZE)
      if addr = 0 then return some acc
      else do
        let block ← bread addr
        let m := min (n - acc.length) (BSIZE - off % BSIZE)
        if (List.range m).all fun j => dst (acc.length + j) then
          readLoop ip dst n fuel (off + m) (acc ++ block.slice (off % BSIZE) m)
        else return none
    else return some acc

/-- `readi` of `n` bytes at `off`, both `uint`s; byte `j` of the destination can be written if
`dst j`. The result is `none` for -1. -/
def readi (ip : Ip) (dst : Nat → Bool) (off n : Nat) : FsM (Option (List UInt8)) := do
  let v ← inode ip
  if off > v.size.toNat ∨ off + n ≥ 2 ^ 32 then return some []
  else
    let n := min n (v.size.toNat - off)
    readLoop ip dst n n off []

/-- How many of the `m` bytes of the source from `tot` on can be read in a row. -/
def readable (src : Nat → Option UInt8) (tot m : Nat) : Nat :=
  ((List.range m).takeWhile fun j => (src (tot + j)).isSome).length

/-- Copy `m` bytes of the source from `tot` on to place `off` of block `addr`. A copy that
fails has changed the buffer up to the byte where it failed. -/
def copyIn (addr off m : Nat) (src : Nat → Option UInt8) (tot : Nat) : FsM Bool :=
  .atomic .other fun s =>
    let copied := readable src tot m
    let disk := s.disk.set addr ((s.disk addr).fill off copied fun j => (src (tot + j)).getD 0)
    if copied < m then some (.ok (false, { s with disk := disk }))
    else some ((s.record addr disk).map fun s => (true, s))

/-- The loop of `writei`; the result is the final `off` and `tot`. -/
def writeLoop (ip : Ip) (src : Nat → Option UInt8) (n : Nat) : Nat → Nat → Nat → FsM (Nat × Nat)
  | 0, off, tot => return (off, tot)
  | fuel + 1, off, tot =>
    if tot < n then do
      let addr ← bmap ip (off / BSIZE)
      if addr = 0 then return (off, tot)
      else do
        let m := min (n - tot) (BSIZE - off % BSIZE)
        let copied ← copyIn addr (off % BSIZE) m src tot
        if copied then writeLoop ip src n fuel (off + m) (tot + m) else return (off, tot)
    else return (off, tot)

/-- The size after a write that ended at `off`. -/
def growTo (ip : Ip) (off : Nat) : FsM Unit := do
  let v ← inode ip
  if off > v.size.toNat then setSize ip (UInt32.ofNat off) else return

/-- `writei` of `n` bytes at `off`, both `uint`s; `src j` is byte `j` of the source, `none` if it
cannot be read. The result is `none` for -1. -/
def writei (ip : Ip) (src : Nat → Option UInt8) (off n : Nat) : FsM (Option Nat) := do
  let v ← inode ip
  if off > v.size.toNat ∨ off + n ≥ 2 ^ 32 then return none
  else if off + n > MAXFILE * BSIZE then return none
  else do
    let (off, tot) ← writeLoop ip src n n off 0
    growTo ip off
    iupdate ip
    return some tot

end Xv6.Fs
