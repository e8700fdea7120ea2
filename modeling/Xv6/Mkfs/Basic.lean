import Xv6.Fs.Content
import Xv6.Fs.Names

/-!
# The image builder

`mkfs/mkfs.c` makes the image of a file system out of files of the host: the root directory,
and in it one file for each argument. It hands out inodes and blocks in order and writes the
bitmap at the end.

A failed `assert` and a call of `die` end the program. The image has been filled with `FSSIZE`
blocks before anything is read from it, so that `rsect` fails for the sectors after them; no
sector is written before it has been read.
-/

namespace Xv6.Mkfs

open Log (BSIZE Block LOGBLOCKS)
open Fs (Disk Dinode Superblock AddrSlot indirectSlot ROOTINO NDIRECT NINDIRECT MAXFILE DIRSIZ IPB
  BPB T_DIR T_FILE mkDirent slash dot dotdot)

def FSSIZE : Nat := 2000
def NINODES : Nat := 200
def FSMAGIC : Nat := 0x10203040

def nbitmap : Nat := FSSIZE / BPB + 1
def ninodeblocks : Nat := NINODES / IPB + 1
def nlog : Nat := LOGBLOCKS + 1
def nmeta : Nat := 2 + nlog + ninodeblocks + nbitmap

/-- `sb`, as far as the kernel's functions use it. -/
def sb : Superblock where
  size := FSSIZE
  ninodes := NINODES
  inodestart := 2 + nlog
  bmapstart := 2 + nlog + ninodeblocks

/-- Block 1, with all of `struct superblock`. -/
def superblock : Block :=
  Bytes.setWords (fun _ => 0) 0
    [FSMAGIC, FSSIZE, FSSIZE - nmeta, NINODES, nlog, 2, sb.inodestart, sb.bmapstart]

inductive Failure
  | maxfile
  | slash
  | name
  | rootino
  | used
  | read
deriving DecidableEq

structure State where
  disk : Disk
  freeinode : Nat
  freeblock : Nat

/-- An input file: its name on the command line, and what the calls of `read` return until the
end of the file. -/
structure Input where
  path : List UInt8
  isString : 0 ∉ path
  chunks : List (List UInt8)
  fit : ∀ chunk ∈ chunks, 0 < chunk.length ∧ chunk.length ≤ BSIZE

def Input.content (f : Input) : List UInt8 := f.chunks.flatten

def rsect (sec : Nat) (s : State) : Except Failure Block :=
  if sec < FSSIZE then .ok (s.disk sec) else .error .read

def wsect (sec : Nat) (buf : Block) (s : State) : State := { s with disk := s.disk.set sec buf }

def winode (inum : Nat) (v : Dinode) (s : State) : Except Failure State := do
  let _ ← rsect (sb.iblock inum) s
  return { s with disk := s.disk.setDinode sb inum v }

def rinode (inum : Nat) (s : State) : Except Failure Dinode := do
  let _ ← rsect (sb.iblock inum) s
  return s.disk.dinode sb inum

def ialloc (type : UInt16) (s : State) : Except Failure (Nat × State) := do
  let inum := s.freeinode
  let s ← winode inum { type := type, nlink := 1 } { s with freeinode := s.freeinode + 1 }
  return (inum, s)

/-- The block of the bitmap that has the first `used` blocks as used. -/
def bitmap (used : Nat) : Block :=
  (List.range used).foldl (fun buf i => buf.setBit i true) fun _ => 0

def balloc (used : Nat) (s : State) : Except Failure State :=
  if used < BPB then .ok (wsect sb.bmapstart (bitmap used) s) else .error .used

/-- Put the next block in slot `k` of `addrs` if there is none. -/
def fillSlot (k : AddrSlot) (v : Dinode) (s : State) : Dinode × State :=
  if v.addrs k = 0 then
    ({ v with addrs := Function.update v.addrs k (UInt32.ofNat s.freeblock) },
      { s with freeblock := s.freeblock + 1 })
  else (v, s)

/-- Put the next block in entry `j` of the indirect block if there is none; the result is the
number in the entry. -/
def fillEntry (b j : Nat) (s : State) : Except Failure (Nat × State) := do
  let indirect ← rsect b s
  if indirect.word j = 0 then
    let indirect := indirect.setWord j s.freeblock
    return (indirect.word j, wsect b indirect { s with freeblock := s.freeblock + 1 })
  else return (indirect.word j, s)

/-- The block `fbn` of the inode, with a new one if there is none. -/
def findBlock (fbn : Nat) (v : Dinode) (s : State) : Except Failure (Nat × Dinode × State) :=
  if h : fbn < NDIRECT then
    let (v, s) := fillSlot ⟨fbn, Nat.lt_succ_of_lt h⟩ v s
    .ok ((v.addrs ⟨fbn, Nat.lt_succ_of_lt h⟩).toNat, v, s)
  else do
    let (v, s) := fillSlot indirectSlot v s
    let (x, s) ← fillEntry (v.addrs indirectSlot).toNat (fbn - NDIRECT) s
    return (x, v, s)

/-- The loop of `iappend` over the bytes `p`, at offset `off`. Each round takes a byte at least,
so that the length of `p` bounds the number of rounds. -/
def appendLoop : Nat → List UInt8 → Nat → Dinode → State → Except Failure (Dinode × Nat × State)
  | 0, _, off, v, s => .ok (v, off, s)
  | fuel + 1, p, off, v, s =>
    if p = [] then .ok (v, off, s)
    else
      let fbn := off / BSIZE
      if fbn < MAXFILE then do
        let (x, v, s) ← findBlock fbn v s
        let n1 := min p.length ((fbn + 1) * BSIZE - off)
        let buf ← rsect x s
        let s := wsect x (buf.fill (off - fbn * BSIZE) n1 fun j => p.getD j 0) s
        appendLoop fuel (p.drop n1) (off + n1) v s
      else .error .maxfile

def iappend (inum : Nat) (p : List UInt8) (s : State) : Except Failure State := do
  let v ← rinode inum s
  let (v, off, s) ← appendLoop p.length p v.size.toNat v s
  winode inum { v with size := UInt32.ofNat off } s

def shortname (path : List UInt8) : List UInt8 :=
  if path.take 5 = [0x75, 0x73, 0x65, 0x72, slash] then path.drop 5 else path

def skipUnderscore (name : List UInt8) : List UInt8 :=
  if name.head? = some 0x5F then name.drop 1 else name

def appendChunks (inum : Nat) : List (List UInt8) → State → Except Failure State
  | [], s => .ok s
  | chunk :: chunks, s => do
      let s ← iappend inum chunk s
      appendChunks inum chunks s

/-- A round of `main`'s loop over its arguments. -/
def addFile (f : Input) (s : State) : Except Failure State :=
  if slash ∈ shortname f.path then .error .slash
  else
    let name := skipUnderscore (shortname f.path)
    if name.length ≤ DIRSIZ then do
      let (inum, s) ← ialloc T_FILE s
      let s ← iappend ROOTINO (mkDirent inum name) s
      appendChunks inum f.chunks s
    else .error .name

def addFiles : List Input → State → Except Failure State
  | [], s => .ok s
  | f :: files, s => do
      let s ← addFile f s
      addFiles files s

def fixRoot (rootino : Nat) (s : State) : Except Failure State := do
  let v ← rinode rootino s
  winode rootino { v with size := UInt32.ofNat ((v.size.toNat / BSIZE + 1) * BSIZE) } s

/-- The image before the first `ialloc`. -/
def zeroed : State where
  disk := Disk.set (fun _ _ => 0) 1 superblock
  freeinode := 1
  freeblock := nmeta

def main (files : List Input) : Except Failure State := do
  let (rootino, s) ← ialloc T_DIR zeroed
  if rootino = ROOTINO then do
    let s ← iappend rootino (mkDirent rootino dot) s
    let s ← iappend rootino (mkDirent rootino dotdot) s
    let s ← addFiles files s
    let s ← fixRoot rootino s
    balloc s.freeblock s
  else .error .rootino

end Xv6.Mkfs
