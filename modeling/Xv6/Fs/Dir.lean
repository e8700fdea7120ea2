import Xv6.Fs.Inode

/-!
# Directories and paths

The upper layers of `kernel/fs.c`. A path is the bytes of a C string before its NUL, and
so is a name, of which only the first `DIRSIZ` bytes count.
-/

namespace Xv6.Fs

open Log (BSIZE Block)

def sizeofDirent : Nat := 16

/-- The number of `sizeofDirent` steps from 0 to `size`. -/
def direntCount (size : Nat) : Nat := (size + (sizeofDirent - 1)) / sizeofDirent

def direntInum (de : List UInt8) : Nat := (de.getD 0 0).toNat + 2 ^ 8 * (de.getD 1 0).toNat

def direntName (de : List UInt8) : List UInt8 := de.drop 2

/-- The C string in a field of `DIRSIZ` bytes. -/
def cname (name : List UInt8) : List UInt8 := (name.take DIRSIZ).takeWhile (· ≠ 0)

/-- `namecmp(s, t) == 0`. -/
def sameName (s t : List UInt8) : Bool := cname s == cname t

/-- A `struct dirent`; `strncpy` fills the name up with NULs, and the number is a `ushort`. -/
def mkDirent (inum : Nat) (name : List UInt8) : List UInt8 :=
  [UInt8.ofNat inum, UInt8.ofNat (inum / 2 ^ 8)] ++
    (cname name ++ List.replicate (DIRSIZ - (cname name).length) 0)

/-- `readi` of a `struct dirent` into kernel memory, which panics with `e` if it is cut short. -/
def readDirent (e : Panic) (dp : Ip) (off : Nat) : FsM (List UInt8) := do
  let de ← readi dp (fun _ => true) off sizeofDirent
  if (de.getD []).length = sizeofDirent then return de.getD [] else panic e

/-- `writei` of a `struct dirent` from kernel memory; whether all of it was written. -/
def writeDirent (dp : Ip) (off : Nat) (de : List UInt8) : FsM Bool := do
  let tot ← writei dp (fun j => de[j]?) off sizeofDirent
  return tot = some sizeofDirent

/-- The loop of `dirlookup`, with `count` entries left. -/
def scanName (dp : Ip) (name : List UInt8) : Nat → Nat → FsM (Option (Nat × Nat))
  | 0, _ => return none
  | count + 1, off => do
      let de ← readDirent .dirlookupRead dp off
      if direntInum de ≠ 0 ∧ sameName name (direntName de) then return some (direntInum de, off)
      else scanName dp name count (off + sizeofDirent)

/-- `dirlookup`: the inode and the offset of its entry. -/
def dirlookup (dp : Ip) (name : List UInt8) : FsM (Option (Ip × Nat)) := do
  let v ← inode dp
  if v.type ≠ T_DIR then panic .dirlookupNotDir
  else do
    let found ← scanName dp name (direntCount v.size.toNat) 0
    match found with
    | none => return none
    | some (inum, off) => do
        let ip ← iget inum
        return some (ip, off)

/-- The loop of `dirlink`: the offset of the first entry that is not used, or the end. -/
def scanEmpty (dp : Ip) : Nat → Nat → FsM Nat
  | 0, off => return off
  | count + 1, off => do
      let de ← readDirent .dirlinkRead dp off
      if direntInum de = 0 then return off else scanEmpty dp count (off + sizeofDirent)

/-- `dirlink`; `false` for -1. -/
def dirlink (dp : Ip) (name : List UInt8) (inum : Nat) : FsM Bool := do
  let present ← dirlookup dp name
  match present with
  | some (ip, _) => do
      iput ip
      return false
  | none => do
      let v ← inode dp
      let off ← scanEmpty dp (direntCount v.size.toNat) 0
      writeDirent dp off (mkDirent inum name)

/-! ## Paths -/

def slash : UInt8 := 0x2F

/-- `skipelem`: the next element and what follows it, `none` if there is none. -/
def skipelem (path : List UInt8) : Option (List UInt8 × List UInt8) :=
  match path.dropWhile (· = slash) with
  | [] => none
  | s => some ((s.takeWhile (· ≠ slash)).take DIRSIZ,
      (s.dropWhile (· ≠ slash)).dropWhile (· = slash))

/-- The loop of `namex`, with the inode reached so far and the last element read. Each round
takes an element off the path, so that its length bounds the number of rounds. -/
def namexLoop (parent : Bool) : Nat → Ip → List UInt8 → List UInt8 → FsM (Option (Ip × List UInt8))
  | 0, ip, _, name => return some (ip, name)
  | fuel + 1, ip, path, name =>
    match skipelem path with
    | none =>
      if parent then do
        iput ip
        return none
      else return some (ip, name)
    | some (name, rest) => do
        ilock ip
        let v ← inode ip
        if v.type ≠ T_DIR then do
          iunlockput ip
          return none
        else if parent ∧ rest = [] then do
          iunlock ip
          return some (ip, name)
        else do
          let next ← dirlookup ip name
          match next with
          | none => do
              iunlockput ip
              return none
          | some (next, _) => do
              iunlockput ip
              namexLoop parent fuel next rest name

/-- The inode where a path begins: the root or the current directory. -/
def pathStart (cwd : Ip) (path : List UInt8) : FsM Ip :=
  if path.head? = some slash then iget ROOTINO
  else do
    idup cwd
    return cwd

def namex (parent : Bool) (cwd : Ip) (path : List UInt8) : FsM (Option (Ip × List UInt8)) := do
  let ip ← pathStart cwd path
  namexLoop parent (path.length + 1) ip path []

def namei (cwd : Ip) (path : List UInt8) : FsM (Option Ip) := do
  let found ← namex false cwd path
  return found.map (·.1)

/-- `nameiparent`: the directory, and the last element of the path. -/
def nameiparent (cwd : Ip) (path : List UInt8) : FsM (Option (Ip × List UInt8)) :=
  namex true cwd path

end Xv6.Fs
