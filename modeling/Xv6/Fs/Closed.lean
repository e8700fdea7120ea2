import Xv6.Fs.System

/-!
# What the steps of a program can be

Most facts about single steps, such as that they leave reference counts alone, are facts
about a few kinds of steps and then hold of every program made of them. `Steps J` says that
the judgement `J` holds of the steps that read and write an inode, and of sequences. `Writes`
adds those that log a change of an inode or of the free blocks, `Closed` those that lock
inodes and make them, `Updates` both, and `Counts` those that change a reference count. Each
function is then treated once, for every judgement.
-/

namespace Xv6.Fs

open Log (Block)

/-- The judgement holds of reading and writing. -/
structure Steps (J : (α : Type) → FsM α → Prop) : Prop where
  pure {α : Type} (a : α) : J α (Pure.pure a)
  bind {α β : Type} {p : FsM α} {next : α → FsM β} :
    J α p → (∀ a, J β (next a)) → J β (p >>= next)
  look {α : Type} (g : State → α) : J α (look g)
  panic {α : Type} (e : Panic) : J α (panic e)
  assign (ip : Ip) {f : Inode → Inode} :
    (∀ v, f v = { v with toDinode := (f v).toDinode }) → J Unit (modifyInode ip f)
  store (b : State → Nat) (disk : State → Disk) : J Unit (store .other b disk)
  markFree : J _ markFree
  copyIn (addr off m : Nat) (src : Nat → Option UInt8) (tot : Nat) : J _ (copyIn addr off m src tot)

/-- It also holds of the `log_write`s of `iupdate` and `itrunc`. -/
structure Writes (J : (α : Type) → FsM α → Prop) : Prop extends Steps J where
  bfree (b : Nat) : J _ (bfree b)
  iupdate (ip : Ip) : J _ (iupdate ip)

/-- It also holds of locking inodes and making them. -/
structure Closed (J : (α : Type) → FsM α → Prop) : Prop extends Steps J where
  markInode (type : UInt16) : J _ (markInode type)
  acquire (ip : Ip) : J _ (acquireInode ip)
  load (ip : Ip) : J _ (loadInode ip)
  iunlock (ip : Ip) : J _ (iunlock ip)
  release (ip : Ip) : J Unit (modifyInode ip fun v => { v with valid := false, locked := false })

/-- It holds of all these. -/
structure Updates (J : (α : Type) → FsM α → Prop) : Prop extends Closed J, Writes J

/-- It also holds of taking and dropping a reference. -/
structure Counts (J : (α : Type) → FsM α → Prop) : Prop extends Closed J where
  iget (i : Nat) : J _ (iget i)
  idup (ip : Ip) : J _ (idup ip)
  iput (ip : Ip) : J _ (iput ip)

theorem Closed.ilock (h : Closed J) (ip : Ip) : J _ (ilock ip) :=
  h.bind (h.acquire ip) fun _ => h.load ip

/-- The rule for locking an inode to look at it. -/
theorem Closed.locked (h : Closed J) (ip : Ip) (rest : ∀ v, J α (next v)) :
    J α (Fs.ilock ip >>= fun _ => Fs.inode ip >>= next) :=
  h.bind (h.ilock ip) fun _ => h.bind (h.look _) rest

/-- The rule for a last step whose result the rest only wraps. -/
theorem Steps.last (h : Steps J) {f : α → β} (step : J α p) :
    J β (p >>= fun a => Pure.pure (f a)) :=
  h.bind step fun _ => h.pure _

/-- What a step gives: a panic, a write to the disk, an assignment to an inode as `M` has it, or a
`log_write`. -/
inductive Gives {α : Type} (M : (Inode → Inode) → Prop) (label : Label) (s : State) :
    Except Panic (α × State) → Prop
  | panic {e : Panic} (other : label = .update → e ≠ .logOutside) : Gives M label s (.error e)
  | write (a : α) (disk : Disk) : Gives M label s (.ok (a, { s with disk := disk }))
  | assign (a : α) (ip : Ip) {f : Inode → Inode} (allowed : M f) :
      Gives M label s (.ok (a, s.modifyInode ip f))
  | record (a : α) (b : Nat) (disk : Disk) : Gives M label s ((s.record b disk).map fun s => (a, s))

/-- Only what the disk has of the inode is assigned to. -/
def OnContent (f : Inode → Inode) : Prop := ∀ v, f v = { v with toDinode := (f v).toDinode }

/-- The entry is for the same inode and has its references. -/
def SameEntry (f : Inode → Inode) : Prop := ∀ v, (f v).ref = v.ref ∧ (f v).inum = v.inum

/-- The judgement holds of every step of that kind. -/
def Admits (J : (α : Type) → FsM α → Prop) (M : (Inode → Inode) → Prop) (label : Label) : Prop :=
  ∀ {α : Type} {f : State → Option (Except Panic (α × State))},
    (∀ s x, f s = some x → Gives M label s x) → J α (.atomic label f)

section Gives

variable {J : (α : Type) → FsM α → Prop}

/-- What a step can do to the state, for a relation that each kind of change keeps. -/
theorem Gives.changes {α : Type} {a : α} {R : State → State → Prop}
    (gives : Gives M label s (.ok (a, s'))) (assign : ∀ ip f, M f → R s (s.modifyInode ip f))
    (other : ∀ disk log, R s { s with disk := disk, log := log }) : R s s' := by
  generalize is : (.ok (a, s') : Except Panic (α × State)) = x at gives
  cases gives with
  | panic => cases is
  | write _ disk => cases is; exact other disk s.log
  | assign _ ip allowed => cases is; exact assign ip _ allowed
  | record =>
    unfold State.record at is
    split at is
    · cases is
    · split at is <;> cases is
      exact other ..

/-- `Steps` from one case for each kind of step. -/
theorem Steps.of_gives (pure : ∀ {α : Type} (a : α), J α (Pure.pure a))
    (bind : ∀ {α β : Type} {p : FsM α} {next : α → FsM β}, J α p → (∀ a, J β (next a)) →
      J β (p >>= next)) (step : Admits J OnContent .other) : Steps J where
  pure := pure
  bind := bind
  look g := step fun s x stepped => by cases stepped; exact .write _ s.disk
  panic e := step fun s x stepped => by cases stepped; exact .panic nofun
  assign ip f same := step fun s x stepped => by cases stepped; exact .assign _ ip same
  store b disk := step fun s x stepped => by cases stepped; exact .record ..
  markFree := step fun s x stepped => by
    split at stepped <;> cases stepped
    · exact .write _ s.disk
    · exact .record ..
  copyIn addr off m src tot := step fun s x stepped => by
    dsimp only at stepped
    split at stepped <;> cases stepped
    · exact .write ..
    · exact .record ..

theorem Writes.of_gives (steps : Steps J) (step : Admits J (fun _ => False) .update) :
    Writes J where
  toSteps := steps
  bfree b := step fun s x stepped => by
    split at stepped <;> cases stepped
    · exact .record ..
    · exact .panic fun _ => nofun
  iupdate ip := step fun s x stepped => by cases stepped; exact .record ..

theorem Closed.of_gives (steps : Steps J) (step : Admits J SameEntry .other) : Closed J where
  toSteps := steps
  markInode type := step fun s x stepped => by
    split at stepped <;> cases stepped
    · exact .write _ s.disk
    · exact .record ..
  acquire ip := step fun s x stepped => by
    split at stepped
    · cases stepped
      exact .panic nofun
    · split at stepped <;> cases stepped
      exact .assign _ ip fun _ => ⟨rfl, rfl⟩
  load ip := step fun s x stepped => by
    dsimp only at stepped
    split at stepped
    · cases stepped
      exact .write _ s.disk
    · split at stepped <;> cases stepped
      · exact .panic nofun
      · exact .assign _ ip fun _ => ⟨rfl, rfl⟩
  iunlock ip := step fun s x stepped => by
    split at stepped <;> cases stepped
    · exact .assign _ ip fun _ => ⟨rfl, rfl⟩
    · exact .panic nofun
  release ip := step fun s x stepped => by
    cases stepped
    exact .assign _ ip fun _ => ⟨rfl, rfl⟩

end Gives

section Steps

variable {J : (α : Type) → FsM α → Prop} (h : Steps J)

include h

namespace Steps

theorem inode (ip : Ip) : J _ (inode ip) := h.look _

theorem bread (b : Nat) : J _ (bread b) := h.look _

theorem setAddr (ip : Ip) (k : AddrSlot) (b : UInt32) : J _ (setAddr ip k b) :=
  h.assign ip fun _ => by rfl

theorem setSize (ip : Ip) (size : UInt32) : J _ (setSize ip size) :=
  h.assign ip fun _ => by rfl

theorem balloc : J _ balloc := by
  refine h.bind h.markFree fun found => ?_
  cases found with
  | none => exact h.pure _
  | some b => exact h.last (h.store _ _)

theorem bmapSlot (ip : Ip) (k : AddrSlot) : J _ (bmapSlot ip k) := by
  refine h.bind (h.inode ip) fun v => ?_
  split
  · refine h.bind h.balloc fun addr => ?_
    split
    · exact h.pure _
    · exact h.last (h.setAddr ip k _)
  · exact h.pure _

theorem bmapEntry (b j : Nat) : J _ (bmapEntry b j) := by
  refine h.bind (h.bread b) fun a => ?_
  split
  · refine h.bind h.balloc fun addr => ?_
    split
    · exact h.pure _
    · exact h.last (h.store _ _)
  · exact h.pure _

/-- `bmap` looks an address up and allocates what is missing. -/
theorem bmap (ip : Ip) (bn : Nat) : J _ (bmap ip bn) := by
  unfold Fs.bmap
  split
  · exact h.bmapSlot ip _
  split
  · refine h.bind (h.bmapSlot ip _) fun b => ?_
    split
    · exact h.pure _
    · exact h.bmapEntry b _
  · exact h.panic _

/-- By induction on the fuel of the loop of `readi`. -/
theorem readLoop (ip : Ip) (dst : Nat → Bool) (n fuel off : Nat) (acc : List UInt8) :
    J _ (readLoop ip dst n fuel off acc) := by
  induction fuel generalizing off acc with
  | zero => exact h.pure _
  | succ fuel ih =>
    unfold Fs.readLoop
    split
    · refine h.bind (h.bmap ip _) fun addr => ?_
      split
      · exact h.pure _
      refine h.bind (h.bread addr) fun block => ?_
      dsimp only
      split
      · exact ih _ _
      · exact h.pure _
    · exact h.pure _

theorem readi (ip : Ip) (dst : Nat → Bool) (off n : Nat) : J _ (readi ip dst off n) := by
  refine h.bind (h.inode ip) fun v => ?_
  split
  · exact h.pure _
  · exact h.readLoop ip dst _ _ _ _

/-- By induction on the fuel of the loop of `writei`. -/
theorem writeLoop (ip : Ip) (src : Nat → Option UInt8) (n fuel off tot : Nat) :
    J _ (writeLoop ip src n fuel off tot) := by
  induction fuel generalizing off tot with
  | zero => exact h.pure _
  | succ fuel ih =>
    unfold Fs.writeLoop
    split
    · refine h.bind (h.bmap ip _) fun addr => ?_
      split
      · exact h.pure _
      · refine h.bind (h.copyIn ..) fun copied => ?_
        split
        · exact ih _ _
        · exact h.pure _
    · exact h.pure _

theorem growTo (ip : Ip) (off : Nat) : J _ (growTo ip off) := by
  refine h.bind (h.inode ip) fun v => ?_
  split
  · exact h.setSize ip _
  · exact h.pure _

theorem readDirent (e : Panic) (dp : Ip) (off : Nat) : J _ (readDirent e dp off) := by
  refine h.bind (h.readi dp _ off _) fun de => ?_
  split
  · exact h.pure _
  · exact h.panic e

/-- The loop of `dirlookup`. -/
theorem scanName (dp : Ip) (name : List UInt8) (count off : Nat) :
    J _ (scanName dp name count off) := by
  induction count generalizing off with
  | zero => exact h.pure _
  | succ count ih =>
    refine h.bind (h.readDirent _ dp off) fun de => ?_
    split
    · exact h.pure _
    · exact ih _

theorem scanEmpty (dp : Ip) (count off : Nat) : J _ (scanEmpty dp count off) := by
  induction count generalizing off with
  | zero => exact h.pure _
  | succ count ih =>
    refine h.bind (h.readDirent _ dp off) fun de => ?_
    split
    · exact h.pure _
    · exact ih _

theorem scanUsed (dp : Ip) (count off : Nat) : J _ (scanUsed dp count off) := by
  induction count generalizing off with
  | zero => exact h.pure _
  | succ count ih =>
    refine h.bind (h.readDirent _ dp off) fun de => ?_
    split
    · exact h.pure _
    · exact ih _

theorem scanInum (parent : Ip) (inum count off : Nat) : J _ (scanInum parent inum count off) := by
  induction count generalizing off with
  | zero => exact h.pure _
  | succ count ih =>
    refine h.bind (h.readi parent _ off _) fun de => ?_
    split
    · split
      · exact h.pure _
      · exact ih _
    · exact h.pure _

theorem removable (ip : Ip) : J _ (removable ip) := by
  refine h.bind (h.inode ip) fun v => ?_
  split
  · exact h.bind (h.inode ip) fun v => h.scanUsed ip _ _
  · exact h.pure _

theorem readParts (ip : Ip) (parts : List (Nat × Nat)) : J _ (readParts ip parts) := by
  induction parts with
  | nil => exact h.pure _
  | cons part parts ih => exact h.bind (h.readi ip _ _ _) fun _ => ih

end Steps

end Steps

section Writes

variable {J : (α : Type) → FsM α → Prop} (h : Writes J)

include h

namespace Writes

theorem freeSlots (ip : Ip) (ks : List AddrSlot) : J _ (freeSlots ip ks) := by
  induction ks with
  | nil => exact h.pure _
  | cons k ks ih =>
    refine h.bind (h.inode ip) fun v => ?_
    split
    · exact ih
    · exact h.bind (h.bfree _) fun _ => h.bind (h.setAddr ip k 0) fun _ => ih

theorem freeEntries (a : Block) (js : List Nat) : J _ (freeEntries a js) := by
  induction js with
  | nil => exact h.pure _
  | cons j js ih =>
    unfold Fs.freeEntries
    split
    · exact ih
    · exact h.bind (h.bfree _) fun _ => ih

theorem freeIndirect (ip : Ip) : J _ (freeIndirect ip) := by
  refine h.bind (h.inode ip) fun v => ?_
  split
  · exact h.pure _
  · exact h.bind (h.bread _) fun a => h.bind (h.freeEntries a _) fun _ =>
      h.bind (h.bfree _) fun _ => h.setAddr ip _ 0

/-- `itrunc` frees all blocks of an inode. -/
theorem itrunc (ip : Ip) : J _ (itrunc ip) :=
  h.bind (h.freeSlots ip _) fun _ => h.bind (h.freeIndirect ip) fun _ =>
    h.bind (h.setSize ip 0) fun _ => h.iupdate ip

/-- `writei` logs the blocks and then the inode. -/
theorem writei (ip : Ip) (src : Nat → Option UInt8) (off n : Nat) : J _ (writei ip src off n) := by
  refine h.bind (h.inode ip) fun v => ?_
  split
  · exact h.pure _
  · split
    · exact h.pure _
    · exact h.bind (h.writeLoop ip src n n off 0) fun _ => h.bind (h.growTo ip _) fun _ =>
        h.last (h.iupdate ip)

theorem writeDirent (dp : Ip) (off : Nat) (de : List UInt8) : J _ (writeDirent dp off de) :=
  h.last (h.writei dp _ off _)

theorem setNlink (ip : Ip) (f : UInt16 → UInt16) : J _ (setNlink ip f) :=
  h.bind (h.assign ip fun _ => by rfl) fun _ => h.iupdate ip

theorem countParent (dp : Ip) (type : UInt16) (f : UInt16 → UInt16) :
    J _ (countParent dp type f) := by
  unfold Fs.countParent
  split
  · exact h.setNlink dp f
  · exact h.pure _

theorem truncate (ip : Ip) (omode : Nat) : J _ (truncate ip omode) := by
  refine h.bind (h.inode ip) fun v => ?_
  split
  · exact h.itrunc ip
  · exact h.pure _

end Writes

end Writes

section Counts

variable {J : (α : Type) → FsM α → Prop} (h : Counts J)

include h

namespace Counts

theorem iunlockput (ip : Ip) : J _ (iunlockput ip) := h.bind (h.iunlock ip) fun _ => h.iput ip

theorem ialloc (type : UInt16) : J _ (ialloc type) := by
  refine h.bind (h.markInode type) fun found => ?_
  cases found with
  | none => exact h.pure _
  | some i => exact h.last (h.iget i)

theorem dirlookup (dp : Ip) (name : List UInt8) : J _ (dirlookup dp name) := by
  refine h.bind (h.inode dp) fun v => ?_
  split
  · exact h.panic _
  · refine h.bind (h.scanName dp name _ _) fun found => ?_
    match found with
    | none => exact h.pure _
    | some (inum, off) => exact h.last (h.iget inum)

/-- By induction on the fuel of `namex`: each turn locks, looks up and puts. -/
theorem namexLoop (parent : Bool) (fuel : Nat) (ip : Ip) (path name : List UInt8) :
    J _ (namexLoop parent fuel ip path name) := by
  induction fuel generalizing ip path name with
  | zero => exact h.pure _
  | succ fuel ih =>
    unfold Fs.namexLoop
    split
    · split
      · exact h.last (h.iput ip)
      · exact h.pure _
    refine h.locked ip fun v => ?_
    split
    · exact h.last (h.iunlockput ip)
    split
    · exact h.last (h.iunlock ip)
    · refine h.bind (h.dirlookup ip _) fun next => ?_
      match next with
      | none => exact h.last (h.iunlockput ip)
      | some (next, _) => exact h.bind (h.iunlockput ip) fun _ => ih _ _ _

theorem namex (parent : Bool) (cwd : Ip) (path : List UInt8) : J _ (namex parent cwd path) := by
  refine h.bind ?_ fun ip => h.namexLoop parent _ ip path []
  unfold pathStart
  split
  · exact h.iget _
  · exact h.last (h.idup cwd)

theorem namei (cwd : Ip) (path : List UInt8) : J _ (namei cwd path) :=
  h.last (h.namex false cwd path)

theorem getcwdFail (ip parent : Ip) : J _ (getcwdFail ip parent) :=
  h.bind (h.iput parent) fun _ => h.last (h.iput ip)

theorem getcwdLoop (fuel : Nat) (ip : Ip) (path : List UInt8) : J _ (getcwdLoop fuel ip path) := by
  induction fuel generalizing ip path with
  | zero => exact h.last (h.iput ip)
  | succ fuel ih =>
    refine h.locked ip fun v => h.bind (h.iunlock ip) fun _ => ?_
    split
    · exact h.last (h.iput ip)
    refine h.bind (h.ilock ip) fun _ => h.bind (h.dirlookup ip _) fun found =>
      h.bind (h.iunlock ip) fun _ => ?_
    match found with
    | none => exact h.last (h.iput ip)
    | some (parent, _) =>
      refine h.locked parent fun d =>
        h.bind (h.scanInum parent v.inum _ _) fun entry => h.bind (h.iunlock parent) fun _ => ?_
      cases entry with
      | short | absent => exact h.getcwdFail ip parent
      | found name =>
        dsimp only
        split
        · exact h.getcwdFail ip parent
        · exact h.bind (h.iput ip) fun _ => ih _ _

theorem sysGetcwd (cwd : Ip) (usize : Int) (out : Bool) : J _ (sysGetcwd cwd usize out) := by
  unfold Fs.sysGetcwd
  split
  · exact h.pure _
  · refine h.last ?_
    exact h.bind (h.idup cwd) fun _ => h.last (h.getcwdLoop _ cwd [])

theorem chdir (cwd : Ip) (path : List UInt8) : J _ (chdir cwd path) := by
  refine h.bind (h.namei cwd path) fun found => ?_
  cases found with
  | none => exact h.pure _
  | some ip =>
    refine h.locked ip fun v => ?_
    split
    · exact h.last (h.iunlockput ip)
    · exact h.bind (h.iunlock ip) fun _ => h.last (h.iput cwd)

end Counts

end Counts

section Both

variable {J : (α : Type) → FsM α → Prop} (h : Counts J) (u : Updates J)

include h u

namespace Counts

theorem dirlink (dp : Ip) (name : List UInt8) (inum : Nat) : J _ (dirlink dp name inum) := by
  refine h.bind (h.dirlookup dp name) fun present => ?_
  match present with
  | some (ip, _) => exact h.last (h.iput ip)
  | none =>
    exact h.bind (h.inode dp) fun v => h.bind (h.scanEmpty dp _ _) fun off =>
      u.writeDirent dp off _

theorem linkNew (ip dp : Ip) (name : List UInt8) (type : UInt16) :
    J _ (linkNew ip dp name type) := by
  refine h.bind ?_ fun dots => ?_
  · unfold linkDots
    split
    · refine h.bind (h.inode ip) fun v => h.bind (h.dirlink u ip _ _) fun first => ?_
      split
      · exact h.bind (h.inode dp) fun v => h.dirlink u ip _ _
      · exact h.pure _
    · exact h.pure _
  · split
    · exact h.bind (h.inode ip) fun v => h.dirlink u dp name _
    · exact h.pure _

theorem createNew (ip dp : Ip) (name : List UInt8) (type major minor : UInt16) :
    J _ (createNew ip dp name type major minor) := by
  refine h.bind (h.ilock ip) fun _ => h.bind (h.assign ip fun _ => by rfl) fun _ =>
    h.bind (u.setNlink ip _) fun _ => h.bind (h.linkNew u ip dp name type) fun linked => ?_
  split
  · exact h.bind (u.countParent dp type _) fun _ => h.last (h.iunlockput dp)
  · exact h.bind (u.setNlink ip _) fun _ => h.bind (h.iunlockput ip) fun _ =>
      h.last (h.iunlockput dp)

/-- `create`, which finds the file or makes it. -/
theorem create (cwd : Ip) (path : List UInt8) (type major minor : UInt16) :
    J _ (create cwd path type major minor) := by
  refine h.bind (h.namex true cwd path) fun parent => ?_
  match parent with
  | none => exact h.pure _
  | some (dp, name) =>
    refine h.bind (h.ilock dp) fun _ => h.bind (h.dirlookup dp name) fun found => ?_
    match found with
    | some (ip, _) =>
      refine h.bind (h.iunlockput dp) fun _ => h.locked ip fun v => ?_
      split
      · exact h.pure _
      · exact h.last (h.iunlockput ip)
    | none =>
      refine h.bind (h.ialloc type) fun new => ?_
      cases new with
      | none => exact h.last (h.iunlockput dp)
      | some ip => exact h.createNew u ip dp name type major minor

theorem linkBad (ip : Ip) : J _ (linkBad ip) :=
  h.bind (h.ilock ip) fun _ => h.bind (u.setNlink ip _) fun _ =>
    h.last (h.iunlockput ip)

/-- `link`, which counts the link first and takes it back on failure. -/
theorem link (cwd : Ip) (old new : List UInt8) : J _ (link cwd old new) := by
  refine h.bind (h.namei cwd old) fun found => ?_
  cases found with
  | none => exact h.pure _
  | some ip =>
    refine h.locked ip fun v => ?_
    split
    · exact h.last (h.iunlockput ip)
    refine h.bind (u.setNlink ip _) fun _ => h.bind (h.iunlock ip) fun _ => ?_
    refine h.bind (h.namex true cwd new) fun parent => ?_
    match parent with
    | none => exact h.linkBad u ip
    | some (dp, name) =>
      refine h.bind (h.ilock dp) fun _ => h.bind (h.inode ip) fun v =>
        h.bind (h.dirlink u dp name _) fun linked => h.bind (h.iunlockput dp) fun _ => ?_
      split
      · exact h.last (h.iput ip)
      · exact h.linkBad u ip

theorem unlinkFound (dp ip : Ip) (off : Nat) : J _ (unlinkFound dp ip off) := by
  refine h.locked ip fun v => ?_
  split
  · exact h.panic _
  refine h.bind (h.removable ip) fun ok => ?_
  split
  · refine h.bind (u.writeDirent dp off _) fun cleared => ?_
    split
    · exact h.bind (h.inode ip) fun v => h.bind (u.countParent dp _ _) fun _ =>
        h.bind (h.iunlockput dp) fun _ => h.bind (u.setNlink ip _) fun _ =>
        h.last (h.iunlockput ip)
    · exact h.panic _
  · exact h.bind (h.iunlockput ip) fun _ => h.last (h.iunlockput dp)

/-- `unlink`, which clears the entry before it drops the link. -/
theorem unlink (cwd : Ip) (path : List UInt8) : J _ (unlink cwd path) := by
  refine h.bind (h.namex true cwd path) fun parent => ?_
  match parent with
  | none => exact h.pure _
  | some (dp, name) =>
    refine h.bind (h.ilock dp) fun _ => ?_
    split
    · exact h.last (h.iunlockput dp)
    · refine h.bind (h.dirlookup dp name) fun found => ?_
      match found with
      | none => exact h.last (h.iunlockput dp)
      | some (ip, off) => exact h.unlinkFound u dp ip off

theorem openInode (cwd : Ip) (path : List UInt8) (omode : Nat) :
    J _ (openInode cwd path omode) := by
  unfold Fs.openInode
  split
  · exact h.create u cwd path _ _ _
  refine h.bind (h.namei cwd path) fun found => ?_
  cases found with
  | none => exact h.pure _
  | some ip =>
    refine h.locked ip fun v => ?_
    split
    · exact h.last (h.iunlockput ip)
    · exact h.pure _

end Counts

end Both

end Xv6.Fs
