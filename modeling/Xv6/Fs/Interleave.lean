import Mathlib.Algebra.Order.BigOperators.Group.Finset
import Xv6.Fs.Closed

/-!
# Calls of several processes at the same time

The system in which each step is one atomic step of the call of some process. Beside the
state it follows how many transactions each process is in, and whether it is in
`sys_getcwd`, which has none. The scans of `balloc` for a free block and of `ialloc` for a free
inode (`markFree`, `markInode`) are one step each, also where they read several blocks.

Every call but `sys_getcwd` calls `iput` in a transaction only. Then a `log_write` of
`iupdate` or `itrunc` finds an outstanding operation, and nothing is being committed.
-/

namespace Xv6.Fs

open Function

/-- Where a call is: how many transactions it has begun and not ended, and whether it is
`sys_getcwd`. -/
structure Mode where
  depth : Nat := 0
  getcwd : Bool := false
deriving DecidableEq

def Mode.after (m : Mode) : Label → Mode
  | .beginOp => { m with depth := m.depth + 1 }
  | .endOp => { m with depth := m.depth - 1 }
  | .other | .iput _ | .update => m

def Op.mode : Op → Mode
  | .getcwd _ _ => { getcwd := true }
  | _ => {}

theorem Op.mode_depth (op : Op) : op.mode.depth = 0 := by cases op <;> rfl

/-- The system, and what is left of the calls that are going on. A panic is kept with the
label of its step. -/
structure Conc where
  sys : Sys
  left : Slot → Option (SysM (Option Nat)) := fun _ => none
  mode : Slot → Mode := fun _ => {}
  panicked : Option (Label × Panic) := none

/-- A process begins a call, or makes the next step of the one it is in. -/
inductive Move
  | start (op : Op)
  | next

namespace Conc

def next (c : Conc) (p : Slot) : Option Label :=
  match c.left p with
  | some (.act label _ _) => some label
  | _ => none

def start (c : Conc) (p : Slot) (op : Op) : Option Conc :=
  match c.left p, c.sys.cwd p with
  | none, some cwd =>
    if c.sys.proc p = .runnable then
      some { c with
        left := update c.left p (some (call p cwd op))
        mode := update c.mode p op.mode }
    else none
  | _, _ => none

/-- The next step of process `p`; there is none while it waits. -/
def step (c : Conc) (p : Slot) : Option Conc :=
  match c.left p with
  | none => none
  | some (.pure _) => some { c with
      left := update c.left p none
      mode := update c.mode p {} }
  | some (.act label f k) =>
    match f c.sys with
    | none => none
    | some (.error e) => some { c with panicked := some (label, e) }
    | some (.ok (b, sys)) => some { c with
        sys := sys
        left := update c.left p (some (k b))
        mode := update c.mode p ((c.mode p).after label) }

def move (c : Conc) (p : Slot) : Move → Option Conc
  | .start op => c.start p op
  | .next => c.step p

def exec (c : Conc) (label : Slot × Move) : Option (Conc × Unit) :=
  match c.panicked with
  | none => (c.move label.1 label.2).map fun c => (c, ())
  | some _ => none

end Conc

def interleaved : Lts Conc ((Slot × Move) × Unit) :=
  .ofExec (fun c => ∃ sb disk, c = { sys := boot sb disk }) Conc.exec

/-! ## The order of the steps of a call -/

/-- What may come next in a call: references are dropped and inodes are updated in a
transaction, but `sys_getcwd` drops references without one. -/
def Mode.Allows (m : Mode) : Label → Prop
  | .other | .beginOp => True
  | .iput _ => 0 < m.depth ∨ m.getcwd = true
  | .endOp | .update => 0 < m.depth

instance (m : Mode) : DecidablePred m.Allows := fun label => by
  unfold Mode.Allows
  split <;> infer_instance

def Mode.follow (m : Mode) (label : Label) : Option Mode :=
  if m.Allows label then some (m.after label) else none

theorem Mode.allows_of_follow {m m' : Mode} (moves : m.follow label = some m') :
    m.Allows label ∧ m' = m.after label := by
  unfold Mode.follow at moves
  split at moves
  · next allowed =>
    cases moves
    exact ⟨allowed, rfl⟩
  · cases moves

/-- No inode that is in use and has been read is without a name. -/
def State.Named (s : State) : Prop :=
  ∀ ip, 0 < (s.itable ip).ref → (s.itable ip).valid = true → (s.itable ip).nlink ≠ 0
  deriving Decidable

/-- The steps of `sys_getcwd` that count. -/
def Spared (m : Mode) (_ : Label) (s : State) : Prop := m.getcwd = true → s.Named

/-- What a step does to the log. -/
def LogStep (label : Label) (s : State) : Except Panic State → Prop
  | .error e => label = .update → e = .logOutside → s.log.outstanding < 1
  | .ok s' =>
    match label with
    | .beginOp => s'.log.committing = false ∧ s'.log.outstanding = s.log.outstanding + 1
    | .endOp => s'.log.outstanding = s.log.outstanding - 1 ∧
        (s'.log.committing = true → s'.log.outstanding = 0)
    | .other | .iput _ | .update => s'.log.outstanding = s.log.outstanding ∧
        (s'.log.committing = true → s.log.committing = true)

/-- A step that is neither the begin nor the end of a transaction. -/
def Label.Inner (label : Label) : Prop := label ≠ .beginOp ∧ label ≠ .endOp

theorem LogStep.of_inner (inner : label.Inner) (same : s'.log.outstanding = s.log.outstanding)
    (committing : s'.log.committing = true → s.log.committing = true) :
    LogStep label s (.ok s') := by
  cases label with
  | beginOp => exact absurd rfl inner.1
  | endOp => exact absurd rfl inner.2
  | other | iput | update => exact ⟨same, committing⟩

theorem LogStep.same (inner : label.Inner) (same : s'.log = s.log) : LogStep label s (.ok s') := by
  refine .of_inner inner ?_ ?_
  · rw [same]
  · rw [same]
    exact id

theorem LogStep.record (inner : label.Inner) {α : Type} (a : α) :
    LogStep label s (((s.record b disk).map fun s => (a, s)).map Prod.snd) := by
  unfold State.record
  split
  · exact fun _ => nofun
  · split
    · next outside => exact fun _ _ => outside
    · exact .of_inner inner rfl id

/-- The steps of the program are as `m` allows them, and it ends as it began. -/
def InMode (m : Mode) (α : Type) (p : FsM α) : Prop :=
  p.Follows Mode.follow Spared LogStep m m

section InMode

variable {m : Mode} {α : Type}

theorem Mode.follow_inner (inner : label.Inner) (allowed : m.Allows label) :
    m.follow label = some m := by
  unfold Mode.follow
  rw [if_pos allowed]
  cases label with
  | beginOp => exact absurd rfl inner.1
  | endOp => exact absurd rfl inner.2
  | other | iput | update => rfl

theorem inner_other : Label.other.Inner := ⟨nofun, nofun⟩

theorem inner_update : Label.update.Inner := ⟨nofun, nofun⟩

theorem inner_iput (ip : Ip) : (Label.iput ip).Inner := ⟨nofun, nofun⟩

theorem InMode.step (inner : label.Inner) (allowed : m.Allows label) :
    Admits (InMode m) M label := fun gives =>
  .atomic (Mode.follow_inner inner allowed) fun s x stepped => by
    cases gives s x stepped with
    | panic other => exact fun update same => absurd same (other update)
    | write | assign => exact .same inner rfl
    | record => exact .record inner _

theorem InMode.assign (ip : Ip) (f : Inode → Inode) : InMode m Unit (modifyInode ip f) :=
  .step inner_other trivial fun s x stepped => by
    cases stepped
    exact .assign (M := fun _ => True) () ip trivial

theorem closed_inMode (m : Mode) : Closed (InMode m) :=
  .of_gives (.of_gives .pure .bind (.step inner_other trivial)) (.step inner_other trivial)

theorem updates_inMode (inside : 0 < m.depth) : Updates (InMode m) :=
  { closed_inMode m, Writes.of_gives (closed_inMode m).toSteps (.step inner_update inside) with }

theorem iget_inMode (i : Nat) : InMode m _ (iget i) :=
  .step (M := fun _ => True) inner_other trivial fun s x stepped => by
    split at stepped <;> cases stepped
    · exact .assign _ _ trivial
    · exact .panic nofun
    · exact .assign _ _ trivial

theorem startPut_step (ip : Ip) (s : State) (x : Except Panic (Bool × State))
    (stepped : (if (s.itable ip).Last then
        if (s.itable ip).locked then none
        else some (.ok (true, s.modifyInode ip fun v => { v with locked := true }))
      else some (.ok (false, s.modifyInode ip fun v => { v with ref := v.ref - 1 }))) = some x) :
    LogStep (.iput ip) s (x.map Prod.snd) := by
  split at stepped
  · split at stepped <;> cases stepped
    exact .same (inner_iput ip) rfl
  · cases stepped
    exact .same (inner_iput ip) rfl

theorem counts_inMode (inside : 0 < m.depth) : Counts (InMode m) where
  toClosed := closed_inMode m
  iget i := iget_inMode i
  idup ip := .assign ip _
  iput ip := by
    have u := updates_inMode inside
    refine .bind (.atomic (Mode.follow_inner (inner_iput ip) (.inl inside)) (startPut_step ip)) ?_
    intro last
    split
    · refine u.bind (u.itrunc ip) fun _ => ?_
      refine u.bind (u.assign ip fun _ => by rfl) fun _ => ?_
      refine u.bind (u.iupdate ip) fun _ => ?_
      exact u.bind (u.release ip) fun _ => .assign ip _
    · exact u.pure _

theorem counts_getcwd (getcwd : m.getcwd = true) : Counts (InMode m) where
  toClosed := closed_inMode m
  iget i := iget_inMode i
  idup ip := .assign ip _
  iput ip := by
    refine ⟨m, Mode.follow_inner (inner_iput ip) (.inr getcwd), startPut_step ip, ?_⟩
    intro s last s' spared stepped
    have named := spared getcwd ip
    dsimp only at stepped
    split at stepped
    · next last => exact absurd last.2.2 (named (last.1 ▸ Nat.one_pos) last.2.1)
    · cases stepped
      exact .pure _

end InMode

/-- The steps of a call take it from `m` to `m'`. -/
def Along (m m' : Mode) {α : Type} (p : SysM α) : Prop :=
  p.Follows Mode.follow (fun m label sys => Spared m label sys.fs)
    (fun label sys x => LogStep label sys.fs (x.map Sys.fs)) m m'

section Along

variable {m m' : Mode} {α : Type}

theorem Along.onFs (follows : p.Follows Mode.follow Spared LogStep m m') : Along m m' (onFs p) :=
  follows.zoom id id

theorem Along.apart {f : Sys → Option (Except Panic (α × Sys))}
    (same : ∀ sys a sys', f sys = some (.ok (a, sys')) → sys'.fs = sys.fs) :
    Along m m (.atomic .other f) := by
  refine .atomic (Mode.follow_inner inner_other trivial) fun sys x stepped => ?_
  match x with
  | .error e => exact nofun
  | .ok (a, sys') =>
    refine .same inner_other ?_
    rw [same sys a sys' stepped]

theorem Along.read (g : Sys → α) : Along m m (.read .other g) := .apart fun sys a sys' stepped => by
  cases stepped
  rfl

theorem Along.modify {g : Sys → Sys} (same : ∀ sys, (g sys).fs = sys.fs) :
    Along m m (.modify .other g) := .apart fun sys a sys' stepped => by
  cases stepped
  exact same sys

theorem Along.pure (a : α) : Along m m (Pure.pure a) := Prog.Follows.pure a

theorem Along.bind {β : Type} {next : α → SysM β} (first : Along m m1 p)
    (rest : ∀ a, Along m1 m' (next a)) : Along m m' (p >>= next) := Prog.Follows.bind first rest

theorem Along.last {β : Type} {f : α → β} (step : Along m m' p) :
    Along m m' (p >>= fun a => Pure.pure (f a)) := step.bind fun _ => .pure _

theorem Along.inMode (follows : InMode m α p) : Along m m (Fs.onFs p) := .onFs follows

end Along

section Transaction

variable {α : Type}

def Mode.enter (m : Mode) : Mode := { m with depth := m.depth + 1 }

theorem Mode.enter_inside (m : Mode) : 0 < m.enter.depth := Nat.succ_pos _

theorem beginOp_follows (m : Mode) : beginOp.Follows Mode.follow Spared LogStep m m.enter := by
  refine .atomic ?_ fun s x stepped => ?_
  · exact if_pos trivial
  split at stepped
  · cases stepped
  · next room =>
    cases stepped
    refine ⟨?_, rfl⟩
    exact Bool.eq_false_iff.mpr fun committing => room (.inl committing)

theorem endOp_follows (m : Mode) : endOp.Follows Mode.follow Spared LogStep m.enter m := by
  refine .bind (.atomic (if_pos m.enter_inside) fun s x stepped => ?_) fun last => ?_
  · split at stepped <;> cases stepped
    · exact nofun
    · exact ⟨rfl, fun zero => of_decide_eq_true zero⟩
  · split
    · refine .atomic (Mode.follow_inner inner_other trivial) fun s x stepped => ?_
      cases stepped
      exact .of_inner inner_other rfl nofun
    · exact .pure _

theorem transaction_follows (inside : InMode m.enter α body) : InMode m α (transaction body) :=
  .bind (beginOp_follows m) fun _ => .bind inside fun _ => .bind (endOp_follows m) fun _ => .pure _

theorem inTransaction_along (inside : Along m.enter m.enter body) :
    Along m m (inTransaction body) :=
  .bind (.onFs (beginOp_follows m)) fun _ => .bind inside fun _ =>
    .last (.onFs (endOp_follows m))

end Transaction

section Calls

variable {m : Mode}

theorem file_along (f : Fp) : Along m m (file f) := .read _

theorem modifyFile_along (f : Fp) (g : File → File) : Along m m (modifyFile f g) :=
  .modify fun _ => rfl

theorem setFd_along (p : Slot) (fd : Fd) (f : Option Fp) : Along m m (setFd p fd f) :=
  .modify fun _ => rfl

theorem filealloc_along : Along m m filealloc := .apart fun sys a sys' stepped => by
  split at stepped <;> cases stepped <;> rfl

theorem fdalloc_along (p : Slot) (f : Fp) : Along m m (fdalloc p f) :=
  .apart fun sys a sys' stepped => by
    split at stepped <;> cases stepped <;> rfl

theorem filedup_along (f : Fp) : Along m m (filedup f) := .apart fun sys a sys' stepped => by
  split at stepped <;> cases stepped
  rfl

theorem dropFile_along (f : Fp) : Along m m (dropFile f) := .apart fun sys a sys' stepped => by
  split at stepped
  · cases stepped
  · split at stepped <;> cases stepped <;> rfl

theorem iput_follows (ip : Ip) : InMode m _ (transaction (iput ip)) :=
  transaction_follows ((counts_inMode m.enter_inside).iput ip)

theorem fileclose_along (f : Fp) : Along m m (fileclose f) := by
  refine .bind (dropFile_along f) fun last => ?_
  cases last with
  | none => exact .pure _
  | some ff =>
    dsimp only
    unfold closeLast
    split
    · exact .pure _
    · exact .modify fun _ => rfl
    all_goals exact .inMode (iput_follows _)

theorem filestat_along (f : Fp) (out : Bool) : Along m m (filestat f out) := by
  have h := closed_inMode m
  refine .bind (file_along f) fun v => ?_
  split
  · refine .last (.inMode ?_)
    exact h.bind (h.ilock _) fun _ => h.iunlock _
  · exact .pure _

theorem fileread_along (f : Fp) (dst : Nat → Bool) (n : Int) : Along m m (fileread f dst n) := by
  have h := closed_inMode m
  refine .bind (file_along f) fun v => ?_
  split
  · exact .pure _
  split
  · exact .pure _
  · exact .pure _
  · exact .apart nofun
  · exact .bind (.inMode (h.ilock _)) fun _ => .bind (file_along f) fun v =>
      .bind (.inMode (h.readi ..)) fun _ => .bind (modifyFile_along f _) fun _ =>
      .last (.inMode (h.iunlock _))

theorem writeChunk_along (f : Fp) (src : Nat → Option UInt8) (i n1 : Nat) :
    Along m m (writeChunk f src i n1) := by
  have u := updates_inMode m.enter_inside
  refine inTransaction_along ?_
  exact .bind (file_along f) fun v => .bind (.inMode (u.ilock _)) fun _ =>
    .bind (file_along f) fun v => .bind (.inMode (u.writei ..)) fun _ =>
    .bind (modifyFile_along f _) fun _ => .last (.inMode (u.iunlock _))

theorem writeChunks_along (f : Fp) (src : Nat → Option UInt8) (n fuel i : Nat) :
    Along m m (writeChunks f src n fuel i) := by
  induction fuel generalizing i with
  | zero => exact .pure _
  | succ fuel ih =>
    unfold writeChunks
    split
    · refine .bind (writeChunk_along ..) fun r => ?_
      split
      · exact ih _
      · exact .pure _
    · exact .pure _

theorem filewrite_along (f : Fp) (src : Nat → Option UInt8) (n : Int) :
    Along m m (filewrite f src n) := by
  refine .bind (file_along f) fun v => ?_
  split
  · exact .pure _
  split
  · exact .pure _
  · exact .pure _
  · exact .apart nofun
  · exact .last (writeChunks_along ..)

theorem openLocked_along (inside : 0 < m.depth) (p : Slot) (ip : Ip) (omode : Nat) :
    Along m m (openLocked p ip omode) := by
  have h := counts_inMode inside
  have u := updates_inMode inside
  refine .bind filealloc_along fun new => ?_
  cases new with
  | none => exact .last (.inMode (h.iunlockput ip))
  | some f =>
    refine .bind (fdalloc_along p f) fun fd => ?_
    cases fd with
    | none =>
      exact .bind (fileclose_along f) fun _ => .last (.inMode (h.iunlockput ip))
    | some fd =>
      refine .last ?_
      exact .bind (.inMode (h.inode ip)) fun v => .bind (modifyFile_along f _) fun _ =>
        .bind (.inMode (u.truncate ip omode)) fun _ => .inMode (h.iunlock ip)

theorem sysOpen_along (p : Slot) (dir : Ip) (path : List UInt8) (omode : Nat) :
    Along m m (sysOpen p dir path omode) := by
  have inside := m.enter_inside
  have h := counts_inMode inside
  unfold sysOpen
  split
  · exact .pure _
  rename_i path _
  refine inTransaction_along ?_
  refine .bind (.inMode (h.openInode (updates_inMode inside) dir path omode)) fun found => ?_
  cases found with
  | none => exact .pure _
  | some ip =>
    refine .bind (.inMode (h.inode ip)) fun v => ?_
    split
    · exact .last (.inMode (h.iunlockput ip))
    · exact openLocked_along inside p ip omode

theorem sysDup_along (p : Slot) (f : Fp) : Along m m (sysDup p f) := by
  refine .bind (fdalloc_along p f) fun fd => ?_
  cases fd with
  | none => exact .pure _
  | some fd => exact .last (filedup_along f)

theorem sysChdir_along (p : Slot) (dir : Ip) (path : List UInt8) :
    Along m m (sysChdir p dir path) := by
  have h := counts_inMode m.enter_inside
  refine .bind (.inMode (transaction_follows ?_)) fun found => ?_
  · split
    · exact h.pure _
    · exact h.chdir dir _
  · cases found with
    | none => exact .pure _
    | some ip => exact .last (.modify fun _ => rfl)

theorem pipealloc_along (mem : Bool) : Along m m (pipealloc mem) := by
  refine .bind filealloc_along fun f0 => ?_
  cases f0 with
  | none => exact .pure _
  | some f0 =>
    refine .bind filealloc_along fun f1 => ?_
    cases f1 with
    | none => exact .last (fileclose_along f0)
    | some f1 =>
      dsimp only
      split
      · refine .bind (.apart fun sys a sys' stepped => ?_) fun pi => ?_
        · cases stepped
          rfl
        · exact .bind (modifyFile_along f0 _) fun _ => .last (modifyFile_along f1 _)
      · exact .bind (fileclose_along f0) fun _ => .last (fileclose_along f1)

theorem pipeFail_along (rf wf : Fp) : Along m m (pipeFail rf wf) :=
  .bind (fileclose_along rf) fun _ => .last (fileclose_along wf)

theorem pipeFds_along (p : Slot) (rf wf : Fp) (out : Bool) : Along m m (pipeFds p rf wf out) := by
  refine .bind (fdalloc_along p rf) fun fd0 => ?_
  cases fd0 with
  | none => exact pipeFail_along rf wf
  | some fd0 =>
    refine .bind (fdalloc_along p wf) fun fd1 => ?_
    cases fd1 with
    | none => exact .bind (setFd_along p fd0 none) fun _ => pipeFail_along rf wf
    | some fd1 =>
      dsimp only
      split
      · exact .pure _
      · exact .bind (setFd_along p fd0 none) fun _ => .bind (setFd_along p fd1 none) fun _ =>
          pipeFail_along rf wf

theorem sysPipe_along (p : Slot) (mem out : Bool) : Along m m (sysPipe p mem out) := by
  refine .bind (pipealloc_along mem) fun ends => ?_
  match ends with
  | none => exact .pure _
  | some (rf, wf) => exact pipeFds_along p rf wf out

theorem dupFiles_along (p np : Slot) (fds : List Fd) : Along m m (dupFiles p np fds) := by
  induction fds with
  | nil => exact .pure _
  | cons fd fds ih =>
    refine .bind (.read _) fun f => ?_
    cases f with
    | none => exact ih
    | some f =>
      exact .bind (filedup_along f) fun _ => .bind (setFd_along np fd _) fun _ => ih

theorem newProc_along (p : Slot) (dir : Ip) (mem : Bool) : Along m m (newProc p dir mem) := by
  refine .bind (.apart fun sys a sys' stepped => ?_) fun new => ?_
  · split at stepped <;> cases stepped <;> rfl
  cases new with
  | none => exact .pure _
  | some np =>
    dsimp only
    split
    · refine .bind (dupFiles_along p np _) fun _ => .bind (.inMode ?_) fun _ => ?_
      · exact .assign dir _
      · exact .bind (.modify fun _ => rfl) fun _ => .last (.modify fun _ => rfl)
    · exact .last (.modify fun _ => rfl)

theorem closeFiles_along (p : Slot) (fds : List Fd) : Along m m (closeFiles p fds) := by
  induction fds with
  | nil => exact .pure _
  | cons fd fds ih =>
    refine .bind (.read _) fun f => ?_
    cases f with
    | none => exact ih
    | some f =>
      exact .bind (fileclose_along f) fun _ => .bind (setFd_along p fd none) fun _ => ih

theorem kexit_along (p : Slot) (dir : Ip) : Along m m (kexit p dir) := by
  unfold kexit
  split
  · exact .apart nofun
  · exact .bind (closeFiles_along p _) fun _ => .bind (.inMode (iput_follows dir)) fun _ =>
      .bind (.modify fun _ => rfl) fun _ => .last (.modify fun _ => rfl)

theorem reap_along (q : Slot) : Along m m (reap q) := .apart fun sys a sys' stepped => by
  split at stepped <;> cases stepped <;> rfl

theorem reclaimInodes_follows (is : List Nat) : InMode m _ (reclaimInodes is) := by
  have h := closed_inMode m
  have inside := counts_inMode m.enter_inside
  induction is with
  | nil => exact h.pure _
  | cons i is ih =>
    refine h.bind (h.look _) fun d => ?_
    split
    · refine h.bind (iget_inMode i) fun ip => h.bind (transaction_follows ?_) fun _ => ih
      exact inside.bind (inside.ilock ip) fun _ => inside.bind (inside.iunlock ip) fun _ =>
        inside.iput ip
    · exact ih

theorem makeNode_follows (dir : Ip) (path : List UInt8) (type major minor : UInt16) :
    InMode m _ (makeNode dir path type major minor) := by
  have h := counts_inMode m.enter_inside
  refine transaction_follows ?_
  split
  · exact h.pure _
  rename_i path _
  refine h.bind (h.create (updates_inMode m.enter_inside) dir path type major minor) fun made => ?_
  cases made with
  | none => exact h.pure _
  | some ip => exact h.last (h.iunlockput ip)

theorem sysLink_follows (dir : Ip) (old new : List UInt8) : InMode m _ (sysLink dir old new) := by
  have inside := m.enter_inside
  unfold sysLink
  split
  · exact transaction_follows ((counts_inMode inside).link (updates_inMode inside) ..)
  · exact .pure _

theorem sysUnlink_follows (dir : Ip) (path : List UInt8) : InMode m _ (sysUnlink dir path) := by
  have inside := m.enter_inside
  unfold sysUnlink
  split
  · exact .pure _
  · exact transaction_follows ((counts_inMode inside).unlink (updates_inMode inside) ..)

theorem sysExec_follows (dir : Ip) (path : List UInt8) (parts : List (Nat × Nat)) :
    InMode m _ (sysExec dir path parts) := by
  have h := counts_inMode m.enter_inside
  unfold sysExec
  split
  · exact .pure _
  refine .bind (transaction_follows (m := m) ?_) fun _ => .pure _
  refine h.bind (h.namei dir _) fun found => ?_
  cases found with
  | none => exact h.pure _
  | some ip =>
    exact h.bind (h.ilock ip) fun _ => h.bind (h.readParts ip parts) fun _ =>
      h.last (h.iunlockput ip)

theorem withFile_along {body : Fd → Fp → SysM (Option Nat)}
    (follows : ∀ fd f, Along m m (body fd f)) : Along m m (withFile p fd body) := by
  unfold withFile
  split
  · exact .pure _
  · refine .bind (.read _) fun f => ?_
    cases f with
    | none => exact .pure _
    | some f => exact follows _ f

end Calls

theorem call_along (p : Slot) (dir : Ip) (op : Op) : Along op.mode op.mode (call p dir op) := by
  cases op with
  | «open» path omode => exact sysOpen_along p dir path omode
  | close fd =>
    exact withFile_along fun fd f => .bind (setFd_along p fd none) fun _ =>
      .last (fileclose_along f)
  | dup fd => exact withFile_along fun _ f => sysDup_along p f
  | read fd dst n => exact withFile_along fun _ f => fileread_along f dst n
  | write fd src n => exact withFile_along fun _ f => filewrite_along f src n
  | fstat fd out => exact withFile_along fun _ f => filestat_along f out
  | link old new => exact .inMode (sysLink_follows dir old new)
  | unlink path => exact .inMode (sysUnlink_follows dir path)
  | mkdir path | mknod path major minor => exact .inMode (makeNode_follows dir path _ _ _)
  | chdir path => exact sysChdir_along p dir path
  | getcwd usize out =>
    have h := counts_getcwd (m := { getcwd := true }) rfl
    exact .inMode (h.last (h.sysGetcwd dir usize out))
  | exec path parts => exact .inMode (sysExec_follows dir path parts)
  | pipe mem out => exact sysPipe_along p mem out
  | fork mem | clone mem => exact newProc_along p dir mem
  | exit => exact kexit_along p dir
  | wait q => exact reap_along q
  | reclaim =>
    have h := closed_inMode {}
    exact .inMode (h.last (h.bind (h.look _) fun _ => reclaimInodes_follows _))

namespace Conc

/-- What is left of a call makes its steps in order from `m` on, and leaves no transaction. -/
def Leads (m : Mode) : Option (SysM (Option Nat)) → Prop
  | none => m.depth = 0
  | some prog => ∃ m', m'.depth = 0 ∧ Along m m' prog

/-- Every call makes its steps in order, and the outstanding operations are the
transactions that the processes are in. -/
structure Ordered (c : Conc) : Prop where
  leads : ∀ p, Leads (c.mode p) (c.left p)
  outstanding : c.sys.fs.log.outstanding = ∑ p, (c.mode p).depth
  committing : c.sys.fs.log.committing = true → c.sys.fs.log.outstanding = 0
  sound : c.panicked ≠ some (.update, .logOutside)

/-- While a process is in `sys_getcwd`, it steps only when every inode in use has a name. -/
def Spares (c : Conc) (label : (Slot × Move) × Unit) : Prop :=
  (c.mode label.1.1).getcwd = true → c.sys.fs.Named
  deriving Decidable

variable {c c' : Conc} {p : Slot}

theorem sum_depth_update (mode : Slot → Mode) (p : Slot) (m : Mode) :
    ∑ q, (update mode p m q).depth + (mode p).depth = ∑ q, (mode q).depth + m.depth := by
  have split := fun f : Slot → Nat => (Finset.add_sum_erase Finset.univ f (Finset.mem_univ p)).symm
  have rest : ∑ q ∈ Finset.univ.erase p, (update mode p m q).depth =
      ∑ q ∈ Finset.univ.erase p, (mode q).depth := by
    refine Finset.sum_congr rfl fun q mem => ?_
    rw [update_of_ne (Finset.ne_of_mem_erase mem)]
  rw [split fun q => (update mode p m q).depth, split fun q => (mode q).depth, rest,
    update_self]
  omega

theorem Ordered.depth_le (ord : c.Ordered) (p : Slot) :
    (c.mode p).depth ≤ c.sys.fs.log.outstanding := by
  rw [ord.outstanding]
  exact Finset.single_le_sum (f := fun q => (c.mode q).depth) (fun _ _ => Nat.zero_le _)
    (Finset.mem_univ p)

theorem Ordered.goto (ord : c.Ordered) {left : Option (SysM (Option Nat))} {sys : Sys}
    (leads : Leads m left)
    (outstanding : sys.fs.log.outstanding + (c.mode p).depth = c.sys.fs.log.outstanding + m.depth)
    (committing : sys.fs.log.committing = true → sys.fs.log.outstanding = 0) :
    Ordered { c with
      sys := sys
      left := update c.left p left
      mode := update c.mode p m } where
  leads q := by
    dsimp only
    by_cases same : q = p
    · subst same
      rw [update_self, update_self]
      exact leads
    · rw [update_of_ne same, update_of_ne same]
      exact ord.leads q
  outstanding := by
    have sum := sum_depth_update c.mode p m
    have before := ord.outstanding
    dsimp only
    omega
  committing := committing
  sound := ord.sound

theorem Ordered.counts {sys : Sys} (ord : c.Ordered) (allowed : (c.mode p).Allows label)
    (step : LogStep label c.sys.fs (.ok sys.fs)) :
    sys.fs.log.outstanding + (c.mode p).depth =
        c.sys.fs.log.outstanding + ((c.mode p).after label).depth ∧
      (sys.fs.log.committing = true → sys.fs.log.outstanding = 0) := by
  have le := ord.depth_le p
  cases label with
  | beginOp =>
    obtain ⟨idle, more⟩ := step
    refine ⟨?_, fun committing => ?_⟩
    · dsimp only [Mode.after]
      omega
    · rw [idle] at committing
      cases committing
  | endOp =>
    obtain ⟨fewer, zero⟩ := step
    have inside : 0 < (c.mode p).depth := allowed
    refine ⟨?_, zero⟩
    dsimp only [Mode.after]
    omega
  | other | iput | update =>
    obtain ⟨same, still⟩ := step
    refine ⟨by rw [same]; rfl, fun committing => ?_⟩
    rw [same]
    exact ord.committing (still committing)

theorem Ordered.allows (ord : c.Ordered) (next : c.next p = some label) :
    (c.mode p).Allows label := by
  unfold Conc.next at next
  split at next
  · next here =>
    cases next
    have leads := ord.leads p
    rw [here] at leads
    obtain ⟨_, _, _, moves, -⟩ := leads
    exact (Mode.allows_of_follow moves).1
  · cases next

theorem Ordered.step (ord : c.Ordered) (spares : (c.mode p).getcwd = true → c.sys.fs.Named)
    (stepped : c.step p = some c') : c'.Ordered := by
  have leads := ord.leads p
  unfold Conc.step at stepped
  split at stepped
  · cases stepped
  · next a here =>
    cases stepped
    rw [here] at leads
    obtain ⟨m, zero, same⟩ := leads
    exact ord.goto (m := {}) rfl (by rw [same, zero]) ord.committing
  · next label f k here =>
    rw [here] at leads
    obtain ⟨m, zero, m1, moves, steps, rest⟩ := leads
    obtain ⟨allowed, rfl⟩ := Mode.allows_of_follow moves
    split at stepped
    · cases stepped
    · next e failed =>
      cases stepped
      refine { ord with sound := fun outside => ?_ }
      -- a `log_write` outside of a transaction would be a step of a process in one
      cases outside
      have inside : 0 < (c.mode p).depth := allowed
      have none : c.sys.fs.log.outstanding < 1 := steps _ _ failed rfl rfl
      have le := ord.depth_le p
      omega
    · next b sys done =>
      cases stepped
      obtain ⟨outstanding, committing⟩ := ord.counts allowed (steps _ _ done)
      exact ord.goto ⟨m, zero, rest _ _ _ spares done⟩ outstanding committing

theorem Ordered.start (ord : c.Ordered) (started : c.start p op = some c') : c'.Ordered := by
  unfold Conc.start at started
  split at started
  · next dir idle here =>
    split at started <;> cases started
    have apart := ord.leads p
    rw [idle] at apart
    refine ord.goto ⟨op.mode, op.mode_depth, call_along p dir op⟩ ?_ ord.committing
    rw [apart, op.mode_depth]
  · cases started

theorem Ordered.boot (sb : Superblock) (disk : Disk) : Ordered { sys := boot sb disk } where
  leads _ := rfl
  outstanding := by
    rw [Finset.sum_const_zero]
    rfl
  committing := nofun
  sound := nofun

theorem ordered_of_reachable (run : interleaved.ReachableWhen Spares c) : c.Ordered := by
  refine run.invariant (P := Ordered) ?_ ?_
  · rintro c ⟨sb, disk, rfl⟩
    exact .boot sb disk
  rintro c ⟨⟨p, move⟩, _⟩ c' ord spares step
  have step : c.exec (p, move) = some (c', _) := step
  unfold Conc.exec at step
  split at step
  · obtain ⟨c1, moved, ⟨⟩⟩ := Option.map_eq_some_iff.mp step
    cases move with
    | start op => exact ord.start moved
    | next => exact ord.step spares moved
  · cases step

end Conc

variable {c : Conc}

/-- Inodes are freed in a transaction: in every interleaving in which `sys_getcwd` steps only
when each inode in use has a name, `iput` takes its freeing branch only between the `begin_op`
and the `end_op` of its process, and each `log_write` of `itrunc` and `iupdate` finds an
outstanding operation and no commit. -/
theorem freed_in_transaction (run : interleaved.ReachableWhen Conc.Spares c) :
    (∀ p ip, c.next p = some (.iput ip) → c.Spares ((p, .next), ()) →
      (c.sys.fs.itable ip).Last → 0 < (c.mode p).depth) ∧
    (∀ p, c.next p = some .update →
      0 < c.sys.fs.log.outstanding ∧ c.sys.fs.log.committing = false) ∧
    c.panicked ≠ some (.update, .logOutside) := by
  have ord := Conc.ordered_of_reachable run
  refine ⟨fun p ip next spares last => ?_, fun p next => ?_, ord.sound⟩
  · rcases ord.allows next with inside | getcwd
    · exact inside
    · exact absurd last.2.2 (spares getcwd ip (last.1 ▸ Nat.one_pos) last.2.1)
  have inside : 0 < (c.mode p).depth := ord.allows next
  have some_op : 0 < c.sys.fs.log.outstanding := Nat.lt_of_lt_of_le inside (ord.depth_le p)
  refine ⟨some_op, Bool.eq_false_iff.mpr fun committing => ?_⟩
  have none := ord.committing committing
  omega

/-- Process `p` begins a call and makes `n` steps of it. -/
def steps (p : Slot) (op : Op) (n : Nat) : List (Slot × Move) :=
  (p, .start op) :: List.replicate n (p, .next)

/-- One process is in `sys_getcwd` while another removes `/a/b`, up to its last `iput`. -/
def removeDir : List (Slot × Move) :=
  steps ⟨0, by decide⟩ (.fork true) 21 ++ steps ⟨0, by decide⟩ (.getcwd 100 true) 5 ++
    steps ⟨1, by decide⟩ (.unlink [0x61, slash, 0x62]) 53

theorem freed_in_transaction_removed : ∃ c, interleaved.ReachableWhen Conc.Spares c ∧
    c.next ⟨1, by decide⟩ = some (.iput ⟨2, by decide⟩) ∧
    (c.sys.fs.itable ⟨2, by decide⟩).Last ∧ 0 < (c.mode ⟨1, by decide⟩).depth := by
  obtain ⟨c, reach, next, last, spares⟩ : ∃ c, interleaved.ReachableWhen Conc.Spares c ∧
      c.next ⟨1, by decide⟩ = some (.iput ⟨2, by decide⟩) ∧
      (c.sys.fs.itable ⟨2, by decide⟩).Last ∧ c.Spares ((⟨1, by decide⟩, .next), ()) :=
    Lts.exists_of_run (s := { sys := boot smallSb smallDisk }) ⟨_, _, rfl⟩ removeDir
      (by decide +kernel)
  exact ⟨c, reach, next, last, (freed_in_transaction reach).1 _ _ next spares last⟩

/-- A process whose current directory `/a/b` is removed is in `sys_getcwd` and has a reference
to `/a`, up to the `iput` that drops it, when another process removes `/a`. -/
def removeParent : List (Slot × Move) :=
  steps ⟨0, by decide⟩ (.chdir [0x61, slash, 0x62]) 43 ++ steps ⟨0, by decide⟩ (.fork true) 21 ++
    steps ⟨0, by decide⟩ (.unlink (dotdot ++ [slash, 0x62])) 54 ++
    steps ⟨0, by decide⟩ (.getcwd 100 true) 29 ++ steps ⟨1, by decide⟩ (.unlink [slash, 0x61]) 44

/-- `sys_getcwd` frees an inode outside of a transaction, and the `log_write` of `itrunc` panics. -/
theorem getcwd_frees_outside :
    (∃ c p ip, interleaved.Reachable c ∧ c.next p = some (.iput ip) ∧
      (c.sys.fs.itable ip).Last ∧ (c.mode p).depth = 0) ∧
    ∃ c, interleaved.Reachable c ∧ c.panicked = some (.update, .logOutside) := by
  constructor
  · obtain ⟨c, reach, frees⟩ : ∃ c, interleaved.Reachable c ∧
        c.next ⟨0, by decide⟩ = some (.iput ⟨0, by decide⟩) ∧
        (c.sys.fs.itable ⟨0, by decide⟩).Last ∧ (c.mode ⟨0, by decide⟩).depth = 0 :=
      Lts.exists_of_run (s := { sys := boot smallSb smallDisk }) ⟨_, _, rfl⟩ removeParent
        (by decide +kernel)
    exact ⟨c, _, _, reach, frees⟩
  · exact Lts.exists_of_run (s := { sys := boot smallSb smallDisk }) ⟨_, _, rfl⟩
      (removeParent ++ List.replicate 3 (⟨0, Nat.succ_pos _⟩, .next)) (by decide +kernel)

end Xv6.Fs
