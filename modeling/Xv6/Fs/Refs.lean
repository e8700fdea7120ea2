import Xv6.Lib.Refs
import Xv6.Fs.Closed

/-!
# References to inodes

Which programs of the file system change the reference counts of the inode table, and how.
`Referenced H s` says that the counts are exact for the references `H`, and that the
entries in use are for different inodes. A program either leaves the counts and the
numbers alone in every step, or it takes and drops references, which then are the
difference between the `H` before and after it.
-/

namespace Xv6.Fs

open Refs (Counted)
open Multiset (cons_swap mem_cons mem_cons_of_mem)

/-- The counts are exact and no inode has two entries in use. -/
structure Referenced (H : Multiset Ip) (s : State) : Prop where
  counted : Counted (fun e => (s.itable e).ref) H
  unique : ∀ e ∈ H, ∀ e' ∈ H, (s.itable e).inum = (s.itable e').inum → e = e'

theorem Referenced.count (refs : Referenced H s) (e : Ip) : (s.itable e).ref = H.count e :=
  refs.counted e

/-! ## Programs that leave the references alone -/

/-- No reference count and no number of an entry differs. -/
def SameRefs (s s' : State) : Prop :=
  ∀ e, (s'.itable e).ref = (s.itable e).ref ∧ (s'.itable e).inum = (s.itable e).inum

theorem SameRefs.refl (s : State) : SameRefs s s := fun _ => ⟨rfl, rfl⟩

theorem SameRefs.trans (h : SameRefs s s') (h' : SameRefs s' s'') : SameRefs s s'' :=
  fun e => ⟨(h' e).1.trans (h e).1, (h' e).2.trans (h e).2⟩

theorem SameRefs.of_itable (same : s'.itable = s.itable) : SameRefs s s' := by
  intro e
  rw [same]
  exact ⟨rfl, rfl⟩

theorem SameRefs.modify (ref : ∀ v, (f v).ref = v.ref) (inum : ∀ v, (f v).inum = v.inum)
    (s : State) (ip : Ip) : SameRefs s (s.modifyInode ip f) :=
  fun e => ⟨s.modifyInode_field Inode.ref ref ip e, s.modifyInode_field Inode.inum inum ip e⟩

theorem Referenced.same (refs : Referenced H s) (same : SameRefs s s') : Referenced H s' where
  counted e := ((same e).1).trans (refs.counted e)
  unique e mem e' mem' eq := by
    rw [(same e).2, (same e').2] at eq
    exact refs.unique e mem e' mem' eq

/-- Every step leaves the references alone. -/
abbrev Quiet {α : Type} (p : FsM α) : Prop := p.Within SameRefs

/-- Whatever only reads, writes and locks leaves the references alone. -/
theorem quiet : Updates @Quiet := by
  have step {label : Label} {M : (Inode → Inode) → Prop} (same : ∀ f, M f → SameEntry f) :
      Admits @Quiet M label := fun gives => .atomic fun s a s' stepped =>
        (gives s _ stepped).changes
      (fun ip f allowed => .modify (fun v => (same f allowed v).1)
        (fun v => (same f allowed v).2) s ip)
      fun _ _ => .of_itable rfl
  have steps : Steps @Quiet := .of_gives .pure .bind
      (step fun f is v => by rw [is]; exact ⟨rfl, rfl⟩)
  exact { Closed.of_gives steps (step fun _ is => is), Writes.of_gives steps (step nofun) with }

theorem quiet_beginOp : Quiet beginOp := by
  refine .atomic fun s _ s' stepped => ?_
  split at stepped <;> cases stepped
  exact .of_itable rfl

theorem quiet_endOp : Quiet endOp := by
  refine .bind (.atomic fun s _ s' stepped => ?_) fun doCommit => ?_
  · split at stepped <;> cases stepped
    exact .of_itable rfl
  · cases doCommit with
    | false => exact .pure _
    | true => exact .modify fun _ => .of_itable rfl

/-! ## Programs that take and drop references -/

section Counts

variable {α β : Type} {H : Multiset Ip} {s : State} {ip dp cwd : Ip}

/-- The references are `H' a` after a run with the result `a`, if they are `H` before it.
Nothing is said of a run that ends with a panic. -/
def Leaves (H : Multiset Ip) (p : FsM α) (H' : α → Multiset Ip) : Prop :=
  ∀ s, Referenced H s → p.Ends (fun _ => True) (fun a s' => Referenced (H' a) s') s

/-- The references with the one that is returned, if there is one. -/
def taken (H : Multiset Ip) : Option Ip → Multiset Ip
  | none => H
  | some ip => ip ::ₘ H

section Rules

variable {p : FsM α} {next : α → FsM β} {H1 : α → Multiset Ip} {H2 : β → Multiset Ip}

theorem Leaves.pure (same : H = H1 a) : Leaves H (pure a) H1 := by
  intro s refs
  rw [same] at refs
  exact refs

/-- The rule for a sequence. -/
theorem Leaves.bind (first : Leaves H p H1) (rest : ∀ a, Leaves (H1 a) (next a) H2) :
    Leaves H (p >>= next) H2 := fun s refs => (first s refs).bind rest

theorem Leaves.last {f : α → β} (step : Leaves H p fun a => H2 (f a)) :
    Leaves H (p >>= fun a => Pure.pure (f a)) H2 := step.bind fun _ => .pure rfl

theorem Leaves.quiet (quiet : Quiet p) : Leaves H p fun _ => H := fun s refs =>
  (quiet.ends SameRefs.refl (fun _ _ _ => SameRefs.trans) s).imp fun _ _ same => refs.same same

theorem Leaves.after (quiet : Quiet p) (rest : ∀ a, Leaves H (next a) H2) :
    Leaves H (p >>= next) H2 := (Leaves.quiet quiet).bind rest

/-- The rule for locking an inode to look at it. -/
theorem Leaves.locked {next : Inode → FsM β} (ip : Ip) (rest : ∀ v, Leaves H (next v) H2) :
    Leaves H (ilock ip >>= fun _ => inode ip >>= next) H2 :=
  .after (Fs.quiet.ilock ip) fun _ => .after (Fs.quiet.inode ip) rest

end Rules

theorem refs_modify (s : State) (ip : Ip) :
    (fun e => ((s.modifyInode ip f).itable e).ref) =
      Function.update (fun e => (s.itable e).ref) ip (f (s.itable ip)).ref := by
  funext e
  by_cases same : e = ip
  · subst same
    rw [State.modifyInode_self, Function.update_self]
  · rw [State.modifyInode_other s f same, Function.update_of_ne same]

theorem Referenced.dup (refs : Referenced H s) (mem : ip ∈ H) :
    Referenced (ip ::ₘ H) (s.modifyInode ip fun v => { v with ref := v.ref + 1 }) where
  counted := by
    rw [refs_modify]
    exact refs.counted.more ip
  unique e inH e' inH' eq := by
    have old : ∀ {e}, e ∈ ip ::ₘ H → e ∈ H := by
      intro e inH
      rcases mem_cons.mp inH with rfl | inH
      · exact mem
      · exact inH
    rw [s.modifyInode_field Inode.inum (fun _ => by rfl),
      s.modifyInode_field Inode.inum (fun _ => by rfl)] at eq
    exact refs.unique e (old inH) e' (old inH') eq

/-- An unused entry becomes that of an inode that has none. -/
theorem Referenced.fresh (refs : Referenced H s) (free : (s.itable ip).ref = 0)
    (absent : ∀ e ∈ H, (s.itable e).inum ≠ i) :
    Referenced (ip ::ₘ H)
      (s.modifyInode ip fun v => { v with inum := i, ref := 1, valid := false }) where
  counted := by
    have one := refs.counted.more ip
    rw [free] at one
    rw [refs_modify]
    exact one
  unique e inH e' inH' eq := by
    have out : ip ∉ H := by
      rw [refs.counted.mem_iff, free]
      exact Nat.lt_irrefl 0
    -- an entry in use is the new one, or an old one with another number
    have known : ∀ {e}, e ∈ H → (s.modifyInode ip fun v =>
        { v with inum := i, ref := 1, valid := false }).itable e = s.itable e := fun inH =>
      s.modifyInode_other _ fun same => out (same ▸ inH)
    rcases mem_cons.mp inH with new | old <;>
      rcases mem_cons.mp inH' with new' | old'
    · rw [new, new']
    · rw [new, known old', State.modifyInode_self] at eq
      exact (absent e' old' eq.symm).elim
    · rw [new', known old, State.modifyInode_self] at eq
      exact (absent e old eq).elim
    · rw [known old, known old'] at eq
      exact refs.unique e old e' old' eq

theorem Referenced.drop (refs : Referenced (ip ::ₘ H) s) :
    Referenced H (s.modifyInode ip fun v => { v with ref := v.ref - 1 }) where
  counted := by
    rw [refs_modify]
    exact refs.counted.fewer
  unique e inH e' inH' eq := by
    rw [s.modifyInode_field Inode.inum (fun _ => by rfl),
      s.modifyInode_field Inode.inum (fun _ => by rfl)] at eq
    exact refs.unique e (mem_cons_of_mem inH) e' (mem_cons_of_mem inH') eq

/-- `iget` takes one reference, in the inode's entry or in an unused one. -/
theorem iget_leaves (i : Nat) : Leaves H (iget i) (fun ip => ip ::ₘ H) := by
  refine fun s refs => .atomic ?_
  split
  · next ip found =>
    exact refs.dup (refs.counted.mem_iff.mpr (findInode_some found).1)
  · trivial
  · next ip absent found =>
    refine refs.fresh (emptyInode_some found) fun e inH => ?_
    exact findInode_none absent (refs.counted.mem_iff.mp inH)

theorem idup_leaves (mem : ip ∈ H) : Leaves H (idup ip) (fun _ => ip ::ₘ H) :=
  fun _ refs => refs.dup mem

theorem freeInode_leaves : Leaves (ip ::ₘ H) (freeInode ip) (fun _ => H) := by
  refine .after (quiet.assign ip fun _ => by rfl) fun _ => ?_
  refine .after (quiet.iupdate ip) fun _ => ?_
  refine .after (quiet.release ip) fun _ => ?_
  exact fun _ refs => refs.drop

/-- `iput` drops one reference, also when it frees the inode. -/
theorem iput_leaves : Leaves (ip ::ₘ H) (iput ip) (fun _ => H) := by
  have start : Leaves (ip ::ₘ H) (startPut ip) fun last => if last then ip ::ₘ H else H := by
    refine fun s refs => .atomic ?_
    split
    · split
      · trivial
      · exact refs.same (.modify (fun _ => by rfl) (fun _ => by rfl) s ip)
    · exact refs.drop
  refine start.bind fun last => ?_
  cases last with
  | false => exact .pure rfl
  | true =>
    refine .after (quiet.itrunc ip) fun _ => ?_
    exact freeInode_leaves

theorem iunlockput_leaves : Leaves (ip ::ₘ H) (iunlockput ip) (fun _ => H) :=
  .after (quiet.iunlock ip) fun _ => iput_leaves

theorem transaction_leaves (leaves : Leaves H body H') : Leaves H (transaction body) H' := by
  refine .after quiet_beginOp fun _ => ?_
  refine leaves.bind fun a => ?_
  exact .last (.quiet quiet_endOp)

theorem ialloc_leaves (type : UInt16) : Leaves H (ialloc type) (taken H) := by
  refine .after (quiet.markInode type) fun found => ?_
  cases found with
  | none => exact .pure rfl
  | some i => exact .last (iget_leaves i)

theorem ireclaim_leaves : Leaves H ireclaim (fun _ => H) := by
  refine .after (quiet.look _) fun ninodes => ?_
  generalize List.filter _ _ = is
  induction is with
  | nil => exact .pure rfl
  | cons i is ih =>
    refine .after (quiet.look _) fun d => ?_
    split
    · refine (iget_leaves i).bind fun ip => ?_
      refine (transaction_leaves ?_).bind fun _ => ih
      refine .after (quiet.ilock ip) fun _ => ?_
      exact .after (quiet.iunlock ip) fun _ => iput_leaves
    · exact ih

/-! ### Directories and paths -/

/-- `dirlookup` has a reference to what it finds. -/
theorem dirlookup_leaves (dp : Ip) (name : List UInt8) :
    Leaves H (dirlookup dp name) (fun found => taken H (found.map (·.1))) := by
  refine .after (quiet.inode dp) fun v => ?_
  split
  · exact fun _ _ => trivial
  · refine .after (quiet.scanName dp name _ _) fun found => ?_
    match found with
    | none => exact .pure rfl
    | some (inum, off) => exact .last (iget_leaves inum)

theorem dirlink_leaves (dp : Ip) (name : List UInt8) (inum : Nat) :
    Leaves H (dirlink dp name inum) (fun _ => H) := by
  refine (dirlookup_leaves dp name).bind fun present => ?_
  match present with
  | some (ip, _) => exact .last iput_leaves
  | none =>
    refine .after (quiet.inode dp) fun v => ?_
    refine .after (quiet.scanEmpty dp _ _) fun off => ?_
    exact .quiet (quiet.writeDirent dp off _)

/-- At every turn the loop of `namex` trades a directory for its entry. -/
theorem namexLoop_leaves (parent : Bool) (fuel : Nat) (path name : List UInt8) :
    Leaves (ip ::ₘ H) (namexLoop parent fuel ip path name)
      (fun found => taken H (found.map (·.1))) := by
  induction fuel generalizing ip path name with
  | zero => exact .pure rfl
  | succ fuel ih =>
    unfold namexLoop
    split
    · split
      · exact .last iput_leaves
      · exact .pure rfl
    rename_i name rest _
    refine .locked ip fun v => ?_
    split
    · exact .last iunlockput_leaves
    split
    · exact .last (.quiet (quiet.iunlock ip))
    refine (dirlookup_leaves ip name).bind fun next => ?_
    match next with
    | none => exact .last iunlockput_leaves
    | some (next, _) =>
      -- the reference to the directory goes, the one to the entry stays
      refine Leaves.bind ?_ fun _ => ih _ _
      rw [Option.map_some, taken, cons_swap]
      exact iunlockput_leaves

theorem namex_leaves (parent : Bool) (path : List UInt8) (mem : cwd ∈ H) :
    Leaves H (namex parent cwd path) (fun found => taken H (found.map (·.1))) := by
  have start : Leaves H (pathStart cwd path) (fun ip => ip ::ₘ H) := by
    unfold pathStart
    split
    · exact iget_leaves _
    · exact .last (idup_leaves mem)
  exact start.bind fun ip => namexLoop_leaves parent _ path []

theorem namei_leaves (path : List UInt8) (mem : cwd ∈ H) : Leaves H (namei cwd path) (taken H) :=
  .last (namex_leaves false path mem)

/-! ### Calls -/

theorem createFound_leaves (type : UInt16) :
    Leaves (ip ::ₘ dp ::ₘ H) (createFound dp ip type) (taken H) := by
  rw [cons_swap]
  refine iunlockput_leaves.bind fun _ => ?_
  refine .locked ip fun v => ?_
  split
  · exact .pure rfl
  · exact .last iunlockput_leaves

theorem linkNew_leaves (ip dp : Ip) (name : List UInt8) (type : UInt16) :
    Leaves H (linkNew ip dp name type) (fun _ => H) := by
  have dots : Leaves H (linkDots ip dp type) (fun _ => H) := by
    unfold linkDots
    split
    · refine .after (quiet.inode ip) fun v => ?_
      refine (dirlink_leaves ip dot v.inum).bind fun first => ?_
      cases first with
      | false => exact .pure rfl
      | true =>
        refine .after (quiet.inode dp) fun v => ?_
        exact dirlink_leaves ip dotdot v.inum
    · exact .pure rfl
  refine dots.bind fun linked => ?_
  cases linked with
  | false => exact .pure rfl
  | true =>
    refine .after (quiet.inode ip) fun v => ?_
    exact dirlink_leaves dp name v.inum

/-- `create` drops the parent, and the new inode too if it cannot be linked. -/
theorem createNew_leaves (name : List UInt8) (type major minor : UInt16) :
    Leaves (ip ::ₘ dp ::ₘ H) (createNew ip dp name type major minor) (taken H) := by
  refine .after (quiet.ilock ip) fun _ => ?_
  refine .after (quiet.assign ip fun _ => by rfl) fun _ => ?_
  refine .after (quiet.setNlink ip _) fun _ => ?_
  refine (linkNew_leaves ip dp name type).bind fun linked => ?_
  cases linked with
  | true =>
    refine .after (quiet.countParent dp type _) fun _ => ?_
    rw [cons_swap]
    exact .last iunlockput_leaves
  | false =>
    refine .after (quiet.setNlink ip _) fun _ => ?_
    refine iunlockput_leaves.bind fun _ => ?_
    exact .last iunlockput_leaves

/-- `create` returns with one reference or with none. -/
theorem create_leaves (path : List UInt8) (type major minor : UInt16) (mem : cwd ∈ H) :
    Leaves H (create cwd path type major minor) (taken H) := by
  refine (namex_leaves true path mem).bind fun parent => ?_
  match parent with
  | none => exact .pure rfl
  | some (dp, name) =>
    refine .after (quiet.ilock dp) fun _ => ?_
    refine (dirlookup_leaves dp name).bind fun found => ?_
    match found with
    | some (ip, _) => exact createFound_leaves type
    | none =>
      refine (ialloc_leaves type).bind fun new => ?_
      cases new with
      | none => exact .last iunlockput_leaves
      | some ip => exact createNew_leaves name type major minor

theorem makeNode_leaves (path : List UInt8) (type major minor : UInt16) (mem : cwd ∈ H) :
    Leaves H (makeNode cwd path type major minor) (fun _ => H) := by
  refine transaction_leaves ?_
  split
  · exact .pure rfl
  rename_i path _
  refine (create_leaves path type major minor mem).bind fun made => ?_
  cases made with
  | none => exact .pure rfl
  | some ip => exact .last iunlockput_leaves

theorem linkBad_leaves : Leaves (ip ::ₘ H) (linkBad ip) (fun _ => H) := by
  refine .after (quiet.ilock ip) fun _ => ?_
  refine .after (quiet.setNlink ip _) fun _ => ?_
  exact .last iunlockput_leaves

theorem linkEntry_leaves (new : List UInt8) (mem : cwd ∈ H) :
    Leaves (ip ::ₘ H) (linkEntry cwd ip new) (fun _ => H) := by
  refine (namex_leaves true new (mem_cons_of_mem mem)).bind fun parent => ?_
  match parent with
  | none => exact linkBad_leaves
  | some (dp, name) =>
    refine .after (quiet.ilock dp) fun _ => ?_
    refine .after (quiet.inode ip) fun v => ?_
    refine (dirlink_leaves dp name v.inum).bind fun linked => ?_
    refine iunlockput_leaves.bind fun _ => ?_
    split
    · exact .last iput_leaves
    · exact linkBad_leaves

/-- `link` drops both inodes on each of its ways out. -/
theorem sysLink_leaves (old new : List UInt8) (mem : cwd ∈ H) :
    Leaves H (sysLink cwd old new) (fun _ => H) := by
  unfold sysLink
  split
  · next old new _ _ =>
    refine transaction_leaves ?_
    refine (namei_leaves old mem).bind fun found => ?_
    cases found with
    | none => exact .pure rfl
    | some ip =>
      refine .locked ip fun v => ?_
      split
      · exact .last iunlockput_leaves
      · refine .after (quiet.setNlink ip _) fun _ => ?_
        refine .after (quiet.iunlock ip) fun _ => ?_
        exact linkEntry_leaves new mem
  · exact .pure rfl

theorem unlinkEntry_leaves (off : Nat) :
    Leaves (ip ::ₘ dp ::ₘ H) (unlinkEntry dp ip off) (fun _ => H) := by
  refine .after (quiet.writeDirent dp off _) fun cleared => ?_
  cases cleared with
  | false => exact fun _ _ => trivial
  | true =>
    refine .after (quiet.inode ip) fun v => ?_
    refine .after (quiet.countParent dp v.type _) fun _ => ?_
    rw [cons_swap]
    refine iunlockput_leaves.bind fun _ => ?_
    refine .after (quiet.setNlink ip _) fun _ => ?_
    exact .last iunlockput_leaves

/-- Both references are dropped, also if the file may not be removed. -/
theorem unlinkFound_leaves (off : Nat) :
    Leaves (ip ::ₘ dp ::ₘ H) (unlinkFound dp ip off) (fun _ => H) := by
  refine .locked ip fun v => ?_
  split
  · exact fun _ _ => trivial
  refine .after (quiet.removable ip) fun ok => ?_
  cases ok with
  | true => exact unlinkEntry_leaves off
  | false =>
    refine iunlockput_leaves.bind fun _ => ?_
    exact .last iunlockput_leaves

/-- `unlink` drops the parent and the file. -/
theorem sysUnlink_leaves (path : List UInt8) (mem : cwd ∈ H) :
    Leaves H (sysUnlink cwd path) (fun _ => H) := by
  unfold sysUnlink
  split
  · exact .pure rfl
  rename_i path _
  refine transaction_leaves ?_
  refine (namex_leaves true path mem).bind fun parent => ?_
  match parent with
  | none => exact .pure rfl
  | some (dp, name) =>
    refine .after (quiet.ilock dp) fun _ => ?_
    split
    · exact .last iunlockput_leaves
    · refine (dirlookup_leaves dp name).bind fun found => ?_
      match found with
      | none => exact .last iunlockput_leaves
      | some (ip, off) => exact unlinkFound_leaves off

theorem getcwdFail_leaves : Leaves (dp ::ₘ ip ::ₘ H) (getcwdFail ip dp) (fun _ => H) := by
  refine iput_leaves.bind fun _ => ?_
  exact .last iput_leaves

/-- `getcwd` has the directory and its parent, and trades them upwards. -/
theorem getcwdLoop_leaves (fuel : Nat) (path : List UInt8) :
    Leaves (ip ::ₘ H) (getcwdLoop fuel ip path) (fun _ => H) := by
  induction fuel generalizing ip path with
  | zero => exact .last iput_leaves
  | succ fuel ih =>
    refine .locked ip fun v => ?_
    refine .after (quiet.iunlock ip) fun _ => ?_
    split
    · exact .last iput_leaves
    refine .after (quiet.ilock ip) fun _ => ?_
    refine (dirlookup_leaves ip dotdot).bind fun found => ?_
    refine .after (quiet.iunlock ip) fun _ => ?_
    match found with
    | none => exact .last iput_leaves
    | some (parent, _) =>
      refine .locked parent fun d => ?_
      refine .after (quiet.scanInum parent v.inum _ _) fun entry => ?_
      refine .after (quiet.iunlock parent) fun _ => ?_
      cases entry with
      | short | absent => exact getcwdFail_leaves
      | found name =>
        dsimp only
        split
        · exact getcwdFail_leaves
        · refine Leaves.bind ?_ fun _ => ih _
          rw [Option.map_some, taken, cons_swap]
          exact iput_leaves

theorem sysGetcwd_leaves (usize : Int) (out : Bool) (mem : cwd ∈ H) :
    Leaves H (sysGetcwd cwd usize out) (fun _ => H) := by
  unfold sysGetcwd
  split
  · exact .pure rfl
  · have path : Leaves H (getcwdPath cwd) (fun _ => H) := by
      refine (idup_leaves mem).bind fun _ => ?_
      exact .last (getcwdLoop_leaves _ [])
    exact .last path

theorem sysExec_leaves (path : List UInt8) (parts : List (Nat × Nat)) (mem : cwd ∈ H) :
    Leaves H (sysExec cwd path parts) (fun _ => H) := by
  unfold sysExec
  split
  · exact .pure rfl
  rename_i path _
  have run : Leaves H (kexec cwd path parts) (fun _ => H) := by
    refine transaction_leaves ?_
    refine (namei_leaves path mem).bind fun found => ?_
    cases found with
    | none => exact .pure rfl
    | some ip =>
      refine .after (quiet.ilock ip) fun _ => ?_
      refine .after (quiet.readParts ip parts) fun _ => ?_
      exact .last iunlockput_leaves
  exact .last run

/-- `open` keeps the inode, unless a check fails. -/
theorem openInode_leaves (path : List UInt8) (omode : Nat) (mem : cwd ∈ H) :
    Leaves H (openInode cwd path omode) (taken H) := by
  unfold openInode
  split
  · exact create_leaves path _ _ _ mem
  refine (namei_leaves path mem).bind fun found => ?_
  cases found with
  | none => exact .pure rfl
  | some ip =>
    refine .locked ip fun v => ?_
    split
    · exact .last iunlockput_leaves
    · exact .pure rfl

/-- `chdir` has the new directory or still the old one. -/
theorem chdir_leaves (path : List UInt8) :
    Leaves (cwd ::ₘ H) (chdir cwd path)
      (fun found => found.elim (cwd ::ₘ H) fun ip => ip ::ₘ H) := by
  refine (namei_leaves path (Multiset.mem_cons_self cwd H)).bind fun found => ?_
  cases found with
  | none => exact .pure rfl
  | some ip =>
    refine .locked ip fun v => ?_
    split
    · exact .last iunlockput_leaves
    refine .after (quiet.iunlock ip) fun _ => ?_
    refine .last ?_
    rw [taken, cons_swap]
    exact iput_leaves

end Counts

end Xv6.Fs
