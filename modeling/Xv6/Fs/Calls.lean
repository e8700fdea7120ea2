import Mathlib.Data.Fintype.Prod
import Xv6.Fs.Files

/-!
# Every call keeps the reference counts

Between calls, the references to files are those of the descriptors, and the references to
inodes are those of the open files and the current directories. Each system call keeps
that, on all its ways out.
-/

namespace Xv6.Fs

open Function (update update_self update_of_ne update_eq_self update_comm)
open Refs (Counted held)
open Multiset (cons_add cons_swap mem_add mem_cons_self)

/-! ## The tables of the processes -/

/-- The references to open files, one for each descriptor. -/
def Tables.descriptors (T : Tables) : Multiset Fp := held fun x : Slot × Fd => T.ofile x.1 x.2

/-- The references to inodes that are current directories. -/
def Tables.directories (T : Tables) : Multiset Ip := held T.cwd

def Tables.setCwd (T : Tables) (p : Slot) (ip : Option Ip) : Tables :=
  { T with cwd := update T.cwd p ip }

def Tables.setProc (T : Tables) (p : Slot) (state : ProcState) : Tables :=
  { T with proc := update T.proc p state }

/-- Who has a current directory is runnable, and who has none has no open files. -/
structure Tables.Ok (T : Tables) : Prop where
  live : ∀ {p ip}, T.cwd p = some ip → T.proc p = .runnable
  idle : ∀ {p}, T.cwd p = none → ∀ fd, T.ofile p fd = none

section Tables

variable {T : Tables} {p np : Slot} {fd : Fd} {f : Fp} {ip : Ip}

theorem setFd_pairs (T : Tables) (p : Slot) (fd : Fd) (r : Option Fp) :
    (fun x : Slot × Fd => (T.setFd p fd r).ofile x.1 x.2) =
      update (fun x : Slot × Fd => T.ofile x.1 x.2) (p, fd) r := by
  funext ⟨q, d⟩
  unfold Tables.setFd
  by_cases proc : q = p
  · subst proc
    by_cases desc : d = fd
    · subst desc
      simp
    · have other : (q, d) ≠ (q, fd) := fun same => desc (congrArg Prod.snd same)
      simp [update_of_ne other, update_of_ne desc]
  · have other : (q, d) ≠ (p, fd) := fun same => proc (congrArg Prod.fst same)
    simp [update_of_ne other, update_of_ne proc]

theorem descriptors_store (free : T.ofile p fd = none) (f : Fp) :
    (T.setFd p fd (some f)).descriptors = f ::ₘ T.descriptors := by
  unfold Tables.descriptors
  rw [setFd_pairs]
  exact Refs.held_store (k := (p, fd)) free f

theorem descriptors_clear (here : T.ofile p fd = some f) :
    T.descriptors = f ::ₘ (T.setFd p fd none).descriptors := by
  unfold Tables.descriptors
  rw [setFd_pairs]
  exact Refs.held_clear (k := (p, fd)) here

theorem directories_store (free : T.cwd p = none) (ip : Ip) :
    (T.setCwd p (some ip)).directories = ip ::ₘ T.directories := Refs.held_store free ip

theorem directories_clear (here : T.cwd p = some ip) :
    T.directories = ip ::ₘ (T.setCwd p none).directories := Refs.held_clear here

theorem mem_directories (here : T.cwd p = some ip) : ip ∈ T.directories :=
  Refs.mem_held.mpr ⟨p, here⟩

theorem setFd_self (T : Tables) (p : Slot) (fd : Fd) (r : Option Fp) :
    (T.setFd p fd r).ofile p fd = r := by simp [Tables.setFd]

theorem setFd_other (r : Option Fp) (other : q ≠ p ∨ d ≠ fd) :
    (T.setFd p fd r).ofile q d = T.ofile q d := by
  have differ : (q, d) ≠ (p, fd) := by
    rintro same
    cases same
    rcases other with other | other
    · exact other rfl
    · exact other rfl
  have pairs := congrFun (setFd_pairs T p fd r) (q, d)
  rw [update_of_ne differ] at pairs
  exact pairs

/-- The rule for a change to one process. -/
theorem Tables.Ok.change {T' : Tables} (ok : T.Ok)
    (other : ∀ q ≠ p, T'.cwd q = T.cwd q ∧ T'.proc q = T.proc q ∧ T'.ofile q = T.ofile q)
    (live : ∀ ip, T'.cwd p = some ip → T'.proc p = .runnable)
    (idle : T'.cwd p = none → ∀ fd, T'.ofile p fd = none) : T'.Ok := by
  constructor
  · intro q ip here
    by_cases same : q = p
    · exact same ▸ live ip (same ▸ here)
    · obtain ⟨cwd, proc, -⟩ := other q same
      rw [proc]
      exact ok.live (cwd.symm.trans here)
  · intro q gone d
    by_cases same : q = p
    · exact same ▸ idle (same ▸ gone) d
    · obtain ⟨cwd, -, ofile⟩ := other q same
      rw [ofile]
      exact ok.idle (cwd.symm.trans gone) d

theorem Tables.Ok.setFd (ok : T.Ok) (here : T.cwd p = some ip) (fd : Fd) (r : Option Fp) :
    (T.setFd p fd r).Ok := by
  refine ok.change (p := p) (fun q other => ⟨rfl, rfl, ?_⟩) (fun _ => ok.live) fun gone => ?_
  · funext d
    exact setFd_other r (.inl other)
  · exact nomatch here.symm.trans gone

end Tables

/-! ## Single operations -/

/-- Nothing is in flight. -/
def Between (sys : Sys) : Prop := ∃ T J, T.Ok ∧ Kept T.descriptors T.directories J T sys

section Ops

variable {α : Type} {D : Multiset Fp} {I J : Multiset Ip} {T : Tables} {sys : Sys} {p q np : Slot}
  {fd : Fd} {f : Fp} {ip dir : Ip}

section

variable (kept : Kept D I J T sys)

include kept

theorem Kept.setFd (p : Slot) (fd : Fd) (r : Option Fp) :
    Kept D I J (T.setFd p fd r) (sys.setFd p fd r) :=
  ⟨kept.counted, kept.closed, kept.pipes, kept.inodes, kept.files, by rw [← kept.tables]; rfl⟩

theorem Kept.setCwd (p : Slot) (ip : Option Ip) :
    Kept D I J (T.setCwd p ip) { sys with cwd := update sys.cwd p ip } :=
  ⟨kept.counted, kept.closed, kept.pipes, kept.inodes, kept.files, by rw [← kept.tables]; rfl⟩

theorem Kept.setProc (p : Slot) (state : ProcState) :
    Kept D I J (T.setProc p state) { sys with proc := update sys.proc p state } :=
  ⟨kept.counted, kept.closed, kept.pipes, kept.inodes, kept.files, by rw [← kept.tables]; rfl⟩

theorem Kept.ofile : sys.ofile = T.ofile :=
  congrArg Tables.ofile kept.tables

theorem Kept.cwd : sys.cwd = T.cwd := congrArg Tables.cwd kept.tables

theorem Kept.proc : sys.proc = T.proc := congrArg Tables.proc kept.tables

/-- `fdalloc` fills an empty descriptor, or there is none. -/
theorem fdalloc_keeps (p : Slot) (f : Fp) :
    KeepsTo (fdalloc p f) (fun new sys' => sys'.ftable = sys.ftable ∧ match new with
      | none => Kept D I J T sys'
      | some fd => T.ofile p fd = none ∧ Kept D I J (T.setFd p fd (some f)) sys') sys := by
  refine .atomic ?_
  split
  · exact ⟨rfl, kept⟩
  · next fd found =>
    have free : sys.ofile p fd = none := by simpa using List.find?_some found
    exact ⟨rfl, kept.ofile ▸ free, kept.setFd p fd (some f)⟩

/-- A call between `begin_op` and `end_op`. -/
theorem inTransaction_keeps
    (run : ∀ sys, Kept D I J T sys → KeepsTo body Q sys)
    (ends : ∀ a sys, Q a sys → KeepsTo (onFs endOp) (fun _ => Q a) sys) :
    KeepsTo (inTransaction body) Q sys := by
  refine (kept.quiet quiet_beginOp).bind fun _ sys kept => ?_
  refine (run sys kept).bind fun a sys after => ?_
  exact (ends a sys after).bind fun _ sys after => after

theorem Kept.even
    (leaves : ∀ H, (∀ e ∈ I, e ∈ H) → Leaves H x fun _ => H) :
    KeepsTo (onFs x) (fun _ sys' => Kept D I J T sys') sys :=
  kept.run fun H => leaves (I + H) fun _ mem => mem_add.mpr (.inl mem)

end

theorem iunlockput_keeps (kept : Kept D (ip ::ₘ I) J T sys) :
    KeepsTo (onFs (iunlockput ip)) (fun _ sys' => Kept D I J T sys') sys := by
  refine kept.run fun H => ?_
  rw [cons_add]
  exact iunlockput_leaves

/-! ## open -/

/-- The file takes over the caller's reference to the inode. -/
theorem Kept.openFile (kept : Kept D (ip ::ₘ I) J T sys) (mem : f ∈ D)
    (unused : (sys.ftable f).type = .none) (v : Inode) (omode : Nat) :
    Kept D I (ip ::ₘ J) T (sys.modifyFile f fun old => old.opened ip v omode) where
  counted := by
    rw [modifyFile_field File.ref]
    exact (update_eq_self f fun f' => (sys.ftable f').ref).symm ▸ kept.counted
  closed f' free := by
    by_cases same : f' = f
    · rw [same, Sys.modifyFile_self] at free
      exact ((kept.counted.mem_iff.mp mem).ne' free).elim
    · rw [Sys.modifyFile_other sys _ same] at free ⊢
      exact kept.closed f' free
  pipes := by
    have noEnd : ((sys.ftable f).opened ip v omode).pipeEnd = (sys.ftable f).pipeEnd := by
      rw [File.closed_pipeEnd unused]
      unfold File.pipeEnd File.opened
      by_cases device : v.type = T_DEVICE <;> simp [device]
    rw [modifyFile_field File.pipeEnd, noEnd]
    exact (update_eq_self f fun f' => (sys.ftable f').pipeEnd).symm ▸ kept.pipes
  inodes := by
    rw [Multiset.add_cons, ← cons_add]
    exact kept.inodes
  files := by
    have opened : ((sys.ftable f).opened ip v omode).holds = some ip := by
      unfold File.holds File.opened
      by_cases device : v.type = T_DEVICE <;> simp [device]
    unfold Sys.fileInodes
    rw [modifyFile_field File.holds, opened, ← kept.files]
    exact Refs.held_store (t := fun f' => (sys.ftable f').holds) (File.closed_holds unused) ip
  tables := kept.tables

theorem openFile_keeps (omode : Nat) (kept : Kept D (ip ::ₘ I) J T sys) (mem : f ∈ D)
    (unused : (sys.ftable f).type = .none) :
    KeepsTo (openFile f ip omode) (fun _ sys' => Kept D I (ip ::ₘ J) T sys') sys := by
  have read : KeepsTo (onFs (inode ip)) (fun _ sys' => sys' = sys) sys := rfl
  refine read.bind fun v sys' same => ?_
  rw [same]
  have modified : KeepsTo (modifyFile f fun old => old.opened ip v omode)
      (fun _ sys' => Kept D I (ip ::ₘ J) T sys') sys := kept.openFile mem unused v omode
  refine modified.bind fun _ sys kept => ?_
  refine (kept.quiet (quiet.truncate ip omode)).bind fun _ sys kept => ?_
  exact kept.quiet (quiet.iunlock ip)

/-- The outcome of `sys_open`: nothing has changed, or there is a descriptor for a file that
holds an inode. -/
def Opened (p : Slot) (I J : Multiset Ip) (T : Tables) (r : Option Nat) (sys : Sys) : Prop :=
  match r with
  | none => Kept T.descriptors I J T sys
  | some _ => ∃ fd f ip, T.ofile p fd = none ∧
      Kept (T.setFd p fd (some f)).descriptors I (ip ::ₘ J) (T.setFd p fd (some f)) sys

/-- Each failure after `create` or `namei` drops what has been taken. -/
theorem openLocked_keeps (p : Slot) (omode : Nat) (kept : Kept T.descriptors (ip ::ₘ I) J T sys) :
    KeepsTo (openLocked p ip omode) (Opened p I J T) sys := by
  refine (filealloc_keeps kept).bind fun new sys after => ?_
  match new with
  | none => exact (iunlockput_keeps after).bind fun _ sys kept => kept
  | some f =>
    obtain ⟨kept, unused, -, -⟩ := after
    refine (fdalloc_keeps kept p f).bind fun new sys after => ?_
    obtain ⟨files, after⟩ := after
    rw [← files] at unused
    match new with
    | none =>
      refine (fileclose_keeps after).bind fun _ sys ⟨J', kept, same⟩ => ?_
      cases same unused
      exact (iunlockput_keeps kept).bind fun _ sys kept => kept
    | some fd =>
      obtain ⟨free, kept⟩ := after
      have mem : f ∈ f ::ₘ T.descriptors := mem_cons_self f T.descriptors
      refine (openFile_keeps omode kept mem unused).bind fun _ sys kept => ?_
      refine ⟨fd, f, ip, free, ?_⟩
      rw [descriptors_store free]
      exact kept

theorem sysOpen_keeps (path : List UInt8) (omode : Nat) (mem : dir ∈ I)
    (kept : Kept T.descriptors I J T sys) :
    KeepsTo (sysOpen p dir path omode) (Opened p I J T) sys := by
  unfold sysOpen
  split
  · exact kept
  rename_i path _
  refine inTransaction_keeps kept (fun sys kept => ?_) fun r sys after => ?_
  · have opened : KeepsTo (onFs (openInode dir path omode))
        (fun r sys' => Kept T.descriptors (taken I r) J T sys') sys := by
      refine kept.run fun H s refs => ?_
      have leaves := openInode_leaves path omode (mem_add.mpr (.inl mem)) s refs
      simpa only [taken_add] using leaves
    refine opened.bind fun found sys kept => ?_
    cases found with
    | none => exact kept
    | some ip =>
      have read : KeepsTo (onFs (inode ip))
        (fun _ sys' => Kept T.descriptors (ip ::ₘ I) J T sys') sys := kept
      refine read.bind fun v sys kept => ?_
      split
      · exact (iunlockput_keeps kept).bind fun _ sys kept => kept
      · exact openLocked_keeps p omode kept
  · cases r with
    | none => exact Kept.quiet after quiet_endOp
    | some _ =>
      obtain ⟨fd, f, ip, free, kept⟩ := after
      exact (kept.quiet quiet_endOp).imp fun _ sys kept => ⟨fd, f, ip, free, kept⟩

/-! ## Descriptors -/

section

variable (ok : T.Ok) (kept : Kept T.descriptors T.directories J T sys)

include ok kept

theorem Kept.between : Between sys :=
  ⟨T, J, ok, kept⟩

/-- `close` empties the descriptor and drops its reference. -/
theorem sysClose_keeps (here : T.cwd p = some dir) (refers : T.ofile p fd = some f) :
    KeepsTo (sysClose p fd f) (fun _ => Between) sys := by
  have cleared := kept.setFd p fd none
  rw [descriptors_clear refers] at cleared
  have start : KeepsTo (Xv6.Fs.setFd p fd none) (fun _ sys' => Kept
      (f ::ₘ (T.setFd p fd none).descriptors) T.directories J (T.setFd p fd none) sys') sys :=
        cleared
  refine start.bind fun _ sys kept => ?_
  exact (fileclose_keeps kept).bind fun _ sys ⟨J', kept, _⟩ => kept.between (ok.setFd here fd none)

theorem sysDup_keeps (here : T.cwd p = some dir) : KeepsTo (sysDup p f) (fun _ => Between) sys := by
  refine (fdalloc_keeps kept p f).bind fun new sys after => ?_
  match new with
  | none => exact after.2.between ok
  | some fd =>
    obtain ⟨-, free, kept⟩ := after
    refine (filedup_keeps kept f).bind fun _ sys kept => ?_
    rw [← descriptors_store free] at kept
    exact kept.between (ok.setFd here fd (some f))

end

section

variable (kept : Kept D I J T sys)

include kept

theorem Kept.file (f : Fp) :
    KeepsTo (file f) (fun _ sys' => Kept D I J T sys') sys := kept

theorem filestat_keeps (f : Fp) (out : Bool) :
    KeepsTo (filestat f out) (fun _ sys' => Kept D I J T sys') sys := by
  refine (kept.file f).bind fun v sys kept => ?_
  split
  · refine (kept.quiet ?_).bind fun _ sys kept => kept
    exact (quiet.ilock v.ip).bind fun _ => quiet.iunlock v.ip
  · exact kept

theorem modifyOff_keeps (f : Fp) (g : Nat → Nat) :
    KeepsTo (modifyFile f fun v => { v with off := g v.off })
      (fun _ sys' => Kept D I J T sys') sys :=
  kept.assign (fun _ => rfl) (fun _ => rfl) (fun _ => rfl) fun _ => rfl

theorem fileread_keeps (f : Fp) (dst : Nat → Bool) (n : Int) :
    KeepsTo (fileread f dst n) (fun _ sys' => Kept D I J T sys') sys := by
  refine (kept.file f).bind fun v sys kept => ?_
  split
  · exact kept
  split
  · exact kept
  · exact kept
  · trivial
  refine (kept.quiet (quiet.ilock v.ip)).bind fun _ sys kept => ?_
  refine (kept.file f).bind fun v sys kept => ?_
  refine (kept.quiet (quiet.readi v.ip dst _ _)).bind fun bytes sys kept => ?_
  refine (modifyOff_keeps kept f (· + (bytes.getD []).length)).bind fun _ sys kept => ?_
  exact (kept.quiet (quiet.iunlock v.ip)).bind fun _ sys kept => kept

theorem writeChunk_keeps (f : Fp) (src : Nat → Option UInt8) (i n1 : Nat) :
    KeepsTo (writeChunk f src i n1) (fun _ sys' => Kept D I J T sys') sys := by
  refine inTransaction_keeps kept (fun sys kept => ?_) fun _ sys kept => kept.quiet quiet_endOp
  refine (kept.file f).bind fun v sys kept => ?_
  refine (kept.quiet (quiet.ilock v.ip)).bind fun _ sys kept => ?_
  refine (kept.file f).bind fun v sys kept => ?_
  refine (kept.quiet (quiet.writei v.ip _ _ _)).bind fun r sys kept => ?_
  refine (modifyOff_keeps kept f (· + r.getD 0)).bind fun _ sys kept => ?_
  exact (kept.quiet (quiet.iunlock v.ip)).bind fun _ sys kept => kept

theorem writeChunks_keeps (f : Fp) (src : Nat → Option UInt8)
    (n fuel i : Nat) :
    KeepsTo (writeChunks f src n fuel i) (fun _ sys' => Kept D I J T sys') sys := by
  induction fuel generalizing sys i with
  | zero => exact kept
  | succ fuel ih =>
    unfold writeChunks
    split
    · refine (writeChunk_keeps kept f src _ _).bind fun r sys kept => ?_
      split
      · exact ih kept _
      · exact kept
    · exact kept

/-- `filewrite` takes and drops nothing. -/
theorem filewrite_keeps (f : Fp) (src : Nat → Option UInt8) (n : Int) :
    KeepsTo (filewrite f src n) (fun _ sys' => Kept D I J T sys') sys := by
  refine (kept.file f).bind fun v sys kept => ?_
  split
  · exact kept
  split
  · exact kept
  · exact kept
  · trivial
  · exact (writeChunks_keeps kept f src _ _ _).bind fun _ sys kept => kept

end

/-! ## chdir -/

/-- `chdir` trades the old directory's reference for the new one. -/
theorem sysChdir_keeps (ok : T.Ok) (kept : Kept T.descriptors T.directories J T sys)
    (here : T.cwd p = some dir) (path : List UInt8) :
    KeepsTo (sysChdir p dir path) (fun _ => Between) sys := by
  have others := directories_clear here
  refine Prog.Ends.bind (Q := fun r sys' => Kept T.descriptors
    (r.elim T.directories fun ip => ip ::ₘ (T.setCwd p none).directories) J T sys') ?_
    fun r sys kept => ?_
  · refine kept.run fun H => transaction_leaves ?_
    split
    · exact .pure rfl
    rename_i path _
    intro s refs
    rw [others, cons_add] at refs
    refine (chdir_leaves path s refs).imp fun r s refs => ?_
    cases r with
    | none =>
      show Referenced (T.directories + H) s
      rw [others, cons_add]
      exact refs
    | some ip =>
      show Referenced ((ip ::ₘ (T.setCwd p none).directories) + H) s
      rw [cons_add]
      exact refs
  cases r with
  | none => exact kept.between ok
  | some ip =>
    have moved := kept.setCwd p (some ip)
    have directories : (T.setCwd p (some ip)).directories =
        ip ::ₘ (T.setCwd p none).directories := by
      have clear : T.setCwd p (some ip) = (T.setCwd p none).setCwd p (some ip) := by
        simp [Tables.setCwd]
      rw [clear]
      exact directories_store (by simp [Tables.setCwd]) ip
    rw [Option.elim_some, ← directories] at moved
    refine Kept.between (T := T.setCwd p (some ip)) ?_ moved
    refine ok.change (p := p) (fun q other => ⟨update_of_ne other _ _, rfl, rfl⟩)
      (fun _ _ => ok.live here) fun gone => ?_
    cases (update_self ..).symm.trans gone

/-! ## pipe -/

theorem setEnds_field {β : Type} (field : File → β) (differ : f1 ≠ f0) (sys : Sys) (pi : Nat) :
    (fun f => field (((sys.modifyFile f0 fun v => v.toEnd pi false).modifyFile f1 fun v =>
      v.toEnd pi true).ftable f)) =
      update (update (fun f => field (sys.ftable f)) f0
        (field ((sys.ftable f0).toEnd pi false))) f1 (field ((sys.ftable f1).toEnd pi true)) := by
  rw [modifyFile_field, modifyFile_field, Sys.modifyFile_other sys _ differ]

/-- Two fresh files become the two ends of a new pipe. -/
theorem Kept.setEnds (kept : Kept D I J T sys) (mem0 : f0 ∈ D) (mem1 : f1 ∈ D) (differ : f1 ≠ f0)
    (unused0 : (sys.ftable f0).type = .none) (unused1 : (sys.ftable f1).type = .none) :
    Kept D I J T ((sys.addPipe.modifyFile f0 fun v => v.toEnd sys.npipe false).modifyFile f1
      fun v => v.toEnd sys.npipe true) where
  counted := by
    have refs := setEnds_field File.ref differ sys.addPipe sys.npipe
    have same1 : update (fun f => (sys.ftable f).ref) f0 (sys.ftable f0).ref =
      fun f => (sys.ftable f).ref := update_eq_self ..
    have same2 : update (fun f => (sys.ftable f).ref) f1 (sys.ftable f1).ref =
      fun f => (sys.ftable f).ref := update_eq_self ..
    rw [refs]
    show Counted (update (update (fun f => (sys.ftable f).ref) f0
      (sys.ftable f0).ref) f1 (sys.ftable f1).ref) D
    rw [same1, same2]
    exact kept.counted
  closed f free := by
    by_cases is1 : f = f1
    · rw [is1, Sys.modifyFile_self, Sys.modifyFile_other _ _ differ] at free
      exact ((kept.counted.mem_iff.mp mem1).ne' free).elim
    rw [Sys.modifyFile_other _ _ is1] at free ⊢
    by_cases is0 : f = f0
    · rw [is0, Sys.modifyFile_self] at free
      exact ((kept.counted.mem_iff.mp mem0).ne' free).elim
    · rw [Sys.modifyFile_other _ _ is0] at free ⊢
      exact kept.closed f free
  pipes := by
    rw [setEnds_field File.pipeEnd differ]
    exact kept.pipes.create (File.closed_pipeEnd unused0) (File.closed_pipeEnd unused1) differ
  inodes := kept.inodes
  files := by
    have same1 : update (fun f => (sys.ftable f).holds) f0 none =
        fun f => (sys.ftable f).holds := by
      rw [← File.closed_holds unused0]
      exact update_eq_self ..
    have same2 : update (fun f => (sys.ftable f).holds) f1 none =
        fun f => (sys.ftable f).holds := by
      rw [← File.closed_holds unused1]
      exact update_eq_self ..
    unfold Sys.fileInodes
    rw [setEnds_field File.holds differ]
    show held (update (update (fun f => (sys.ftable f).holds) f0 none) f1 none) = J
    rw [same1, same2]
    exact kept.files
  tables := kept.tables

/-- A `pipealloc` that fails closes the files it has. -/
theorem pipeFail_keeps (kept : Kept (wf ::ₘ rf ::ₘ D) I J T sys) :
    KeepsTo (pipeFail rf wf) (fun _ sys' => ∃ J, Kept D I J T sys') sys := by
  rw [cons_swap] at kept
  refine (fileclose_keeps kept).bind fun _ sys ⟨J', kept, _⟩ => ?_
  exact (fileclose_keeps kept).bind fun _ sys ⟨J', kept, _⟩ => ⟨J', kept⟩

theorem pipealloc_keeps (mem : Bool) (kept : Kept D I J T sys) :
    KeepsTo (pipealloc mem) (fun r sys' => match r with
      | none => ∃ J, Kept D I J T sys'
      | some (rf, wf) => ∃ J, Kept (wf ::ₘ rf ::ₘ D) I J T sys') sys := by
  refine (filealloc_keeps kept).bind fun f0 sys after => ?_
  match f0 with
  | none => exact ⟨J, after⟩
  | some f0 =>
    obtain ⟨kept, unused0, -, -⟩ := after
    refine (filealloc_keeps kept).bind fun f1 sys after => ?_
    match f1 with
    | none =>
      exact (fileclose_keeps after).bind fun _ sys ⟨J', kept, _⟩ => ⟨J', kept⟩
    | some f1 =>
      obtain ⟨kept, unused1, out, same⟩ := after
      have mem0 := mem_cons_self f0 D
      rw [← same f0 mem0] at unused0
      have differ : f1 ≠ f0 := fun eq => out (eq ▸ mem0)
      cases mem with
      | true =>
        exact ⟨J, kept.setEnds (Multiset.mem_cons_of_mem mem0)
          (mem_cons_self f1 _) differ unused0 unused1⟩
      | false =>
        rw [cons_swap] at kept
        refine (fileclose_keeps kept).bind fun _ sys ⟨J', kept, _⟩ => ?_
        exact (fileclose_keeps kept).bind fun _ sys ⟨J', kept, _⟩ => ⟨J', kept⟩

theorem setFd_undo (free : T.ofile p fd = none) (r : Option Fp) :
    (T.setFd p fd r).setFd p fd none = T := by
  have same : update (T.ofile p) fd none = T.ofile p := by
    rw [← free]
    exact update_eq_self ..
  simp [Tables.setFd, same]

theorem setFd_comm (T : Tables) (p : Slot) (differ : fd ≠ fd') (r r' : Option Fp) :
    (T.setFd p fd r).setFd p fd' r' = (T.setFd p fd' r').setFd p fd r := by
  simp [Tables.setFd, update_comm differ]

/-- Each failure of `pipe` empties the descriptors that have been filled. -/
theorem pipeFds_keeps (out : Bool) (ok : T.Ok) (here : T.cwd p = some dir)
    (kept : Kept (wf ::ₘ rf ::ₘ T.descriptors) T.directories J T sys) :
    KeepsTo (pipeFds p rf wf out) (fun _ => Between) sys := by
  have fail {sys : Sys} (kept : Kept (wf ::ₘ rf ::ₘ T.descriptors) T.directories J T sys) :
      KeepsTo (pipeFail rf wf) (fun _ => Between) sys :=
    (pipeFail_keeps kept).imp fun _ sys ⟨_, kept⟩ => kept.between ok
  refine (fdalloc_keeps kept p rf).bind fun new sys after => ?_
  match new with
  | none => exact fail after.2
  | some fd0 =>
    obtain ⟨-, free0, kept⟩ := after
    refine (fdalloc_keeps kept p wf).bind fun new sys after => ?_
    match new with
    | none =>
      have undone := after.2.setFd p fd0 none
      rw [setFd_undo free0] at undone
      have start : KeepsTo (Xv6.Fs.setFd p fd0 none) (fun _ sys' => Kept
        (wf ::ₘ rf ::ₘ T.descriptors) T.directories J T sys') sys := undone
      exact start.bind fun _ sys kept => fail kept
    | some fd1 =>
      obtain ⟨-, free1, kept⟩ := after
      have differ : fd0 ≠ fd1 := by
        rintro rfl
        exact nomatch (setFd_self T p fd0 (some rf)).symm.trans free1
      cases out with
      | true =>
        rw [← descriptors_store free0, ← descriptors_store free1] at kept
        exact kept.between ((ok.setFd here fd0 _).setFd here fd1 _)
      | false =>
        have undone := (kept.setFd p fd0 none).setFd p fd1 none
        rw [setFd_comm _ _ differ.symm, setFd_undo free0] at undone
        have free1 : T.ofile p fd1 = none :=
          (setFd_other (some rf) (.inr differ.symm)).symm.trans free1
        rw [setFd_undo free1] at undone
        have start : KeepsTo (do
            Xv6.Fs.setFd p fd0 none
            Xv6.Fs.setFd p fd1 none) (fun _ sys' => Kept
          (wf ::ₘ rf ::ₘ T.descriptors) T.directories J T sys') sys := undone
        exact start.bind fun _ sys kept => fail kept

theorem sysPipe_keeps (mem out : Bool) (ok : T.Ok) (here : T.cwd p = some dir)
    (kept : Kept T.descriptors T.directories J T sys) :
    KeepsTo (sysPipe p mem out) (fun _ => Between) sys := by
  refine (pipealloc_keeps mem kept).bind fun ends sys after => ?_
  match ends with
  | none =>
    obtain ⟨J', kept⟩ := after
    exact kept.between ok
  | some (rf, wf) =>
    obtain ⟨J', kept⟩ := after
    exact pipeFds_keeps out ok here kept

/-! ## Processes -/

/-- `fork` takes a reference for each descriptor of the child. -/
theorem dupFiles_keeps (p np : Slot) (nodup : fds.Nodup) (kept : Kept T.descriptors I J T sys)
    (empty : ∀ fd ∈ fds, T.ofile np fd = none) :
    KeepsTo (dupFiles p np fds) (fun _ sys' => ∃ T', Kept T'.descriptors I J T' sys' ∧
      T'.cwd = T.cwd ∧ T'.proc = T.proc ∧ ∀ q ≠ np, T'.ofile q = T.ofile q) sys := by
  induction fds generalizing T sys with
  | nil => exact ⟨T, kept, rfl, rfl, fun _ _ => rfl⟩
  | cons fd fds ih =>
    obtain ⟨fresh, nodup⟩ := List.nodup_cons.mp nodup
    have rest := fun fd' mem => empty fd' (List.mem_cons_of_mem fd mem)
    refine Prog.Ends.after_read ?_
    split
    · exact ih nodup kept rest
    rename_i f _
    have free := empty fd List.mem_cons_self
    refine (filedup_keeps kept f).bind fun _ sys kept => ?_
    have stored : KeepsTo (Xv6.Fs.setFd np fd (some f)) (fun _ sys' => Kept
        (T.setFd np fd (some f)).descriptors I J (T.setFd np fd (some f)) sys') sys := by
      rw [descriptors_store free]
      exact kept.setFd np fd (some f)
    refine stored.bind fun _ sys kept => ?_
    refine (ih nodup kept fun fd' mem => ?_).imp
      fun _ sys' ⟨T', kept, cwd, proc, others⟩ => ⟨T', kept, cwd, proc, fun q other => ?_⟩
    · have other : fd' ≠ fd := by
        rintro rfl
        exact fresh mem
      rw [setFd_other _ (.inr other)]
      exact rest fd' mem
    · rw [others q other]
      funext d
      exact setFd_other _ (.inl other)

theorem Tables.Ok.born {T' : Tables} (ok : T.Ok) (cwd : T'.cwd = T.cwd)
    (proc : T'.proc = update T.proc np .used) (ofile : ∀ q ≠ np, T'.ofile q = T.ofile q) (ip : Ip) :
    ((T'.setCwd np (some ip)).setProc np .runnable).Ok := by
  refine ok.change (p := np) (fun q other => ⟨?_, ?_, ofile q other⟩) (fun _ _ => update_self ..)
    fun gone => ?_
  · exact (update_of_ne other _ _).trans (congrFun cwd q)
  · refine (update_of_ne other _ _).trans ((congrFun proc q).trans (update_of_ne other _ _))
  · exact nomatch (update_self ..).symm.trans gone

/-- A state that is neither the old nor the new one's to run in. -/
theorem Tables.Ok.setProc {state : ProcState} (ok : T.Ok) (gone : T.cwd q = none) :
    (T.setProc q state).Ok := by
  refine ok.change (p := q) (fun q' other => ⟨rfl, update_of_ne other _ _, rfl⟩) (fun ip here => ?_)
    ok.idle
  exact nomatch gone.symm.trans here

theorem Tables.Ok.gone (ok : T.Ok) (notRunnable : T.proc q ≠ .runnable) : T.cwd q = none := by
  cases here : T.cwd q with
  | none => rfl
  | some ip => exact (notRunnable (ok.live here)).elim

/-- A child has its own references, to the files and to the directory. -/
theorem newProc_keeps (mem : Bool) (ok : T.Ok) (kept : Kept T.descriptors T.directories J T sys)
    (here : T.cwd p = some dir) : KeepsTo (newProc p dir mem) (fun _ => Between) sys := by
  have start : KeepsTo allocproc (fun new sys' => match new with
      | some np => T.proc np = .unused ∧
          Kept (T.setProc np .used).descriptors T.directories J (T.setProc np .used) sys'
      | none => Kept T.descriptors T.directories J T sys') sys := by
    refine .atomic ?_
    split
    · exact kept
    · next np found =>
      have unused : sys.proc np = .unused := by simpa using List.find?_some found
      exact ⟨kept.proc ▸ unused, kept.setProc np .used⟩
  refine start.bind fun new sys after => ?_
  match new with
  | none => exact after.between ok
  | some np =>
    obtain ⟨unused, kept⟩ := after
    have gone : T.cwd np = none := ok.gone (by rw [unused]; nofun)
    cases mem with
    | false =>
      have back : KeepsTo (setProc np .unused) (fun _ => Between) sys :=
        Kept.between ((ok.setProc gone).setProc gone) (kept.setProc np .unused)
      exact back.bind fun _ sys between => between
    | true =>
      refine (dupFiles_keeps p np (List.nodup_finRange _) kept
        fun fd _ => ok.idle gone fd).bind fun _ sys ⟨T', kept, cwd, proc, others⟩ => ?_
      have directories : T'.directories = T.directories := by
        unfold Tables.directories
        rw [cwd]
        rfl
      have dup : KeepsTo (onFs (idup dir)) (fun _ sys' => Kept T'.descriptors
          (dir ::ₘ T'.directories) J T' sys') sys := by
        refine kept.run fun H s refs => ?_
        rw [directories]
        refine (idup_leaves (mem_add.mpr (.inl (mem_directories here))) s refs).imp ?_
        intro _ s refs
        rwa [← cons_add] at refs
      refine dup.bind fun _ sys kept => ?_
      have gone' : T'.cwd np = none := by
        rw [cwd]
        exact gone
      rw [← directories_store gone'] at kept
      have done := (kept.setCwd np (some dir)).setProc np .runnable
      exact Kept.between (ok.born cwd proc others dir) done

/-- `exit` drops the references of all descriptors. -/
theorem closeFiles_keeps (p : Slot) (fds : List Fd) (kept : Kept T.descriptors I J T sys) :
    KeepsTo (closeFiles p fds) (fun _ sys' => ∃ T' J', Kept T'.descriptors I J' T' sys' ∧
      T'.cwd = T.cwd ∧ T'.proc = T.proc ∧ (∀ q ≠ p, T'.ofile q = T.ofile q) ∧
      ∀ fd, fd ∈ fds ∨ T.ofile p fd = none → T'.ofile p fd = none) sys := by
  induction fds generalizing T J sys with
  | nil =>
    refine ⟨T, J, kept, rfl, rfl, fun _ _ => rfl, fun fd empty => ?_⟩
    rcases empty with mem | empty
    · cases mem
    · exact empty
  | cons fd fds ih =>
    refine Prog.Ends.after_read ?_
    rw [kept.ofile]
    split
    · next empty =>
      refine (ih kept).imp fun _ sys' ⟨T', J', kept, cwd, proc, others, cleared⟩ => ?_
      refine ⟨T', J', kept, cwd, proc, others, fun d mem => cleared d ?_⟩
      rcases mem with mem | already
      · rcases List.mem_cons.mp mem with rfl | mem
        · exact .inr empty
        · exact .inl mem
      · exact .inr already
    · next f refers =>
      rw [descriptors_clear refers] at kept
      refine (fileclose_keeps kept).bind fun _ sys ⟨J1, kept, _⟩ => ?_
      have clear : KeepsTo (Xv6.Fs.setFd p fd none) (fun _ sys' => Kept
        (T.setFd p fd none).descriptors I J1 (T.setFd p fd none) sys') sys :=
        kept.setFd p fd none
      refine clear.bind fun _ sys kept => (ih kept).imp fun _ sys' after => ?_
      obtain ⟨T', J', kept, cwd, proc, others, cleared⟩ := after
      refine ⟨T', J', kept, cwd, proc, fun q other => (others q other).trans ?_,
        fun d mem => cleared d ?_⟩
      · funext d
        exact setFd_other _ (.inl other)
      by_cases same : d = fd
      · rw [same]
        exact .inr (setFd_self ..)
      · rcases mem with mem | already
        · exact .inl ((List.mem_cons.mp mem).resolve_left same)
        · exact .inr ((setFd_other _ (.inr same)).trans already)

theorem Tables.Ok.died {T' : Tables} (ok : T.Ok) (cwd : T'.cwd = T.cwd) (proc : T'.proc = T.proc)
    (ofile : ∀ q ≠ p, T'.ofile q = T.ofile q) (closed : ∀ fd, T'.ofile p fd = none) :
    ((T'.setCwd p none).setProc p .zombie).Ok := by
  refine ok.change (p := p) (fun q other => ⟨?_, ?_, ofile q other⟩) (fun ip here => ?_)
    fun _ => closed
  · exact (update_of_ne other _ _).trans (congrFun cwd q)
  · exact (update_of_ne other _ _).trans (congrFun proc q)
  · exact nomatch (update_self ..).symm.trans here

/-- After `exit` the process has no reference at all. -/
theorem kexit_keeps (ok : T.Ok) (kept : Kept T.descriptors T.directories J T sys)
    (here : T.cwd p = some dir) : KeepsTo (kexit p dir) (fun _ => Between) sys := by
  unfold kexit
  split
  · trivial
  refine (closeFiles_keeps p _ kept).bind
    fun _ sys ⟨T', J', kept, cwd, proc, others, closed⟩ => ?_
  have directories : T.directories = dir ::ₘ (T'.setCwd p none).directories := by
    rw [directories_clear here]
    unfold Tables.directories Tables.setCwd
    rw [cwd]
  rw [directories] at kept
  refine (iput_keeps kept).bind fun _ sys kept => ?_
  have done := (kept.setCwd p none).setProc p .zombie
  exact Kept.between (ok.died cwd proc others fun fd =>
    closed fd (.inl (List.mem_finRange fd))) done

theorem reap_keeps (ok : T.Ok) (kept : Kept T.descriptors T.directories J T sys) (q : Slot) :
    KeepsTo (reap q) (fun _ => Between) sys := by
  refine .atomic ?_
  split
  · next zombie =>
    rw [kept.proc] at zombie
    have gone : T.cwd q = none := ok.gone (by rw [zombie]; nofun)
    exact Kept.between (ok.setProc gone) (kept.setProc q .unused)
  · exact kept.between ok

/-! ## All calls -/

/-- A call on a descriptor, which may refer to no file. -/
theorem withFile_keeps {fd : Int} (kept : Kept T.descriptors T.directories J T sys) (ok : T.Ok)
    (run : ∀ fd f, T.ofile p fd = some f → KeepsTo (body fd f) (fun _ => Between) sys) :
    KeepsTo (withFile p fd body) (fun _ => Between) sys := by
  unfold withFile
  split
  · exact kept.between ok
  rename_i fd _
  refine Prog.Ends.after_read ?_
  rw [kept.ofile]
  split
  · exact kept.between ok
  · next f refers => exact run fd f refers

/-- **Every call keeps the reference counts.** -/
theorem call_keeps (between : Between sys) (here : sys.cwd p = some dir) (op : Op) :
    KeepsTo (call p dir op) (fun _ => Between) sys := by
  obtain ⟨T, J, ok, kept⟩ := between
  rw [kept.cwd] at here
  have mem := mem_directories here
  have done {sys' : Sys} (kept : Kept T.descriptors T.directories J T sys') : Between sys' :=
    kept.between ok
  cases op with
  | «open» path omode =>
    refine (sysOpen_keeps path omode mem kept).imp fun r sys after => ?_
    cases r with
    | none => exact done after
    | some _ =>
      obtain ⟨fd, f, ip, -, kept⟩ := after
      exact kept.between (ok.setFd here fd _)
  | close fd => exact withFile_keeps kept ok fun fd f refers => sysClose_keeps ok kept here refers
  | dup fd => exact withFile_keeps kept ok fun fd f _ => sysDup_keeps ok kept here
  | read fd dst n =>
    exact withFile_keeps kept ok fun _ f _ => (fileread_keeps kept f dst n).imp fun _ _ => done
  | write fd src n =>
    exact withFile_keeps kept ok fun _ f _ => (filewrite_keeps kept f src n).imp fun _ _ => done
  | fstat fd out =>
    exact withFile_keeps kept ok fun _ f _ => (filestat_keeps kept f out).imp fun _ _ => done
  | link old new =>
    exact (kept.even fun H all => sysLink_leaves old new (all dir mem)).imp fun _ _ => done
  | unlink path =>
    exact (kept.even fun H all => sysUnlink_leaves path (all dir mem)).imp fun _ _ => done
  | mkdir path | mknod path major minor =>
    exact (kept.even fun H all => makeNode_leaves path _ _ _ (all dir mem)).imp fun _ _ => done
  | chdir path => exact sysChdir_keeps ok kept here path
  | getcwd usize out =>
    refine (kept.even fun H all => ?_).imp fun _ _ => done
    exact (sysGetcwd_leaves usize out (all dir mem)).bind fun _ => .pure rfl
  | exec path parts =>
    exact (kept.even fun H all => sysExec_leaves path parts (all dir mem)).imp fun _ _ => done
  | pipe mem out => exact sysPipe_keeps mem out ok here kept
  | fork mem | clone mem => exact newProc_keeps mem ok kept here
  | exit => exact kexit_keeps ok kept here
  | wait q => exact reap_keeps ok kept q
  | reclaim =>
    exact (kept.even fun H _ => ireclaim_leaves.bind fun _ => .pure rfl).imp fun _ _ => done

end Ops

end Xv6.Fs
