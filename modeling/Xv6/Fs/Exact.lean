import Xv6.Fs.Calls

/-!
# Reference counts are exact

In every run of system calls, the reference count of each open file is the number of
descriptors that point to it, a pipe is freed once, when neither of its ends has a
descriptor any more, and the reference count of each entry of the inode table is the
number of open files and current directories that point to it.
-/

namespace Xv6.Fs

open Refs (Counted held)

/-! ## Every reachable state -/

theorem boot_directories (sb : Superblock) (disk : Disk) :
    (boot sb disk).tables.directories = {⟨0, by decide⟩} := by
  have here : (boot sb disk).tables.cwd ⟨0, by decide⟩ = some ⟨0, by decide⟩ := rfl
  have others : ((boot sb disk).tables.setCwd ⟨0, by decide⟩ none).directories = 0 := by
    refine Refs.held_none fun p => ?_
    show Function.update (boot sb disk).cwd ⟨0, by decide⟩ none p = none
    by_cases first : p = ⟨0, by decide⟩
    · rw [first, Function.update_self]
    · have other : p.val ≠ 0 := fun zero => first (Fin.ext zero)
      rw [Function.update_of_ne first]
      exact if_neg other
  rw [directories_clear here, others]
  rfl

theorem boot_between (sb : Superblock) (disk : Disk) : Between (boot sb disk) := by
  refine ⟨(boot sb disk).tables, 0, ⟨?_, fun _ _ => rfl⟩,
    ⟨?_, fun _ _ => rfl, .boot, ⟨?_, ?_⟩, ?_, rfl⟩⟩
  · intro p ip here
    by_cases first : p.val = 0
    · exact if_pos first
    · exact nomatch (if_neg first : (boot sb disk).tables.cwd p = none).symm.trans here
  · have none : (boot sb disk).tables.descriptors = 0 := Refs.held_none fun _ => rfl
    rw [none]
    exact fun _ => rfl
  · rw [boot_directories, add_zero]
    intro e
    by_cases first : e = ⟨0, by decide⟩
    · rw [first]
      simp [boot]
    · have other : e.val ≠ 0 := fun zero => first (Fin.ext zero)
      rw [Multiset.count_singleton, if_neg first]
      simp [boot, other]
  · rw [boot_directories, add_zero]
    intro e mem e' mem' _
    rw [Multiset.mem_singleton.mp mem, Multiset.mem_singleton.mp mem']
  · exact Refs.held_none fun _ => rfl

theorem step_between (between : Between m.sys) (step : exec m label = some (m', value)) :
    Between m'.sys := by
  obtain ⟨-, cwd, here, ended⟩ := exec_cases step
  rcases ended with ⟨sys, run, rfl⟩ | ⟨e, run, rfl⟩
  · have ends := (call_keeps between here label.2).run
    rw [run] at ends
    exact ends
  · exact between

theorem reachable_between (reach : system.Reachable m) : Between m.sys := by
  refine reach.invariant (P := fun m => Between m.sys) ?_ ?_
  · rintro m ⟨sb, disk, rfl⟩
    exact boot_between sb disk
  · rintro m ⟨label, value⟩ m' between step
    exact step_between between step

/-! ## Open files -/

/-- How many descriptors point to `f`. -/
def Sys.pointers (sys : Sys) (f : Fp) : Nat :=
  (Finset.univ.filter fun x : Slot × Fd => sys.ofile x.1 x.2 = some f).card

def Sys.RefersTo (sys : Sys) (pi : Nat) : Prop :=
  ∃ p fd f, sys.ofile p fd = some f ∧ (sys.ftable f).type = .pipe ∧ (sys.ftable f).pipe = pi

theorem File.pipeEnd_iff {v : File} :
    (∃ w, v.pipeEnd = some (pi, w)) ↔ v.type = .pipe ∧ v.pipe = pi := by
  unfold File.pipeEnd
  cases v.type <;> simp

section Exact

variable {sys : Sys} {m : Machine}

theorem Between.counted (between : Between sys) (f : Fp) : (sys.ftable f).ref = sys.pointers f := by
  obtain ⟨T, J, -, kept⟩ := between
  have count := kept.counted f
  unfold Tables.descriptors at count
  rw [Refs.count_held] at count
  unfold Sys.pointers
  rw [kept.ofile]
  exact count

theorem Between.refersTo_iff (between : Between sys) {pi : Nat} (made : pi < sys.npipe) :
    sys.RefersTo pi ↔ (sys.pipes pi).isOpen true ∨ (sys.pipes pi).isOpen false := by
  obtain ⟨T, J, -, kept⟩ := between
  have opened : ∀ w, (sys.pipes pi).isOpen w = true → sys.RefersTo pi := by
    intro w isOpen
    obtain ⟨f, isEnd⟩ := (kept.pipes.opened made w).mp isOpen
    have isPipe := File.pipeEnd_iff.mp ⟨w, isEnd⟩
    -- an open file has a reference, and it is a descriptor's
    have used : f ∈ T.descriptors := by
      rw [kept.counted.mem_iff, Nat.pos_iff_ne_zero]
      intro free
      exact nomatch (kept.closed f free).symm.trans isPipe.1
    obtain ⟨⟨p, fd⟩, refers⟩ := Refs.mem_held.mp used
    exact ⟨p, fd, f, kept.ofile ▸ refers, isPipe⟩
  constructor
  · rintro ⟨p, fd, f, -, isPipe⟩
    obtain ⟨w, isEnd⟩ := File.pipeEnd_iff.mpr isPipe
    have isOpen := (kept.pipes.opened made w).mpr ⟨f, isEnd⟩
    cases w with
    | true => exact .inl isOpen
    | false => exact .inr isOpen
  · rintro (isOpen | isOpen)
    · exact opened true isOpen
    · exact opened false isOpen

/-- Open-file reference counts are exact: the count of a file is the number of descriptors
that point to it, a file that is used anew has none, and the memory of a pipe has been freed
once if no descriptor refers to either end, and not at all otherwise. -/
theorem file_refs_exact (reach : system.Reachable m) :
    (∀ f, (m.sys.ftable f).ref = m.sys.pointers f) ∧
    (∀ f, m.sys.freeFile = some f → m.sys.pointers f = 0) ∧
    ∀ pi < m.sys.npipe, (m.sys.RefersTo pi → (m.sys.pipes pi).freed = 0) ∧
      (¬ m.sys.RefersTo pi → (m.sys.pipes pi).freed = 1) := by
  have between := reachable_between reach
  refine ⟨between.counted, fun f found => ?_, fun pi made => ?_⟩
  · rw [← between.counted f]
    exact freeFile_some found
  · have refers := between.refersTo_iff made
    obtain ⟨T, J, -, kept⟩ := between
    rw [kept.pipes.freed made, refers]
    exact ⟨fun isOpen => if_pos isOpen, fun closed => if_neg closed⟩

/-- A small disk without files, for runs that do not look at it. -/
def blank : Sys :=
  boot { size := 20, ninodes := 8, inodestart := 2, bmapstart := 3 } fun _ _ => 0

/-- A process makes a pipe and another process, and both close their read end. -/
def sharePipe : List (Slot × Op) :=
  [(0, .pipe true true), (0, .fork true), (0, .close 0), (1, .close 0)]

theorem file_refs_exact_shared : ∃ m, system.Reachable m ∧
    (m.sys.ftable ⟨0, by decide⟩).ref = 0 ∧ (m.sys.ftable ⟨1, by decide⟩).ref = 2 ∧
    (m.sys.pipes 0).freed = 0 ∧ (∀ f, (m.sys.ftable f).ref = m.sys.pointers f) ∧
    (∀ f, m.sys.freeFile = some f → m.sys.pointers f = 0) ∧
    ∀ pi < m.sys.npipe, (m.sys.RefersTo pi → (m.sys.pipes pi).freed = 0) ∧
      (¬ m.sys.RefersTo pi → (m.sys.pipes pi).freed = 1) := by
  obtain ⟨m, reach, read, write, freed⟩ : ∃ m, system.Reachable m ∧
      (m.sys.ftable ⟨0, by decide⟩).ref = 0 ∧ (m.sys.ftable ⟨1, by decide⟩).ref = 2 ∧
      (m.sys.pipes 0).freed = 0 :=
    Lts.exists_of_run (s := { sys := blank }) ⟨_, _, rfl⟩ sharePipe (by decide +kernel)
  exact ⟨m, reach, read, write, freed, file_refs_exact reach⟩

/-! ## Inodes -/

/-- How many open files and current directories point to `e`. -/
def Sys.holders (sys : Sys) (e : Ip) : Nat :=
  (Finset.univ.filter fun f => (sys.ftable f).holds = some e).card +
    (Finset.univ.filter fun p => sys.cwd p = some e).card

/-- A run of `x` takes the reference `taken`, if there is one, and no other count differs. -/
def AddsOnly {α : Type} (s : State) (x : FsM α) (taken : α → Option Ip) : Prop :=
  ∀ a s', x.run s = some (.ok (a, s')) → ∀ e,
    (s'.itable e).ref = (s.itable e).ref + if taken a = some e then 1 else 0

theorem count_taken (H : Multiset Ip) (r : Option Ip) (e : Ip) :
    (taken H r).count e = H.count e + if r = some e then 1 else 0 := by
  cases r with
  | none => rfl
  | some ip =>
    simp only [taken, Multiset.count_cons, Option.some.injEq, eq_comm]

theorem AddsOnly.of_leaves {α : Type} {x : FsM α} {r : α → Option Ip} (refs : Referenced H s)
    (leaves : Leaves H x fun a => taken H (r a)) : AddsOnly s x r := by
  intro a s' run e
  have ends := (leaves s refs).run
  rw [run] at ends
  rw [Referenced.count ends e, refs.count e, count_taken]

theorem sysOpen_refs (between : Between sys) (here : sys.cwd p = some dir) (path : List UInt8)
    (omode : Nat) (run : (sysOpen p dir path omode).run sys = some (.ok (r, sys'))) :
    ∃ opened : Option Ip, (opened.isSome ↔ r.isSome) ∧ ∀ e,
      (sys'.fs.itable e).ref = (sys.fs.itable e).ref + if opened = some e then 1 else 0 := by
  obtain ⟨T, J, ok, kept⟩ := between
  rw [kept.cwd] at here
  have ends := (sysOpen_keeps (p := p) path omode (mem_directories here) kept).run
  rw [run] at ends
  cases r with
  | none =>
    refine ⟨none, by simp, fun e => ?_⟩
    rw [(Kept.inodes ends).count e, kept.inodes.count e]
    rfl
  | some _ =>
    obtain ⟨fd, f, ip, -, after⟩ := ends
    refine ⟨some ip, by simp, fun e => ?_⟩
    have count := count_taken (T.directories + J) (some ip) e
    rw [after.inodes.count e, kept.inodes.count e, Multiset.add_cons]
    exact count

/-- In-memory inode references are exact and unique: the count of an entry of the table is the
number of open files and current directories that point to it, no two entries in use are for
the same inode, and each way out of a path lookup, of `create` and of the calls that take
references on the way changes no count but that of the inode it returns. -/
theorem inode_refs_exact (reach : system.Reachable m) :
    (∀ e, (m.sys.fs.itable e).ref = m.sys.holders e) ∧
    (∀ e e', 0 < (m.sys.fs.itable e).ref → 0 < (m.sys.fs.itable e').ref →
      (m.sys.fs.itable e).inum = (m.sys.fs.itable e').inum → e = e') ∧
    ∀ p dir, m.sys.cwd p = some dir →
      (∀ parent path, AddsOnly m.sys.fs (namex parent dir path) (fun r => r.map (·.1))) ∧
      (∀ path type major minor, AddsOnly m.sys.fs (create dir path type major minor) id) ∧
      (∀ old new, AddsOnly m.sys.fs (sysLink dir old new) (fun _ => none)) ∧
      (∀ usize out, AddsOnly m.sys.fs (sysGetcwd dir usize out) (fun _ => none)) ∧
      ∀ path omode r sys', (sysOpen p dir path omode).run m.sys = some (.ok (r, sys')) →
        ∃ opened : Option Ip, (opened.isSome ↔ r.isSome) ∧ ∀ e,
          (sys'.fs.itable e).ref =
            (m.sys.fs.itable e).ref + if opened = some e then 1 else 0 := by
  have between := reachable_between reach
  obtain ⟨T, J, -, kept⟩ := id between
  have refs := kept.inodes
  refine ⟨fun e => ?_, fun e e' used used' => ?_, fun p dir here => ?_⟩
  · have directories : T.directories.count e =
        (Finset.univ.filter fun p => m.sys.cwd p = some e).card := by
      rw [kept.cwd]
      exact Refs.count_held _ _
    have files : J.count e =
        (Finset.univ.filter fun f => (m.sys.ftable f).holds = some e).card := by
      rw [← kept.files]
      exact Refs.count_held _ _
    rw [refs.count e, Multiset.count_add, directories, files, Nat.add_comm]
    rfl
  · exact refs.unique e (refs.counted.mem_iff.mpr used) e' (refs.counted.mem_iff.mpr used')
  · have mem : dir ∈ T.directories + J := by
      rw [kept.cwd] at here
      exact Multiset.mem_add.mpr (.inl (mem_directories here))
    refine ⟨fun parent path => ?_, fun path type major minor => ?_, fun old new => ?_,
      fun usize out => ?_, fun path omode r sys' run => ?_⟩
    · exact .of_leaves refs (namex_leaves parent path mem)
    · exact .of_leaves refs (create_leaves path type major minor mem)
    · exact .of_leaves refs (sysLink_leaves old new mem)
    · exact .of_leaves refs (sysGetcwd_leaves usize out mem)
    · exact sysOpen_refs between here path omode run

/-- The child of a process goes to `/a/b`, opens its parent and itself, and asks where it is. -/
def visit : List (Slot × Op) :=
  [(0, .fork true), (1, .chdir [0x61, slash, 0x62]), (1, .open dotdot 0), (1, .open dot 0),
    (1, .getcwd 100 true)]

theorem inode_refs_exact_forked : ∃ m, system.Reachable m ∧
    m.sys.cwd 1 = some ⟨2, by decide⟩ ∧ (m.sys.fs.itable ⟨1, by decide⟩).ref = 1 ∧
    (m.sys.fs.itable ⟨2, by decide⟩).ref = 2 ∧ (∀ e, (m.sys.fs.itable e).ref = m.sys.holders e) ∧
    ∀ usize out, AddsOnly m.sys.fs (sysGetcwd ⟨2, by decide⟩ usize out) fun _ => none := by
  obtain ⟨m, reach, here, one, two⟩ : ∃ m, system.Reachable m ∧
      m.sys.cwd 1 = some ⟨2, by decide⟩ ∧ (m.sys.fs.itable ⟨1, by decide⟩).ref = 1 ∧
      (m.sys.fs.itable ⟨2, by decide⟩).ref = 2 :=
    Lts.exists_of_run (s := { sys := boot smallSb smallDisk }) ⟨_, _, rfl⟩ visit
      (by decide +kernel)
  obtain ⟨exact, -, adds⟩ := inode_refs_exact reach
  exact ⟨m, reach, here, one, two, exact, (adds 1 _ here).2.2.2.1⟩

end Exact

end Xv6.Fs
