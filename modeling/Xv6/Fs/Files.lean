import Xv6.Fs.Refs

/-!
# Open files, pipes and descriptors

The invariant that a system call keeps on the tables above the inodes. `Kept D I J T sys` says
that the reference counts of the files are exact for the references `D`, that the pipes
have the ends open that are open files, that the counts of the inodes are exact for the
references `I` and those `J` of the open files, and that the tables of the processes are `T`.
Between calls `D` is what the descriptors refer to and `I` are the current directories;
within a call they differ by the references that the call has taken or is about to drop.
-/

namespace Xv6.Fs

open Function (update update_self update_of_ne update_eq_self)
open Refs (Counted held)

/-! ## Files -/

/-- The inode that an open file has a reference to. -/
def File.holds (v : File) : Option Ip :=
  match v.type with
  | .inode | .device => some v.ip
  | .none | .pipe => none

/-- The end of a pipe that an open file is: the pipe, and whether it is the one for writing. -/
def File.pipeEnd (v : File) : Option (Nat × Bool) :=
  match v.type with
  | .pipe => some (v.pipe, v.writable)
  | .none | .inode | .device => none

theorem File.closed_holds {v : File} (closed : v.type = .none) : v.holds = none := by
  unfold File.holds
  rw [closed]

theorem File.closed_pipeEnd {v : File} (closed : v.type = .none) : v.pipeEnd = none := by
  unfold File.pipeEnd
  rw [closed]

theorem modifyFile_field {β : Type} (field : File → β) (sys : Sys) (f : Fp) (g : File → File) :
    (fun f' => field ((sys.modifyFile f g).ftable f')) =
      update (fun f' => field (sys.ftable f')) f (field (g (sys.ftable f))) := by
  funext f'
  by_cases same : f' = f
  · subst same
    rw [Sys.modifyFile_self, update_self]
  · rw [Sys.modifyFile_other sys g same, update_of_ne same]

/-! ## Pipes -/

/-- Whether the end for writing (`true`) or for reading is open. -/
def Pipe.isOpen (pi : Pipe) : Bool → Bool
  | true => pi.writeopen
  | false => pi.readopen

/-- The pipes that have been made have the ends open that `ends` has, and the memory of a
pipe has been freed once if it has none, and not at all otherwise. -/
structure PipesOk (ends : Fp → Option (Nat × Bool)) (pipes : Nat → Pipe) (npipe : Nat) : Prop where
  bound : ∀ {f pi w}, ends f = some (pi, w) → pi < npipe
  single : ∀ {f f' x}, ends f = some x → ends f' = some x → f = f'
  opened : ∀ {pi}, pi < npipe → ∀ w, (pipes pi).isOpen w = true ↔ ∃ f, ends f = some (pi, w)
  freed : ∀ {pi}, pi < npipe →
    (pipes pi).freed = if (pipes pi).isOpen true ∨ (pipes pi).isOpen false then 0 else 1

theorem Pipe.close_isOpen (pi : Pipe) (w w' : Bool) :
    (pi.close w).isOpen w' = (pi.isOpen w' && !(w' == w)) := by
  cases w <;> cases w' <;> simp [Pipe.close, Pipe.isOpen]

/-- Whoever closes the second end frees the pipe. -/
theorem Pipe.close_freed (pi : Pipe) (opened : pi.isOpen w = true)
    (freed : pi.freed = if pi.isOpen true ∨ pi.isOpen false then 0 else 1) :
    (pi.close w).freed =
      if (pi.close w).isOpen true ∨ (pi.close w).isOpen false then 0 else 1 := by
  have once : pi.freed = 0 := by
    rw [freed, if_pos]
    cases w with
    | true => exact .inl opened
    | false => exact .inr opened
  cases w with
  | true => cases other : pi.readopen <;> simp [Pipe.close, Pipe.isOpen, once, other]
  | false => cases other : pi.writeopen <;> simp [Pipe.close, Pipe.isOpen, once, other]

namespace PipesOk

variable {ends : Fp → Option (Nat × Bool)} {pipes : Nat → Pipe} {npipe : Nat}

theorem boot : PipesOk (fun _ => none) (fun _ => {}) 0 where
  bound := nofun
  single := nofun
  opened := nofun
  freed := nofun

theorem close (ok : PipesOk ends pipes npipe) (here : ends f = some (pi, w)) :
    PipesOk (update ends f none)
      (update pipes pi ((pipes pi).close w)) npipe where
  bound {f' pi' w'} h := by
    by_cases same : f' = f
    · rw [same, update_self] at h
      cases h
    · rw [update_of_ne same] at h
      exact ok.bound h
  single {f1 f2 x} h1 h2 := by
    have other : ∀ {f'}, update ends f none f' = some x → ends f' = some x := by
      intro f' h
      by_cases same : f' = f
      · rw [same, update_self] at h
        cases h
      · rwa [update_of_ne same] at h
    exact ok.single (other h1) (other h2)
  opened {pi'} small w' := by
    have before := ok.opened small w'
    by_cases samePipe : pi' = pi
    · subst samePipe
      rw [update_self, Pipe.close_isOpen]
      by_cases sameEnd : w' = w
      · subst sameEnd
        refine ⟨fun h => by simp at h, ?_⟩
        rintro ⟨f', h⟩
        -- the other file with this end would be `f`
        by_cases same : f' = f
        · rw [same, update_self] at h
          cases h
        · rw [update_of_ne same] at h
          exact (same (ok.single h here)).elim
      · simp only [beq_eq_false_iff_ne.mpr sameEnd, Bool.not_false, Bool.and_true]
        rw [before]
        refine exists_congr fun f' => ?_
        by_cases same : f' = f
        · rw [same, update_self, here]
          simp [Ne.symm sameEnd]
        · rw [update_of_ne same]
    · rw [update_of_ne samePipe, before]
      refine exists_congr fun f' => ?_
      by_cases same : f' = f
      · rw [same, update_self, here]
        simp [Ne.symm samePipe]
      · rw [update_of_ne same]
  freed {pi'} small := by
    by_cases samePipe : pi' = pi
    · subst samePipe
      rw [update_self]
      exact Pipe.close_freed _ ((ok.opened small w).mpr ⟨f, here⟩) (ok.freed small)
    · rw [update_of_ne samePipe]
      exact ok.freed small

theorem create (ok : PipesOk ends pipes npipe) (free0 : ends f0 = none) (free1 : ends f1 = none)
    (differ : f1 ≠ f0) :
    PipesOk (update (update ends f0 (some (npipe, false))) f1 (some (npipe, true)))
      (update pipes npipe { readopen := true, writeopen := true }) (npipe + 1) := by
  -- which file has which end
  have cases_end : ∀ {f x}, update (update ends f0 (some (npipe, false))) f1
      (some (npipe, true)) f = some x →
      (f = f1 ∧ x = (npipe, true)) ∨ (f = f0 ∧ x = (npipe, false)) ∨ ends f = some x := by
    intro f x h
    by_cases is1 : f = f1
    · rw [is1, update_self] at h
      exact .inl ⟨is1, (Option.some.inj h).symm⟩
    rw [update_of_ne is1] at h
    by_cases is0 : f = f0
    · rw [is0, update_self] at h
      exact .inr (.inl ⟨is0, (Option.some.inj h).symm⟩)
    · rw [update_of_ne is0] at h
      exact .inr (.inr h)
  have old : ∀ {f x}, ends f = some x → update (update ends f0
      (some (npipe, false))) f1 (some (npipe, true)) f = some x := by
    intro f x h
    have not1 : f ≠ f1 := by
      rintro rfl
      rw [free1] at h
      cases h
    have not0 : f ≠ f0 := by
      rintro rfl
      rw [free0] at h
      cases h
    rw [update_of_ne not1, update_of_ne not0]
    exact h
  refine ⟨?_, ?_, ?_, ?_⟩
  · intro f pi w h
    rcases cases_end h with ⟨-, new⟩ | ⟨-, new⟩ | before
    · cases new
      exact Nat.lt_succ_self _
    · cases new
      exact Nat.lt_succ_self _
    · exact Nat.lt_succ_of_lt (ok.bound before)
  · intro f f' x h h'
    rcases cases_end h with ⟨is, rfl⟩ | ⟨is, rfl⟩ | before <;>
      rcases cases_end h' with ⟨is', new'⟩ | ⟨is', new'⟩ | before'
    · rw [is, is']
    · cases new'
    · exact (Nat.lt_irrefl _ (ok.bound before')).elim
    · cases new'
    · rw [is, is']
    · exact (Nat.lt_irrefl _ (ok.bound before')).elim
    · subst new'
      exact (Nat.lt_irrefl _ (ok.bound before)).elim
    · subst new'
      exact (Nat.lt_irrefl _ (ok.bound before)).elim
    · exact ok.single before before'
  · intro pi small w
    by_cases new : pi = npipe
    · subst new
      rw [update_self]
      refine ⟨fun _ => ?_, fun _ => by cases w <;> rfl⟩
      cases w with
      | true => exact ⟨f1, update_self ..⟩
      | false => exact ⟨f0, by rw [update_of_ne differ.symm, update_self]⟩
    · have small : pi < npipe := Nat.lt_of_le_of_ne (Nat.lt_succ_iff.mp small) new
      rw [update_of_ne new, ok.opened small w]
      refine ⟨fun ⟨f, h⟩ => ⟨f, old h⟩, fun ⟨f, h⟩ => ?_⟩
      rcases cases_end h with ⟨-, same⟩ | ⟨-, same⟩ | before
      · exact (new (congrArg Prod.fst same)).elim
      · exact (new (congrArg Prod.fst same)).elim
      · exact ⟨f, before⟩
  · intro pi small
    by_cases new : pi = npipe
    · subst new
      rw [update_self]
      rfl
    · rw [update_of_ne new]
      exact ok.freed (Nat.lt_of_le_of_ne (Nat.lt_succ_iff.mp small) new)

end PipesOk

/-! ## The tables -/

/-- What the processes have: open files, a current directory, a state. -/
structure Tables where
  ofile : Slot → Fd → Option Fp
  cwd : Slot → Option Ip
  proc : Slot → ProcState

def Sys.tables (sys : Sys) : Tables := ⟨sys.ofile, sys.cwd, sys.proc⟩

def Tables.setFd (T : Tables) (p : Slot) (fd : Fd) (f : Option Fp) : Tables :=
  { T with ofile := update T.ofile p (update (T.ofile p) fd f) }

/-- The references to inodes that the open files have. -/
def Sys.fileInodes (sys : Sys) : Multiset Ip := held fun f => (sys.ftable f).holds

/-- The invariant, for the references `D` to files and `I` to inodes. -/
structure Kept (D : Multiset Fp) (I J : Multiset Ip) (T : Tables) (sys : Sys) : Prop where
  counted : Counted (fun f => (sys.ftable f).ref) D
  closed : ∀ f, (sys.ftable f).ref = 0 → (sys.ftable f).type = .none
  pipes : PipesOk (fun f => (sys.ftable f).pipeEnd) sys.pipes sys.npipe
  inodes : Referenced (I + J) sys.fs
  files : sys.fileInodes = J
  tables : sys.tables = T

section Kept

variable {α β : Type} {D : Multiset Fp} {I J : Multiset Ip} {T : Tables} {sys : Sys}
  {f : Fp} {ip : Ip}

/-- How a program on the tables ends. Nothing is said of a run that ends with a panic. -/
abbrev KeepsTo (p : SysM α) (Q : α → Sys → Prop) (sys : Sys) : Prop := p.Ends (fun _ => True) Q sys

theorem taken_add (I H : Multiset Ip) (r : Option Ip) : taken (I + H) r = taken I r + H := by
  cases r with
  | none => rfl
  | some ip => exact (Multiset.cons_add ip I H).symm

theorem onFs_ends (ends : x.Ends E Q sys.fs) :
    (onFs x).Ends E (fun a sys' => ∃ s, Q a s ∧ sys' = sys.setFs s) sys :=
  .zoom (fun _ _ => rfl) (fun _ _ _ => rfl) (fun _ => rfl) ends

/-- A program of the file system that takes the references `I` to `I'`. -/
theorem Kept.run {I' : α → Multiset Ip} (kept : Kept D I J T sys)
    (leaves : ∀ H, Leaves (I + H) x fun a => I' a + H) :
    KeepsTo (onFs x) (fun a sys' => Kept D (I' a) J T sys') sys := by
  refine (onFs_ends (leaves J sys.fs kept.inodes)).imp ?_
  rintro a sys' ⟨s, refs, rfl⟩
  exact ⟨kept.counted, kept.closed, kept.pipes, refs, kept.files, kept.tables⟩

theorem Kept.quiet (kept : Kept D I J T sys) (quiet : Quiet x) :
    KeepsTo (onFs x) (fun _ sys' => Kept D I J T sys') sys :=
  kept.run fun _ => .quiet quiet

/-- A file is changed in nothing that the invariant is about. -/
theorem Kept.assign (kept : Kept D I J T sys) (ref : ∀ v, (g v).ref = v.ref)
    (type : ∀ v, (g v).type = v.type) (holds : ∀ v, (g v).holds = v.holds)
    (pipeEnd : ∀ v, (g v).pipeEnd = v.pipeEnd) : Kept D I J T (sys.modifyFile f g) where
  counted := by
    rw [modifyFile_field File.ref, ref, update_eq_self]
    exact kept.counted
  closed f' free := by
    have refs := congrFun (modifyFile_field File.ref sys f g) f'
    have types := congrFun (modifyFile_field File.type sys f g) f'
    rw [ref, update_eq_self] at refs
    rw [type, update_eq_self] at types
    rw [types]
    exact kept.closed f' (refs.symm.trans free)
  pipes := by
    have same := modifyFile_field File.pipeEnd sys f g
    rw [pipeEnd, update_eq_self] at same
    rw [same]
    exact kept.pipes
  inodes := kept.inodes
  files := by
    have same := modifyFile_field File.holds sys f g
    rw [holds, update_eq_self] at same
    unfold Sys.fileInodes
    rw [same]
    exact kept.files
  tables := kept.tables

theorem freeFile_some (found : sys.freeFile = some f) : (sys.ftable f).ref = 0 := by
  simpa using List.find?_some found

/-- `filealloc` finds a file with no references, and gives it one. -/
theorem filealloc_keeps (kept : Kept D I J T sys) :
    KeepsTo filealloc (fun new sys' => match new with
      | none => Kept D I J T sys'
      | some f => Kept (f ::ₘ D) I J T sys' ∧ (sys'.ftable f).type = .none ∧ f ∉ D ∧
          ∀ f' ∈ D, sys'.ftable f' = sys.ftable f') sys := by
  refine .atomic ?_
  split
  · exact kept
  rename_i f found
  have free := freeFile_some found
  have out : f ∉ D := by
    rw [kept.counted.mem_iff, free]
    exact Nat.lt_irrefl 0
  have type : ((sys.modifyFile f fun v => { v with ref := 1 }).ftable f).type = .none := by
    rw [Sys.modifyFile_self]
    exact kept.closed f free
  refine ⟨⟨?_, ?_, ?_, kept.inodes, ?_, kept.tables⟩, type, out, ?_⟩
  · have one := kept.counted.more f
    rw [free] at one
    rw [modifyFile_field File.ref]
    exact one
  · intro f' free'
    by_cases same : f' = f
    · rw [same]
      exact type
    · rw [Sys.modifyFile_other sys _ same] at free' ⊢
      exact kept.closed f' free'
  · rw [modifyFile_field File.pipeEnd]
    exact (update_eq_self f fun f' => (sys.ftable f').pipeEnd).symm ▸ kept.pipes
  · unfold Sys.fileInodes
    rw [modifyFile_field File.holds]
    exact (update_eq_self f fun f' => (sys.ftable f').holds).symm ▸ kept.files
  · intro f' mem
    exact sys.modifyFile_other _ fun same => out (same ▸ mem)

theorem Kept.recount (kept : Kept D I J T sys)
    (counted : Counted (update (fun f => (sys.ftable f).ref) f n) D') (pos : 0 < n) :
    Kept D' I J T (sys.modifyFile f fun v => { v with ref := n }) where
  counted := by
    rw [modifyFile_field File.ref]
    exact counted
  closed f' free := by
    by_cases same : f' = f
    · rw [same, Sys.modifyFile_self] at free
      exact (Nat.ne_of_gt pos free).elim
    · rw [Sys.modifyFile_other sys _ same] at free ⊢
      exact kept.closed f' free
  pipes := by
    rw [modifyFile_field File.pipeEnd]
    exact (update_eq_self f fun f' => (sys.ftable f').pipeEnd).symm ▸ kept.pipes
  inodes := kept.inodes
  files := by
    unfold Sys.fileInodes
    rw [modifyFile_field File.holds]
    exact (update_eq_self f fun f' => (sys.ftable f').holds).symm ▸ kept.files
  tables := kept.tables

theorem filedup_keeps (kept : Kept D I J T sys) (f : Fp) :
    KeepsTo (filedup f) (fun _ sys' => Kept (f ::ₘ D) I J T sys') sys := by
  refine .atomic ?_
  split
  · trivial
  · exact kept.recount (kept.counted.more f) (Nat.succ_pos _)

theorem taken_toList (I H : Multiset Ip) (r : Option Ip) :
    taken I r + H = I + ((r.toList : Multiset Ip) + H) := by
  cases r with
  | none => simp [taken]
  | some ip => simp [taken, Multiset.cons_add]

theorem closeFile_inodes (I : Multiset Ip) (sys : Sys) (f : Fp) :
    taken I (sys.ftable f).holds + (sys.closeFile f).fileInodes = I + sys.fileInodes := by
  have cleared : (sys.closeFile f).fileInodes =
      held (update (fun f' => (sys.ftable f').holds) f none) :=
    congrArg held (modifyFile_field File.holds _ _ _)
  rw [taken_toList, cleared, Refs.held_update, Sys.fileInodes, Refs.held_eq _ f]
  simp

theorem Kept.closeFile (kept : Kept (f ::ₘ D) I J T sys) (last : (sys.ftable f).ref = 1)
    (pipes : Nat → Pipe)
    (ok : PipesOk (update (fun f' => (sys.ftable f').pipeEnd) f none) pipes sys.npipe) :
    Kept D (taken I (sys.ftable f).holds) (sys.closeFile f).fileInodes T
      { sys.closeFile f with pipes := pipes } where
  counted := by
    have fewer := kept.counted.fewer
    rw [last] at fewer
    have refs := modifyFile_field File.ref sys f fun v => { v with ref := 0, type := .none }
    exact refs ▸ fewer
  closed f' free := by
    unfold Sys.closeFile at free ⊢
    by_cases same : f' = f
    · rw [same, Sys.modifyFile_self]
    · rw [Sys.modifyFile_other sys _ same] at free ⊢
      exact kept.closed f' free
  pipes := by
    have ends := modifyFile_field File.pipeEnd sys f fun v => { v with ref := 0, type := .none }
    exact ends ▸ ok
  inodes := by
    rw [closeFile_inodes, kept.files]
    exact kept.inodes
  files := rfl
  tables := kept.tables

theorem iput_keeps (kept : Kept D (ip ::ₘ I) J T sys) :
    KeepsTo (onFs (transaction (iput ip))) (fun _ sys' => Kept D I J T sys') sys := by
  refine kept.run fun H => transaction_leaves ?_
  rw [Multiset.cons_add]
  exact iput_leaves

/-- The last reference to a file gives the pipe's end or the inode back. -/
theorem closeLast_keeps (kept : Kept (f ::ₘ D) I J T sys) (last : (sys.ftable f).ref = 1) :
    KeepsTo (closeLast (sys.ftable f))
      (fun _ sys' => Kept D I (sys.closeFile f).fileInodes T sys') (sys.closeFile f) := by
  have noPipe (noEnd : (sys.ftable f).pipeEnd = none) :
      Kept D (taken I (sys.ftable f).holds) (sys.closeFile f).fileInodes T (sys.closeFile f) := by
    refine kept.closeFile last sys.pipes ?_
    rw [← noEnd, update_eq_self]
    exact kept.pipes
  unfold closeLast
  split
  · next type =>
    have after := noPipe (File.closed_pipeEnd type)
    rw [File.closed_holds type] at after
    exact after
  · next type =>
    have isEnd : (sys.ftable f).pipeEnd =
        some ((sys.ftable f).pipe, (sys.ftable f).writable) := by
      unfold File.pipeEnd
      rw [type]
    have noInode : (sys.ftable f).holds = none := by
      unfold File.holds
      rw [type]
    have after := kept.closeFile last _ (kept.pipes.close (f := f) isEnd)
    rw [noInode] at after
    exact after
  all_goals
    next type =>
      have after := noPipe (by unfold File.pipeEnd; rw [type])
      have holds : (sys.ftable f).holds = some (sys.ftable f).ip := by
        unfold File.holds
        rw [type]
      rw [holds] at after
      exact iput_keeps after

theorem fileclose_keeps (kept : Kept (f ::ₘ D) I J T sys) :
    KeepsTo (fileclose f) (fun _ sys' => ∃ J', Kept D I J' T sys' ∧
      ((sys.ftable f).type = .none → J' = J)) sys := by
  have start : KeepsTo (dropFile f) (fun last sys' => match last with
      | some ff => (sys.ftable f).ref = 1 ∧ ff = sys.ftable f ∧ sys' = sys.closeFile f
      | none => Kept D I J T sys') sys := by
    refine .atomic ?_
    split
    · trivial
    · split
      · next many => exact kept.recount kept.counted.fewer (Nat.sub_pos_of_lt many)
      · exact ⟨by omega, rfl, rfl⟩
  refine start.bind fun last sys' after => ?_
  cases last with
  | none => exact ⟨J, after, fun _ => rfl⟩
  | some ff =>
    obtain ⟨one, rfl, rfl⟩ := after
    refine (closeLast_keeps kept one).imp fun _ sys' kept' => ⟨_, kept', fun type => ?_⟩
    have same := closeFile_inodes 0 sys f
    rw [File.closed_holds type] at same
    simpa [taken, kept.files] using same

end Kept

end Xv6.Fs
